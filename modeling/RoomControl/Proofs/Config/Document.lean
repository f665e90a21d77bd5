import Mathlib.Data.List.Induction
import RoomControl.Proofs.Config.Line

/-!
# What a settings file says

A file is read line by line, with a section in force and a configuration so far. Both have a meaning
of their own: the section in force is that of the last header (`inForce`), and each key has the value
that the last line to assign it gives it (`Describes`). So a file is accepted when each of its lines
has a place in the section in force there, and the PIN that results is one; else the fault is that of
the first line that has none (`settings_file_meaning`).

The induction is on the lines, from the end: what a file says with one line more is what it says
without, followed by that line (`outcome_steps`).
-/

set_option autoImplicit false

namespace RoomControl

open Line (Silent Heads Assigns Sound Fault)

/-! ## The section in force -/

/-- The section that a line is the header of. -/
def heading? (line : List Char) : Option Section :=
  match Line.read line with
  | .ok (.header inside) => some inside
  | _ => none

/-- The section in force behind these lines: that of the last header, or else the root. -/
def inForce (before : List (List Char)) : Section := (before.reverse.findSome? heading?).getD .root

/-- The function finds the headers, and nothing else. -/
theorem heading?_eq_some_iff {line : List Char} {inside : Section} :
    heading? line = some inside ↔ Heads line inside := by
  constructor
  · intro h
    unfold heading? at h
    split at h
    · rename_i next hread
      cases h
      exact Line.heads_of_read hread
    · cases h
  · intro h
    rw [heading?, Line.read_of_heads h]

theorem heading?_of_silent {line : List Char} (h : Silent line) : heading? line = none := by
  rw [heading?, Line.read_of_silent h]

theorem heading?_of_assigns {line : List Char} {inside : Section} {key : Key} {v : key.Value}
    (h : Assigns inside line key v) : heading? line = none := by
  obtain ⟨-, _, assignment, -⟩ := h
  rw [heading?, Line.read_of_assignment assignment]

theorem inForce_concat (before : List (List Char)) (line : List Char) :
    inForce (before ++ [line]) = (heading? line).getD (inForce before) := by
  rw [inForce, List.reverse_append, List.reverse_singleton, List.singleton_append,
    List.findSome?_cons]
  cases heading? line with
  | none => rfl
  | some inside => rfl

/-! ## What the lines describe -/

variable {ls : List (List Char)} {i : Nat} {inside : Section} {line : List Char}

/-- Line `i` of the file, with the section in force there. -/
def Stands (ls : List (List Char)) (i : Nat) (inside : Section) (line : List Char) : Prop :=
  ls[i]? = some line ∧ inForce (ls.take i) = inside

/-- Line `i` of the file assigns the key. -/
def Sets (ls : List (List Char)) (i : Nat) (key : Key) (v : key.Value) : Prop :=
  ∃ inside line, Stands ls i inside line ∧ Assigns inside line key v

/-- Each key has the value that was assigned to it last, or else that of the default
configuration. -/
def Describes (ls : List (List Char)) (config : NodeConfig) : Prop :=
  ∀ key, (∃ i, Sets ls i key (config.get key) ∧ ∀ j v, Sets ls j key v → j ≤ i) ∨
    (∀ i v, ¬ Sets ls i key v) ∧ config.get key = ({} : NodeConfig).get key

/-- Each line has a place in the section in force there. -/
def AllSound (ls : List (List Char)) : Prop :=
  ∀ i inside line, Stands ls i inside line → Sound inside line

/-- The fault of the first line that has no place. -/
def FirstFault (ls : List (List Char)) (e : ConfigError) : Prop :=
  ∃ i inside line, Stands ls i inside line ∧ Fault inside line e ∧
    ∀ j inside' line', j < i → Stands ls j inside' line' → Sound inside' line'

theorem stands_concat (last : List Char) : Stands (ls ++ [last]) i inside line ↔
    Stands ls i inside line ∨ i = ls.length ∧ line = last ∧ inForce ls = inside := by
  unfold Stands
  rcases Nat.lt_trichotomy i ls.length with hi | rfl | hi
  · rw [List.getElem?_append_left hi, List.take_append_of_le_length (Nat.le_of_lt hi)]
    exact ⟨.inl, fun h => h.resolve_right fun h => absurd h.1 (Nat.ne_of_lt hi)⟩
  · rw [List.getElem?_concat_length, List.take_left, Option.some.injEq]
    constructor
    · rintro ⟨rfl, rfl⟩
      exact .inr ⟨rfl, rfl, rfl⟩
    · rintro (⟨h, -⟩ | ⟨-, rfl, rfl⟩)
      · rw [List.getElem?_eq_none (Nat.le_refl _)] at h
        cases h
      · exact ⟨rfl, rfl⟩
  · have hlong : (ls ++ [last]).length ≤ i := by
      rw [List.length_append, List.length_singleton]
      exact hi
    rw [List.getElem?_eq_none hlong, List.getElem?_eq_none (Nat.le_of_lt hi)]
    constructor
    · rintro ⟨h, -⟩
      cases h
    · rintro (⟨h, -⟩ | ⟨rfl, -⟩)
      · cases h
      · exact absurd hi (Nat.lt_irrefl _)

theorem Stands.lt_length (h : Stands ls i inside line) : i < ls.length :=
  (List.getElem?_eq_some_iff.mp h.1).1

theorem Stands.unique {inside' : Section} {line' : List Char} (h : Stands ls i inside line)
    (h' : Stands ls i inside' line') : inside = inside' ∧ line = line' :=
  ⟨h.2.symm.trans h'.2, Option.some.inj (h.1.symm.trans h'.1)⟩

theorem sets_concat (last : List Char) {key : Key} {v : key.Value} :
    Sets (ls ++ [last]) i key v ↔
      Sets ls i key v ∨ i = ls.length ∧ Assigns (inForce ls) last key v := by
  constructor
  · rintro ⟨inside, line, hstands, hassigns⟩
    rcases (stands_concat last).mp hstands with h | ⟨rfl, rfl, rfl⟩
    · exact .inl ⟨inside, line, h, hassigns⟩
    · exact .inr ⟨rfl, hassigns⟩
  · rintro (⟨inside, line, hstands, hassigns⟩ | ⟨rfl, hassigns⟩)
    · exact ⟨inside, line, (stands_concat last).mpr (.inl hstands), hassigns⟩
    · exact ⟨_, last, (stands_concat last).mpr (.inr ⟨rfl, rfl, rfl⟩), hassigns⟩

theorem Sets.lt_length {key : Key} {v : key.Value} (h : Sets ls i key v) : i < ls.length := by
  obtain ⟨_, _, hstands, -⟩ := h
  exact hstands.lt_length

theorem Sets.unique {key : Key} {v v' : key.Value} (h : Sets ls i key v) (h' : Sets ls i key v') :
    v = v' := by
  obtain ⟨inside, line, hstands, hassigns⟩ := h
  obtain ⟨inside', line', hstands', hassigns'⟩ := h'
  obtain ⟨rfl, rfl⟩ := hstands.unique hstands'
  exact hassigns.value_unique hassigns'

/-- Lines describe one configuration at most. -/
theorem Describes.unique {c d : NodeConfig} (hc : Describes ls c) (hd : Describes ls d) : c = d := by
  refine NodeConfig.ext_get fun key => ?_
  rcases hc key with ⟨i, hset, hlast⟩ | ⟨hnone, hdefault⟩
  · rcases hd key with ⟨j, hset', hlast'⟩ | ⟨hnone', -⟩
    · have hsame : i = j := Nat.le_antisymm (hlast' i _ hset) (hlast j _ hset')
      subst hsame
      exact hset.unique hset'
    · exact absurd hset (hnone' i _)
  · rcases hd key with ⟨j, hset', -⟩ | ⟨-, hdefault'⟩
    · exact absurd hset' (hnone j _)
    · rw [hdefault, hdefault']

/-! ## One line more -/

theorem allSound_concat {last : List Char} :
    AllSound (ls ++ [last]) ↔ AllSound ls ∧ Sound (inForce ls) last := by
  constructor
  · refine fun h => ⟨fun i inside line hstands => ?_, ?_⟩
    · exact h i inside line ((stands_concat last).mpr (.inl hstands))
    · exact h ls.length _ _ ((stands_concat last).mpr (.inr ⟨rfl, rfl, rfl⟩))
  · rintro ⟨hall, hlast⟩ i inside line hstands
    rcases (stands_concat last).mp hstands with h | ⟨-, rfl, rfl⟩
    · exact hall i inside line h
    · exact hlast

theorem FirstFault.concat {e : ConfigError} (h : FirstFault ls e) (last : List Char) :
    FirstFault (ls ++ [last]) e := by
  obtain ⟨i, inside, line, hstands, hfault, hbefore⟩ := h
  refine ⟨i, inside, line, (stands_concat last).mpr (.inl hstands), hfault, ?_⟩
  intro j inside' line' hj hstands'
  rcases (stands_concat last).mp hstands' with h | ⟨rfl, -, -⟩
  · exact hbefore j inside' line' hj h
  · exact absurd hstands.lt_length (Nat.lt_asymm hj)

theorem firstFault_of_fault {e : ConfigError} {last : List Char} (hall : AllSound ls)
    (h : Fault (inForce ls) last e) : FirstFault (ls ++ [last]) e := by
  refine ⟨ls.length, _, last, (stands_concat last).mpr (.inr ⟨rfl, rfl, rfl⟩), h, ?_⟩
  intro j inside' line' hj hstands'
  rcases (stands_concat last).mp hstands' with h | ⟨rfl, -, -⟩
  · exact hall j inside' line' h
  · exact absurd hj (Nat.lt_irrefl _)

/-- A line that assigns nothing leaves what is described. -/
theorem Describes.concat {config : NodeConfig} {last : List Char} (h : Describes ls config)
    (hnone : ∀ key v, ¬ Assigns (inForce ls) last key v) : Describes (ls ++ [last]) config := by
  have hsets : ∀ i key v, Sets (ls ++ [last]) i key v ↔ Sets ls i key v := fun i key v =>
    (sets_concat last).trans (or_iff_left fun h => hnone key v h.2)
  intro key
  rcases h key with ⟨i, hset, hlast⟩ | ⟨hunset, hdefault⟩
  · exact .inl ⟨i, (hsets i key _).mpr hset, fun j v hj => hlast j v ((hsets j key v).mp hj)⟩
  · exact .inr ⟨fun i v hi => hunset i v ((hsets i key v).mp hi), hdefault⟩

/-- A line that assigns a key sets it, and no other. -/
theorem Describes.set {config : NodeConfig} {last : List Char} {key : Key} {v : key.Value}
    (h : Describes ls config) (hassigns : Assigns (inForce ls) last key v) :
    Describes (ls ++ [last]) (config.set key v) := by
  intro other
  by_cases hother : other = key
  · subst hother
    refine .inl ⟨ls.length, (sets_concat last).mpr (.inr ⟨rfl, ?_⟩), fun j w hj => ?_⟩
    · rw [NodeConfig.get_set_self]
      exact hassigns
    · have hlt := hj.lt_length
      rw [List.length_append, List.length_singleton] at hlt
      exact Nat.le_of_lt_succ hlt
  · have hsets : ∀ i w, Sets (ls ++ [last]) i other w ↔ Sets ls i other w := fun i w =>
      (sets_concat last).trans (or_iff_left fun h => hother (h.2.key_unique hassigns))
    rw [NodeConfig.get_set_of_ne _ _ hother]
    rcases h other with ⟨i, hset, hlast⟩ | ⟨hunset, hdefault⟩
    · exact .inl ⟨i, (hsets i _).mpr hset, fun j w hj => hlast j w ((hsets j w).mp hj)⟩
    · exact .inr ⟨fun i w hi => hunset i w ((hsets i w).mp hi), hdefault⟩

/-! ## Reading the lines -/

namespace Reading

theorem steps_append (r : Reading) (front back : List (List Char)) :
    r.steps (front ++ back) = (r.steps front).bind fun next => next.steps back := by
  induction front generalizing r with
  | nil => rfl
  | cons line rest ih =>
    rw [List.cons_append, steps, steps]
    cases r.step line with
    | error e => rfl
    | ok next => exact ih next

theorem steps_concat (r : Reading) (front : List (List Char)) (last : List Char) :
    r.steps (front ++ [last]) = (r.steps front).bind fun next => next.step last := by
  rw [steps_append]
  refine congrArg _ (funext fun next => ?_)
  rw [steps]
  cases next.step last with
  | error e => rfl
  | ok done => rfl

/-- A line that has its place is read on top of what the lines before it describe. -/
theorem exists_step {ls : List (List Char)} {last : List Char} {r : Reading}
    (hinside : r.inside = inForce ls) (h : Describes ls r.config)
    (sound : Sound (inForce ls) last) :
    ∃ next, r.step last = .ok next ∧ next.inside = inForce (ls ++ [last]) ∧
      Describes (ls ++ [last]) next.config := by
  rw [inForce_concat]
  rcases sound with silent | ⟨inside, heads⟩ | ⟨key, v, assigns⟩
  · refine ⟨r, step_of_silent silent, ?_, h.concat fun key v ha => ?_⟩
    · rw [heading?_of_silent silent]
      exact hinside
    · obtain ⟨-, _, assignment, -⟩ := ha
      exact assignment.speaks silent
  · refine ⟨_, step_of_heads heads, ?_, h.concat fun key v ha => ?_⟩
    · rw [heading?_eq_some_iff.mpr heads]
      rfl
    · obtain ⟨-, _, assignment, -⟩ := ha
      obtain ⟨inner, hinner, -⟩ := heads
      exact assignment.bare inner hinner
  · refine ⟨_, step_of_assigns (hinside ▸ assigns), ?_, h.set assigns⟩
    rw [heading?_of_assigns assigns]
    exact hinside

/-- **What reading lines comes to**: all of them have their place, and what was read is what they
describe, or the first that has none is at fault. -/
theorem outcome_steps (ls : List (List Char)) :
    (∃ r, steps {} ls = .ok r ∧ AllSound ls ∧ r.inside = inForce ls ∧ Describes ls r.config) ∨
      ∃ e, steps {} ls = .error e ∧ FirstFault ls e := by
  induction ls using List.reverseRecOn with
  | nil =>
    refine .inl ⟨{}, rfl, fun i inside line h => ?_, rfl, fun key => .inr ⟨fun i v h => ?_, rfl⟩⟩
    · exact absurd h.lt_length (Nat.not_lt_zero i)
    · exact absurd h.lt_length (Nat.not_lt_zero i)
  | append_singleton ls last ih =>
    rw [steps_concat]
    rcases ih with ⟨r, hread, hall, hinside, hdescribes⟩ | ⟨e, hread, hfirst⟩
    · rw [hread]
      rcases Line.sound_or_fault (inForce ls) last with hsound | ⟨e, hfault⟩
      · obtain ⟨next, hstep, hnext⟩ := exists_step hinside hdescribes hsound
        exact .inl ⟨next, hstep, allSound_concat.mpr ⟨hall, hsound⟩, hnext⟩
      · exact .inr ⟨e, step_of_fault (hinside ▸ hfault), firstFault_of_fault hall hfault⟩
    · rw [hread]
      exact .inr ⟨e, rfl, hfirst.concat last⟩

end Reading

theorem AllSound.not_firstFault {e : ConfigError} (h : AllSound ls) : ¬ FirstFault ls e := by
  rintro ⟨i, inside, line, hstands, hfault, -⟩
  exact (h i inside line hstands).not_fault hfault

/-- A file has one first fault at most. -/
theorem FirstFault.unique {e e' : ConfigError} (h : FirstFault ls e) (h' : FirstFault ls e') :
    e = e' := by
  obtain ⟨i, inside, line, hstands, hfault, hbefore⟩ := h
  obtain ⟨j, inside', line', hstands', hfault', hbefore'⟩ := h'
  rcases Nat.lt_trichotomy i j with hij | rfl | hij
  · exact absurd hfault (hbefore' i inside line hij hstands).not_fault
  · obtain ⟨rfl, rfl⟩ := hstands.unique hstands'
    exact hfault.unique hfault'
  · exact absurd hfault' (hbefore j inside' line' hij hstands').not_fault

/-! ## What is true of every accepted file -/

/-- The four times that may not be zero are not. -/
structure NodeConfig.PositiveTimes (config : NodeConfig) : Prop where
  tickMs : config.timing.tickMs ≠ 0
  responseTimeout : config.timing.responseTimeout ≠ 0
  retryTimeout : config.timing.retryTimeout ≠ 0
  evalInterval : config.timing.evalInterval ≠ 0

/-- A value that was assigned, or is the default, is what the key allows. -/
theorem Describes.allows {config : NodeConfig} (h : Describes ls config) (key : Key)
    {P : key.Value → Prop} (hdenotes : ∀ text v, key.Denotes text v → P v)
    (hdefault : P (({} : NodeConfig).get key)) : P (config.get key) := by
  rcases h key with ⟨i, ⟨_, _, -, -, value, -, denotes⟩, -⟩ | ⟨-, hsame⟩
  · exact hdenotes value _ denotes
  · rw [hsame]
    exact hdefault

theorem Describes.positiveTimes {config : NodeConfig} (h : Describes ls config) :
    config.PositiveTimes where
  tickMs := h.allows .tickMs (fun _ _ denotes => denotes.2) (by decide)
  responseTimeout := h.allows .responseTimeout (fun _ _ denotes => denotes.2) (by decide)
  retryTimeout := h.allows .retryTimeout (fun _ _ denotes => denotes.2) (by decide)
  evalInterval := h.allows .evalInterval (fun _ _ denotes => denotes.2) (by decide)

/-! ## Two assignments -/

namespace Reading

theorem steps_of_assigns {r : Reading} {line : List Char} {key : Key} {v : key.Value}
    (h : Assigns r.inside line key v) (rest : List (List Char)) :
    r.steps (line :: rest) = steps { r with config := r.config.set key v } rest := by
  rw [steps, step_of_assigns h]
  rfl

/-- Assignments of two keys come to the same in either order. -/
theorem steps_swap {r : Reading} {first second : List Char} {key other : Key} {v : key.Value}
    {w : other.Value} (hfirst : Assigns r.inside first key v)
    (hsecond : Assigns r.inside second other w) (hne : key ≠ other) (rest : List (List Char)) :
    r.steps (first :: second :: rest) = r.steps (second :: first :: rest) := by
  rw [steps_of_assigns hfirst, steps_of_assigns hsecond]
  calc steps { r with config := r.config.set key v } (second :: rest)
      = steps { r with config := (r.config.set key v).set other w } rest :=
        steps_of_assigns (r := { r with config := r.config.set key v }) hsecond rest
    _ = steps { r with config := (r.config.set other w).set key v } rest := by
        rw [NodeConfig.set_comm _ _ _ hne.symm]
    _ = steps { r with config := r.config.set other w } (first :: rest) :=
        (steps_of_assigns (r := { r with config := r.config.set other w }) hfirst rest).symm

end Reading

/-! ## What a file says -/

namespace NodeConfig

theorem ofText_congr {text text' : String}
    (h : Reading.steps {} (lines text.toList) = Reading.steps {} (lines text'.toList)) :
    ofText text = ofText text' := by
  rw [ofText, ofText, h]

/-- The same lines with two neighbouring assignments in the other order. -/
theorem ofText_swap {text : String} {before after : List (List Char)} {first second : List Char}
    {key other : Key} {v : key.Value} {w : other.Value}
    (hlines : lines text.toList = before ++ first :: second :: after)
    (hfirst : Assigns (inForce before) first key v)
    (hsecond : Assigns (inForce before) second other w) (hne : key ≠ other) :
    ofText (textOf (before ++ second :: first :: after)) = ofText text := by
  have hswapped : lines (textOf (before ++ second :: first :: after)).toList =
      before ++ second :: first :: after := by
    have hone : ∀ line ∈ lines text.toList, '\n' ∉ line := fun _ => not_mem_of_mem_lines
    refine lines_textOf (List.append_ne_nil_of_right_ne_nil _ (List.cons_ne_nil _ _)) ?_
    rw [hlines] at hone
    simp only [List.forall_mem_append, List.forall_mem_cons] at hone ⊢
    exact ⟨hone.1, hone.2.2.1, hone.2.1, hone.2.2.2⟩
  refine ofText_congr ?_
  rw [hswapped, hlines, Reading.steps_append, Reading.steps_append]
  rcases Reading.outcome_steps before with ⟨r, hread, -, hinside, -⟩ | ⟨e, hread, -⟩
  · rw [← hinside] at hfirst hsecond
    rw [hread]
    exact Reading.steps_swap hsecond hfirst hne.symm after
  · rw [hread]
    rfl

theorem ofText_cases (text : String) :
    (∃ config, AllSound (lines text.toList) ∧ Describes (lines text.toList) config ∧
      ofText text = if isPin config.radio.pin.string then .ok config else .error .invalidPin) ∨
      ∃ e, FirstFault (lines text.toList) e ∧ ofText text = .error e := by
  unfold ofText
  rcases Reading.outcome_steps (lines text.toList) with ⟨r, hread, hall, -, h⟩ | ⟨e, hread, h⟩
  · rw [hread]
    exact .inl ⟨r.config, hall, h, rfl⟩
  · rw [hread]
    exact .inr ⟨e, h, rfl⟩

theorem ofText_eq_ok_iff {text : String} {config : NodeConfig} : ofText text = .ok config ↔
    AllSound (lines text.toList) ∧ Describes (lines text.toList) config ∧
      isPin config.radio.pin.string = true := by
  rcases ofText_cases text with ⟨read, hall, hread, htext⟩ | ⟨e, hfirst, htext⟩
  · rw [htext]
    constructor
    · intro h
      split at h
      · rename_i hpin
        cases h
        exact ⟨hall, hread, hpin⟩
      · cases h
    · rintro ⟨-, h, hpin⟩
      rw [h.unique hread] at hpin
      rw [if_pos hpin, h.unique hread]
  · rw [htext]
    exact ⟨fun h => (by cases h), fun h => absurd hfirst h.1.not_firstFault⟩

theorem ofText_eq_error_iff {text : String} {e : ConfigError} : ofText text = .error e ↔
    FirstFault (lines text.toList) e ∨ AllSound (lines text.toList) ∧ e = .invalidPin ∧
      ∃ config, Describes (lines text.toList) config ∧ isPin config.radio.pin.string = false := by
  rcases ofText_cases text with ⟨config, hall, hread, htext⟩ | ⟨e', hfirst, htext⟩
  · rw [htext]
    constructor
    · intro h
      split at h
      · cases h
      · rename_i hpin
        cases h
        exact .inr ⟨hall, rfl, config, hread, Bool.eq_false_iff.mpr hpin⟩
    · rintro (h | ⟨-, rfl, other, hother, hpin⟩)
      · exact absurd h hall.not_firstFault
      · rw [hother.unique hread] at hpin
        rw [hpin]
        rfl
  · rw [htext]
    constructor
    · intro h
      cases h
      exact .inl hfirst
    · rintro (h | ⟨hall, -⟩)
      · rw [h.unique hfirst]
      · exact absurd hfirst hall.not_firstFault

end NodeConfig

open NodeConfig (ofText ofText_cases ofText_eq_ok_iff ofText_eq_error_iff)

/-- **What a settings file means.** When each line has its place in the section in force there, the
lines describe one configuration. A file is accepted exactly when that is so and the PIN that results
is four to six digits, and it yields what its lines describe; the times that may not be zero are not.
Else the fault is that of the first line that has no place, or that of the PIN. Neighbouring
assignments of different keys may change places. -/
theorem settings_file_meaning (text : String) :
    (AllSound (lines text.toList) → ∃! config, Describes (lines text.toList) config) ∧
      (∀ config, ofText text = .ok config ↔ AllSound (lines text.toList) ∧
        Describes (lines text.toList) config ∧ isPin config.radio.pin.string = true) ∧
      (∀ e, ofText text = .error e ↔ FirstFault (lines text.toList) e ∨
        AllSound (lines text.toList) ∧ e = .invalidPin ∧
          ∃ config, Describes (lines text.toList) config ∧
            isPin config.radio.pin.string = false) ∧
      (∀ config, ofText text = .ok config → config.PositiveTimes) ∧
      ∀ before first second after (key other : Key) (v : key.Value) (w : other.Value),
        lines text.toList = before ++ first :: second :: after →
          Assigns (inForce before) first key v → Assigns (inForce before) second other w →
            key ≠ other → ofText (textOf (before ++ second :: first :: after)) = ofText text := by
  refine ⟨fun hall => ?_, fun config => ofText_eq_ok_iff, fun e => ofText_eq_error_iff,
    fun config h => ?_, ?_⟩
  · rcases ofText_cases text with ⟨config, -, h, -⟩ | ⟨e, hfirst, -⟩
    · exact ⟨config, h, fun other hother => hother.unique h⟩
    · exact absurd hfirst hall.not_firstFault
  · exact (ofText_eq_ok_iff.mp h).2.1.positiveTimes
  · intro before first second after key other v w hlines hfirst hsecond hne
    exact NodeConfig.ofText_swap hlines hfirst hsecond hne

/-- A name and a truth value change places. -/
theorem neighbours_change_places :
    ∃ config, ofText "[radio]\nname = \"Bath\"\nvisible = false" = .ok config ∧
      config.PositiveTimes ∧ ofText "[radio]\nvisible = false\nname = \"Bath\"" = .ok config := by
  obtain ⟨-, -, -, hpositive, hswap⟩ :=
    settings_file_meaning "[radio]\nname = \"Bath\"\nvisible = false"
  have hname : Line.Written "name = \"Bath\"".toList .name "name ".toList " \"Bath\"".toList :=
    ⟨by decide, by decide, by decide⟩
  have hvisible : Line.Written "visible = false".toList .visible "visible ".toList " false".toList :=
    ⟨by decide, by decide, by decide⟩
  have hfirst : Assigns (inForce ["[radio]".toList]) "name = \"Bath\"".toList .name
      ⟨"Bath", by decide⟩ :=
    ⟨by decide, _, Line.assignment_iff_written.mpr ⟨_, _, hname, rfl, by decide⟩, rfl⟩
  have hsecond : Assigns (inForce ["[radio]".toList]) "visible = false".toList .visible false :=
    ⟨by decide, _, Line.assignment_iff_written.mpr ⟨_, _, hvisible, rfl, by decide⟩, rfl⟩
  have hswapped := hswap ["[radio]".toList] _ _ [] _ _ _ _ (by decide +kernel) hfirst hsecond
    (by decide)
  have accepted : (ofText "[radio]\nname = \"Bath\"\nvisible = false").isOk = true := by
    decide +kernel
  cases hread : ofText "[radio]\nname = \"Bath\"\nvisible = false" with
  | error e =>
    rw [hread] at accepted
    cases accepted
  | ok config => exact ⟨config, rfl, hpositive config hread, hswapped.trans hread⟩

end RoomControl
