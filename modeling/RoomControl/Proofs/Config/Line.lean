import RoomControl.Config.Document
import RoomControl.Proofs.Config.Values
import RoomControl.Proofs.Text.Lines

/-!
# What a line of a settings file says

A line is silent, the header of a section, an assignment, or none of these. Which one it is depends
on nothing but the line; whether an assignment is in place depends on the section in force as well.
So a line either has its place in a section (`Sound`) or a fault there (`Fault`), and never both
(`sound_or_fault`, `Sound.not_fault`). Reading one line does what it says (`step_of_silent` and its
three siblings).
-/

set_option autoImplicit false

namespace RoomControl

open Setting (Quotes Brackets)

namespace Line

variable {line : List Char}

/-! ## The form of a line -/

/-- The line is blank or a comment. -/
def Silent (line : List Char) : Prop := trim line = [] ∨ ∃ rest, trim line = '#' :: rest

/-- The line is the header of a section. -/
def Heads (line : List Char) (inside : Section) : Prop :=
  ∃ inner, Brackets (trim line) inner ∧
    (inside = .radio ∧ trim inner = "radio".toList ∨ inside = .timing ∧ trim inner = "timing".toList)

/-- The line, neither silent nor in brackets, assigns a value to a key: they stand before and behind
its first equals sign, and none of them is empty. -/
structure Assignment (line key value : List Char) : Prop where
  speaks : ¬ Silent line
  bare : ∀ inner, ¬ Brackets (trim line) inner
  parts : ∃ left right, trim line = left ++ '=' :: right ∧ '=' ∉ left ∧
    key = trim left ∧ value = withoutComment (trim right)
  key_ne_nil : key ≠ []
  value_ne_nil : value ≠ []

theorem Assignment.unique {key value key' value' : List Char} (h : Assignment line key value)
    (h' : Assignment line key' value') : key = key' ∧ value = value' := by
  obtain ⟨left, right, hsplit, hleft, rfl, rfl⟩ := h.parts
  obtain ⟨left', right', hsplit', hleft', rfl, rfl⟩ := h'.parts
  obtain ⟨rfl, rfl⟩ := split_unique hleft hleft' (hsplit.symm.trans hsplit')
  exact ⟨rfl, rfl⟩

/-! ## Reading a line -/

theorem read_of_silent (h : Silent line) : read line = .ok .blank := by
  rcases h with h | ⟨rest, h⟩
  · rw [read, h]
    rfl
  · rw [read, h]
    rfl

theorem read_of_brackets {inner : List Char} (h : Brackets (trim line) inner) :
    read line = readHeader inner := by
  rw [read, h]
  show (if (inner ++ [']']).getLast? = some ']' then _ else _) = _
  rw [List.getLast?_concat, if_pos rfl, List.dropLast_concat]

theorem read_of_bare (speaks : ¬ Silent line) (bare : ∀ inner, ¬ Brackets (trim line) inner) :
    read line = readAssignment (trim line) := by
  unfold read readTrimmed
  split
  · rename_i h
    exact absurd (.inl h) speaks
  · rename_i rest h
    exact absurd (.inr ⟨rest, h⟩) speaks
  · rename_i rest h
    refine if_neg fun hlast => bare rest.dropLast ?_
    rw [h]
    exact congrArg _ (Setting.eq_append_of_getLast? hlast)
  · rfl

theorem read_of_heads {inside : Section} (h : Heads line inside) :
    read line = .ok (.header inside) := by
  obtain ⟨inner, hinner, hname⟩ := h
  rw [read_of_brackets hinner, readHeader]
  rcases hname with ⟨rfl, hname⟩ | ⟨rfl, hname⟩
  · rw [hname]
    rfl
  · rw [hname]
    rfl

theorem read_of_stray {inner : List Char} (hinner : Brackets (trim line) inner)
    (h : ∀ inside, ¬ Heads line inside) : read line = .error .invalidSection := by
  have hradio : trim inner ≠ "radio".toList := fun e => h .radio ⟨inner, hinner, .inl ⟨rfl, e⟩⟩
  have htiming : trim inner ≠ "timing".toList := fun e => h .timing ⟨inner, hinner, .inr ⟨rfl, e⟩⟩
  rw [read_of_brackets hinner, readHeader, Section.named?, if_neg hradio, if_neg htiming]

theorem readAssignment_append {left : List Char} (hleft : '=' ∉ left) (right : List Char) :
    readAssignment (left ++ '=' :: right) =
      if trim left = [] ∨ withoutComment (trim right) = [] then .error .invalidSyntax
      else .ok (assignment (trim left) (withoutComment (trim right))) := by
  rw [readAssignment, dropWhile_ne hleft, takeWhile_ne hleft]

theorem read_of_assignment {key value : List Char} (h : Assignment line key value) :
    read line = .ok (.assignment key value) := by
  obtain ⟨left, right, hsplit, hleft, hkey, hvalue⟩ := h.parts
  rw [read_of_bare h.speaks h.bare, hsplit, readAssignment_append hleft, ← hkey, ← hvalue, if_neg]
  exact not_or.mpr ⟨h.key_ne_nil, h.value_ne_nil⟩

theorem read_of_malformed (speaks : ¬ Silent line) (bare : ∀ inner, ¬ Brackets (trim line) inner)
    (h : ∀ key value, ¬ Assignment line key value) : read line = .error .invalidSyntax := by
  rw [read_of_bare speaks bare]
  by_cases hsign : '=' ∈ trim line
  · obtain ⟨left, right, hsplit, hleft⟩ := List.eq_append_cons_of_mem hsign
    rw [hsplit, readAssignment_append hleft]
    by_cases hempty : trim left = [] ∨ withoutComment (trim right) = []
    · exact if_pos hempty
    · obtain ⟨hkey, hvalue⟩ := not_or.mp hempty
      exact absurd ⟨speaks, bare, ⟨left, right, hsplit, hleft, rfl, rfl⟩, hkey, hvalue⟩ (h _ _)
  · rw [readAssignment, dropWhile_ne_of_not_mem hsign]

/-- What a line can be. -/
theorem form_cases (line : List Char) :
    Silent line ∨ (∃ next, Heads line next) ∨
      (∃ inner, Brackets (trim line) inner ∧ ∀ next, ¬ Heads line next) ∨
      (∃ key value, Assignment line key value) ∨
      ¬ Silent line ∧ (∀ inner, ¬ Brackets (trim line) inner) ∧
        ∀ key value, ¬ Assignment line key value := by
  by_cases speaks : Silent line
  · exact .inl speaks
  · by_cases hbrackets : ∃ inner, Brackets (trim line) inner
    · obtain ⟨inner, hinner⟩ := hbrackets
      by_cases hheads : ∃ next, Heads line next
      · exact .inr (.inl hheads)
      · exact .inr (.inr (.inl ⟨inner, hinner, not_exists.mp hheads⟩))
    · by_cases hassignment : ∃ key value, Assignment line key value
      · exact .inr (.inr (.inr (.inl hassignment)))
      · have loose : ∀ key value, ¬ Assignment line key value :=
          fun key value h => hassignment ⟨key, value, h⟩
        exact .inr (.inr (.inr (.inr ⟨speaks, not_exists.mp hbrackets, loose⟩)))

/-- Only a header is read as one. -/
theorem heads_of_read {inside : Section} (h : read line = .ok (.header inside)) :
    Heads line inside := by
  rcases form_cases line with silent | ⟨next, heads⟩ | ⟨inner, hinner, hnone⟩ |
    ⟨key, value, assignment⟩ | ⟨speaks, bare, loose⟩
  · rw [read_of_silent silent] at h
    cases h
  · rw [read_of_heads heads] at h
    cases h
    exact heads
  · rw [read_of_stray hinner hnone] at h
    cases h
  · rw [read_of_assignment assignment] at h
    cases h
  · rw [read_of_malformed speaks bare loose] at h
    cases h

end Line

/-! ## The place of a line in a section -/

theorem Key.spelling_injective {key other : Key}
    (h : key.spelling.toList = other.spelling.toList) : key = other := by
  revert h
  cases key <;> cases other <;> decide

theorem Key.find?_eq_none_iff {inside : Section} {written : List Char} :
    Key.find? inside written = none ↔
      ∀ key : Key, key.home = inside → key.spelling.toList ≠ written := by
  rw [Key.find?, List.find?_eq_none]
  constructor
  · intro h key hhome hspelling
    exact h key key.mem_all (decide_eq_true ⟨hhome, hspelling⟩)
  · intro h key _ hkey
    obtain ⟨hhome, hspelling⟩ := of_decide_eq_true hkey
    exact h key hhome hspelling

theorem Key.find?_spelling (key : Key) : Key.find? key.home key.spelling.toList = some key := by
  cases hfind : Key.find? key.home key.spelling.toList with
  | none => exact absurd rfl (Key.find?_eq_none_iff.mp hfind key rfl)
  | some other =>
    rw [Key.find?] at hfind
    have hother := List.find?_some hfind
    rw [decide_eq_true_eq] at hother
    rw [Key.spelling_injective hother.2]

namespace Line

variable {line : List Char} {inside : Section}

/-- The line assigns a value to a key of the section. -/
def Assigns (inside : Section) (line : List Char) (key : Key) (v : key.Value) : Prop :=
  key.home = inside ∧ ∃ value, Assignment line key.spelling.toList value ∧ key.Denotes value v

/-- The line has a place in the section. -/
def Sound (inside : Section) (line : List Char) : Prop :=
  Silent line ∨ (∃ next, Heads line next) ∨ ∃ key v, Assigns inside line key v

/-- What is wrong with a line that has no place in the section. -/
inductive Fault (inside : Section) (line : List Char) : ConfigError → Prop
  | strayHeader {inner : List Char} (brackets : Brackets (trim line) inner)
      (unknown : ∀ next, ¬ Heads line next) : Fault inside line .invalidSection
  | malformed (speaks : ¬ Silent line) (bare : ∀ inner, ¬ Brackets (trim line) inner)
      (loose : ∀ key value, ¬ Assignment line key value) : Fault inside line .invalidSyntax
  | strayKey {written value : List Char} (assignment : Assignment line written value)
      (unknown : ∀ key : Key, key.home = inside → key.spelling.toList ≠ written) :
      Fault inside line .unknownKey
  | tooLong {key : Key} {value : List Char} (home : key.home = inside)
      (assignment : Assignment line key.spelling.toList value)
      (long : key.Overflows value) : Fault inside line .tooLong
  | badValue {key : Key} {value : List Char} (home : key.home = inside)
      (assignment : Assignment line key.spelling.toList value)
      (meaningless : ∀ v, ¬ key.Denotes value v) (short : ¬ key.Overflows value) :
      Fault inside line .invalidValue

theorem Assigns.key_unique {key key' : Key} {v : key.Value} {v' : key'.Value}
    (h : Assigns inside line key v) (h' : Assigns inside line key' v') : key = key' := by
  obtain ⟨-, _, hvalue, -⟩ := h
  obtain ⟨-, _, hvalue', -⟩ := h'
  exact Key.spelling_injective (hvalue.unique hvalue').1

theorem Assigns.value_unique {key : Key} {v v' : key.Value} (h : Assigns inside line key v)
    (h' : Assigns inside line key v') : v = v' := by
  obtain ⟨-, value, hvalue, hv⟩ := h
  obtain ⟨-, _, hvalue', hv'⟩ := h'
  rw [← (hvalue.unique hvalue').2] at hv'
  have hread := (key.answers_read value).eq_ok_iff.mpr hv
  exact Except.ok.inj (hread.symm.trans ((key.answers_read value).eq_ok_iff.mpr hv'))

/-- A line has a place in a section, or a fault there. -/
theorem sound_or_fault (inside : Section) (line : List Char) :
    Sound inside line ∨ ∃ e, Fault inside line e := by
  rcases form_cases line with silent | hheads | ⟨inner, hinner, hnone⟩ |
    ⟨written, value, assignment⟩ | ⟨speaks, bare, loose⟩
  · exact .inl (.inl silent)
  · exact .inl (.inr (.inl hheads))
  · exact .inr ⟨_, .strayHeader hinner hnone⟩
  · by_cases hkey : ∃ key : Key, key.home = inside ∧ key.spelling.toList = written
    · obtain ⟨key, home, rfl⟩ := hkey
      by_cases hvalue : ∃ v, key.Denotes value v
      · obtain ⟨v, hv⟩ := hvalue
        exact .inl (.inr (.inr ⟨key, v, home, value, assignment, hv⟩))
      · by_cases long : key.Overflows value
        · exact .inr ⟨_, .tooLong home assignment long⟩
        · exact .inr ⟨_, .badValue home assignment (not_exists.mp hvalue) long⟩
    · exact .inr ⟨_, .strayKey assignment fun key home spelled => hkey ⟨key, home, spelled⟩⟩
  · exact .inr ⟨_, .malformed speaks bare loose⟩

/-! ## How a key is written -/

/-- The key stands before the first equals sign of the line, and `right` behind it. -/
structure Written (line : List Char) (key : Key) (left right : List Char) : Prop where
  split : trim line = left ++ '=' :: right
  sign : '=' ∉ left
  spelled : trim left = key.spelling.toList

/-- A key begins with a letter, and has neither a bracket nor a "#" nor a quote in it. -/
theorem spelling_plain (key : Key) :
    key.spelling.toList ≠ [] ∧ '[' ∉ key.spelling.toList ∧ '#' ∉ key.spelling.toList ∧
      '"' ∉ key.spelling.toList := by
  cases key <;> decide

variable {key : Key} {left right : List Char}

/-- The line begins like the key. -/
theorem Written.head (h : Written line key left right) :
    ∃ d rest, left = d :: rest ∧ d ≠ '[' ∧ d ≠ '#' := by
  obtain ⟨hne, hbracket, hhash, -⟩ := spelling_plain key
  cases left with
  | nil =>
    have hnil : trim [] = [] := rfl
    exact absurd (h.spelled.symm.trans hnil) hne
  | cons d rest =>
    have hd : isBlank d = false := by
      rcases trim_cases line with ⟨hnil, -⟩ | ⟨first, more, hfirst, -, htrim⟩
      · exact absurd (h.split.symm.trans hnil) (List.cons_ne_nil _ _)
      · have hsame := htrim.symm.trans h.split
        rw [(List.cons.inj hsame).1] at hfirst
        exact hfirst
    have hmem : d ∈ key.spelling.toList := by
      rw [← h.spelled]
      exact mem_trim hd List.mem_cons_self
    exact ⟨d, rest, rfl, fun e => hbracket (e ▸ hmem), fun e => hhash (e ▸ hmem)⟩

theorem Written.speaks (h : Written line key left right) : ¬ Silent line := by
  obtain ⟨d, rest, rfl, -, hhash⟩ := h.head
  rintro (hnil | ⟨comment, hcomment⟩)
  · exact absurd (h.split.symm.trans hnil) (List.cons_ne_nil _ _)
  · exact hhash (List.cons.inj (h.split.symm.trans hcomment)).1

theorem Written.trim_ne_bracket (h : Written line key left right) (rest : List Char) :
    trim line ≠ '[' :: rest := by
  obtain ⟨d, more, rfl, hbracket, -⟩ := h.head
  exact fun hrest => hbracket (List.cons.inj (h.split.symm.trans hrest)).1

theorem assignment_iff_written {value : List Char} :
    Assignment line key.spelling.toList value ↔
      ∃ left right, Written line key left right ∧ value = withoutComment (trim right) ∧
        value ≠ [] := by
  constructor
  · intro h
    obtain ⟨left, right, hsplit, hleft, hkey, hvalue⟩ := h.parts
    exact ⟨left, right, ⟨hsplit, hleft, hkey.symm⟩, hvalue, h.value_ne_nil⟩
  · rintro ⟨left, right, written, hvalue, hne⟩
    refine ⟨written.speaks, fun inner => written.trim_ne_bracket _, ?_, (spelling_plain key).1, hne⟩
    exact ⟨left, right, written.split, written.sign, written.spelled.symm, hvalue⟩

theorem Written.unique {key' : Key} {left' right' : List Char} (h : Written line key left right)
    (h' : Written line key' left' right') : right = right' :=
  (split_unique h.sign h'.sign (h.split.symm.trans h'.split)).2

end Line

/-! ## What a line does -/

namespace Reading

open Line

variable {line : List Char} {r : Reading}

theorem step_of_silent (h : Silent line) : r.step line = .ok r := by
  rw [step, read_of_silent h]
  rfl

theorem step_of_heads {next : Section} (h : Heads line next) :
    r.step line = .ok { r with inside := next } := by
  rw [step, read_of_heads h]
  rfl

theorem step_of_assignment {key : Key} {value : List Char}
    (h : Assignment line key.spelling.toList value) (home : key.home = r.inside) :
    r.step line = (key.read value).map fun v => { r with config := r.config.set key v } := by
  rw [step, read_of_assignment h]
  show r.assign _ _ = _
  rw [assign, ← home, Key.find?_spelling]
  cases hread : key.read value with
  | error e => simp only [hread]; rfl
  | ok v => simp only [hread]; rfl

theorem step_of_assigns {key : Key} {v : key.Value} (h : Assigns r.inside line key v) :
    r.step line = .ok { r with config := r.config.set key v } := by
  obtain ⟨home, value, assignment, denotes⟩ := h
  rw [step_of_assignment assignment home, (key.answers_read value).eq_ok_iff.mpr denotes]
  rfl

theorem step_of_fault {e : ConfigError} (h : Fault r.inside line e) : r.step line = .error e := by
  cases h with
  | strayHeader brackets unknown =>
    rw [step, read_of_stray brackets unknown]
    rfl
  | malformed speaks bare loose =>
    rw [step, read_of_malformed speaks bare loose]
    rfl
  | strayKey assignment unknown =>
    rw [step, read_of_assignment assignment]
    show r.assign _ _ = _
    rw [assign, Key.find?_eq_none_iff.mpr unknown]
  | @tooLong key value home assignment long =>
    rw [step_of_assignment assignment home, (key.answers_read value).eq_tooLong long]
    rfl
  | @badValue key value home assignment meaningless short =>
    rw [step_of_assignment assignment home,
      (key.answers_read value).eq_invalidValue meaningless short]
    rfl

end Reading

namespace Line

variable {line : List Char} {inside : Section}

theorem exists_step_of_sound {r : Reading} (h : Sound r.inside line) :
    ∃ next, r.step line = .ok next := by
  rcases h with h | ⟨next, h⟩ | ⟨key, v, h⟩
  · exact ⟨_, Reading.step_of_silent h⟩
  · exact ⟨_, Reading.step_of_heads h⟩
  · exact ⟨_, Reading.step_of_assigns h⟩

theorem Sound.not_fault {e : ConfigError} (h : Sound inside line) : ¬ Fault inside line e := by
  intro fault
  obtain ⟨next, hnext⟩ := exists_step_of_sound (r := { inside := inside }) h
  rw [Reading.step_of_fault fault] at hnext
  cases hnext

/-- A line has one fault at most. -/
theorem Fault.unique {e e' : ConfigError} (h : Fault inside line e) (h' : Fault inside line e') :
    e = e' := by
  have hstep := Reading.step_of_fault (r := { inside := inside }) h
  rw [Reading.step_of_fault h'] at hstep
  exact (Except.error.inj hstep).symm

end Line

end RoomControl
