import RoomControl.Proofs.Program.Decoding

/-!
# The abstract machine

What a program does, told on its chart. Nothing here speaks of bytes, of offsets or of a walk: rules
are met and fire, gotos are followed from state to state, and a check leaves the machine standing
somewhere. Each relation says in its constructors what the program's documentation says in words.

* A rule whose conditions are met fires all its actions when a picked bit differs from the baseline,
  and else, on entry only, those that carry the entry flag (`Rule.Fires`).
* A state fires what its rules fire, in order. The first goto names the next state (`FirstGoto`), the
  last enter the state that the next check enters (`Schedules`), and the rest is for the board.
* A check follows the gotos (`Chart.Follows`). The inputs become the baseline when it settles
  (`Chart.Checks`).

The second half ties the relations to the lists that the machine computes with, one lemma for each.
-/

set_option autoImplicit false

namespace RoomControl

/-! ## Rules -/

namespace Rule

variable (rule : Rule) (baseline inputs : Ports) (entering : Bool)

/-- On all ports the picked bits have the value that is asked for. -/
def Met : Prop := ∀ port : Fin portCount,
  inputs.get port &&& (rule.conditions.get port).mask =
    (rule.conditions.get port).value &&& (rule.conditions.get port).mask

/-- Some picked bit differs from the baseline. -/
def Stirred : Prop := ∃ port : Fin portCount,
  inputs.get port &&& (rule.conditions.get port).mask ≠
    baseline.get port &&& (rule.conditions.get port).mask

/-- What a rule fires. -/
inductive Fires : List Action → Prop
  | everything : rule.Met inputs → rule.Stirred baseline inputs → Fires rule.actions
  | flagged : rule.Met inputs → ¬ rule.Stirred baseline inputs → entering = true →
      Fires (rule.actions.filter fun a => Device.firesOnEntry a.device)
  | still : ¬ rule.Stirred baseline inputs → entering = false → Fires []
  | unmet : ¬ rule.Met inputs → Fires []

/-- What rules fire one after the other. -/
inductive FireAll : List Rule → List Action → Prop
  | nil : FireAll [] []
  | cons {rule : Rule} {rules : List Rule} {fired more : List Action} :
      rule.Fires baseline inputs entering fired → FireAll rules more →
      FireAll (rule :: rules) (fired ++ more)

variable {rule baseline inputs entering} {fired : List Action}

theorem Fires.mem (h : rule.Fires baseline inputs entering fired) {a : Action} (ha : a ∈ fired) :
    a ∈ rule.actions := by
  cases h with
  | everything => exact ha
  | flagged => exact (List.mem_filter.mp ha).1
  | still => cases ha
  | unmet => cases ha

theorem FireAll.mem {rules : List Rule} (h : FireAll baseline inputs entering rules fired)
    {a : Action} (ha : a ∈ fired) : ∃ rule ∈ rules, a ∈ rule.actions := by
  induction h with
  | nil => cases ha
  | cons hfires _ ih =>
    rcases List.mem_append.mp ha with hfirst | hmore
    · exact ⟨_, List.mem_cons_self, hfires.mem hfirst⟩
    · obtain ⟨rule, hrule, hactions⟩ := ih hmore
      exact ⟨rule, List.mem_cons_of_mem _ hrule, hactions⟩

end Rule

/-! ## Actions that move the program -/

/-- The first goto among the fired actions names `next`. -/
def FirstGoto (fired : List Action) (next : UInt8) : Prop :=
  ∃ before goto after, fired = before ++ goto :: after ∧ (∀ a ∈ before, a.target ≠ .goto) ∧
    goto.target = .goto ∧ goto.destination = next

/-- The state that the last enter among the fired actions schedules, whichever it names. -/
inductive Schedules (fired : List Action) : Option UInt8 → Prop
  | nothing : (∀ a ∈ fired, a.target ≠ .enter) → Schedules fired none
  | last {before after : List Action} {enter : Action} : fired = before ++ enter :: after →
      enter.target = .enter → (∀ a ∈ after, a.target ≠ .enter) →
      Schedules fired (some enter.destination)

/-- What the board is told of an action. -/
def Action.boardCall (a : Action) : Option (Device × Bytes) :=
  match a.target with
  | .goto => none
  | .enter => none
  | device => some (device, a.value.bytes)

/-! ## Checks -/

/-- Where the machine stands between two checks. -/
structure Standing where
  current : Option UInt8
  pending : Option UInt8
  baseline : Option Ports
  deriving DecidableEq

namespace Standing

/-- Nothing has been evaluated, and the first state is scheduled. -/
def first : Standing := ⟨none, some 0, none⟩

def enter (state : UInt8) (s : Standing) : Standing := { s with pending := some state }

/-- Where the next check begins: it enters the scheduled state, or goes on in the current one. -/
inductive Begins (s : Standing) : Bool → UInt8 → Prop
  | enter {state : UInt8} : s.pending = some state → Begins s true state
  | stay {state : UInt8} : s.pending = none → s.current = some state → Begins s false state

theorem Begins.somewhere {s : Standing} {entering : Bool} {state : UInt8}
    (h : s.Begins entering state) : ¬ (s.pending = none ∧ s.current = none) := by
  rintro ⟨hpending, hcurrent⟩
  cases h with
  | enter hsome => cases hpending.symm.trans hsome
  | stay _ hsome => cases hcurrent.symm.trans hsome

theorem exists_begins {s : Standing} (h : ¬ (s.pending = none ∧ s.current = none)) :
    ∃ entering state, s.Begins entering state := by
  cases hpending : s.pending with
  | some state => exact ⟨true, state, .enter hpending⟩
  | none =>
    cases hcurrent : s.current with
    | some state => exact ⟨false, state, .stay hpending hcurrent⟩
    | none => exact absurd ⟨hpending, hcurrent⟩ h

end Standing

namespace Chart

variable (chart : Chart)

/-- What a check fires from `state` on, and where it lands. `path` are the states that it has left. -/
inductive Follows (baseline inputs : Ports) :
    List UInt8 → Bool → UInt8 → List Action → Landing → Prop
  | missing {path : List UInt8} {entering : Bool} {state : UInt8} : chart[state.toNat]? = none →
      Follows baseline inputs path entering state [] (.failed (.noSuchState state))
  | settled {path : List UInt8} {entering : Bool} {state : UInt8} {rules : List Rule}
      {fired : List Action} : chart[state.toNat]? = some rules →
      Rule.FireAll baseline inputs entering rules fired → (∀ a ∈ fired, a.target ≠ .goto) →
      Follows baseline inputs path entering state fired (.settled state path.length)
  | looped {path : List UInt8} {entering : Bool} {state next : UInt8} {rules : List Rule}
      {fired : List Action} : chart[state.toNat]? = some rules →
      Rule.FireAll baseline inputs entering rules fired → FirstGoto fired next →
      next = state ∨ next ∈ path ∨ path.length = Machine.maxJumps →
      Follows baseline inputs path entering state fired (.looped next)
  | jumped {path : List UInt8} {entering : Bool} {state next : UInt8} {rules : List Rule}
      {fired more : List Action} {landing : Landing} : chart[state.toNat]? = some rules →
      Rule.FireAll baseline inputs entering rules fired → FirstGoto fired next →
      ¬ (next = state ∨ next ∈ path) → path.length < Machine.maxJumps →
      Follows baseline inputs (state :: path) true next more landing →
      Follows baseline inputs path entering state (fired ++ more) landing

/-- What fires is an action of the chart. -/
theorem Follows.mem {chart : Chart} {baseline inputs : Ports} {path : List UInt8} {entering : Bool}
    {state : UInt8} {fired : List Action} {landing : Landing}
    (h : chart.Follows baseline inputs path entering state fired landing) {a : Action}
    (ha : a ∈ fired) : ∃ rules ∈ chart, ∃ rule ∈ rules, a ∈ rule.actions := by
  induction h with
  | missing => cases ha
  | settled hstate hfires => exact ⟨_, List.mem_of_getElem? hstate, hfires.mem ha⟩
  | looped hstate hfires => exact ⟨_, List.mem_of_getElem? hstate, hfires.mem ha⟩
  | jumped hstate hfires _ _ _ _ ih =>
    rcases List.mem_append.mp ha with hfirst | hmore
    · exact ⟨_, List.mem_of_getElem? hstate, hfires.mem hfirst⟩
    · exact ih hmore

/-- What a check does: its outcome, what the board is told, and where the machine stands after it.
A machine that has stopped stands nowhere. -/
inductive Checks (persisted : Bool) (inputs : Ports) :
    Option Standing → Except MachineError CheckOutcome → List (Device × Bytes) →
      Option Standing → Prop
  | stopped : Checks persisted inputs none (.ok .inactive) [] none
  | nowhere {s : Standing} : s.pending = none → s.current = none →
      Checks persisted inputs (some s) (.ok .inactive) [] (some s)
  | settled {s : Standing} {entering : Bool} {state last : UInt8} {hops : Nat}
      {fired : List Action} {pending : Option UInt8} : s.Begins entering state →
      chart.Follows (s.baseline.getD inputs) inputs [] entering state fired (.settled last hops) →
      Schedules fired pending →
      Checks persisted inputs (some s) (.ok (if hops = 0 then .stable last else .moved last hops))
        (fired.filterMap Action.boardCall) (some ⟨some last, pending, some inputs⟩)
  | looped {s : Standing} {entering : Bool} {state next : UInt8} {fired : List Action} :
      s.Begins entering state →
      chart.Follows (s.baseline.getD inputs) inputs [] entering state fired (.looped next) →
      Checks persisted inputs (some s) (.error (.loopDetected next persisted))
        (fired.filterMap Action.boardCall) none
  | failed {s : Standing} {entering : Bool} {state : UInt8} {fired : List Action}
      {e : ProgramError} : s.Begins entering state →
      chart.Follows (s.baseline.getD inputs) inputs [] entering state fired (.failed e) →
      Checks persisted inputs (some s) (.error (.program e)) (fired.filterMap Action.boardCall) none

/-- No enter of the program names `noState`. -/
def NamesStates : Prop :=
  ∀ rules ∈ chart, ∀ rule ∈ rules, ∀ a ∈ rule.actions, a.target = .enter → a.destination ≠ noState

instance : Decidable chart.NamesStates := inferInstanceAs (Decidable (∀ _ ∈ _, _))

/-- Then no check schedules `noState`. -/
theorem NamesStates.checks {chart : Chart} (named : chart.NamesStates) {persisted : Bool}
    {inputs : Ports} {standing after : Option Standing} {calls : List (Device × Bytes)}
    {outcome : Except MachineError CheckOutcome}
    (h : chart.Checks persisted inputs standing outcome calls after)
    (hstanding : ∀ s ∈ standing, s.pending ≠ some noState) :
    ∀ s ∈ after, s.pending ≠ some noState := by
  intro s hs
  cases h with
  | stopped => cases hs
  | nowhere => exact hstanding s hs
  | settled _ hfollows hschedules =>
    cases hs
    cases hschedules with
    | nothing => exact (Option.some_ne_none _).symm
    | @last before after enter heq henter =>
      have hmem : enter ∈ before ++ enter :: after := List.mem_append_right _ List.mem_cons_self
      obtain ⟨rules, hrules, rule, hrule, hactions⟩ := hfollows.mem (heq ▸ hmem)
      exact fun hpending => named rules hrules rule hrule enter hactions henter (Option.some.inj hpending)
  | looped => cases hs
  | failed => cases hs

end Chart

namespace Landing

/-- How a check ends that lands there. -/
def outcome (persisted : Bool) : Landing → Except MachineError CheckOutcome
  | settled state hops => .ok (if hops = 0 then .stable state else .moved state hops)
  | looped next => .error (.loopDetected next persisted)
  | failed e => .error (.program e)

/-- Where it leaves the machine that has fired these actions. -/
def standing (fired : List Action) (inputs : Ports) : Landing → Option Standing
  | settled state _ => some ⟨some state, lastEnter fired, some inputs⟩
  | looped _ => none
  | failed _ => none

end Landing

/-! ## The relations and the lists of the machine -/

section Lists

variable {rule : Rule} {baseline inputs : Ports} {entering : Bool} {fired : List Action}

theorem Rule.stirred_iff :
    rule.Stirred baseline inputs ↔ rule.conditions.Notice baseline inputs := by
  constructor
  · rintro ⟨port, h⟩
    exact ⟨port, (Condition.notices_iff _).mpr h⟩
  · rintro ⟨port, h⟩
    exact ⟨port, (Condition.notices_iff _).mp h⟩

theorem Rule.met_iff : rule.Met inputs ↔ rule.conditions.Hold inputs := .rfl

theorem Rule.fired_eq : rule.fired baseline inputs entering =
    if rule.conditions.Hold inputs then
      if rule.conditions.Notice baseline inputs then rule.actions
      else if entering then rule.actions.filter fun a => Device.firesOnEntry a.device
      else []
    else [] := by
  unfold Rule.fired Firing.of
  split
  · split
    · exact List.filter_eq_self.mpr fun _ _ => rfl
    · split
      · exact List.filter_congr fun _ _ => Bool.decide_eq_true
      · exact List.filter_eq_nil_iff.mpr fun _ _ => nofun
  · exact List.filter_eq_nil_iff.mpr fun _ _ => nofun

theorem Rule.fires_iff :
    rule.Fires baseline inputs entering fired ↔ fired = rule.fired baseline inputs entering := by
  rw [Rule.fired_eq]
  constructor
  · intro h
    cases h with
    | everything hmet hstirred => rw [if_pos (met_iff.mp hmet), if_pos (stirred_iff.mp hstirred)]
    | flagged hmet hstirred hentering =>
      rw [if_pos (met_iff.mp hmet), if_neg (mt stirred_iff.mpr hstirred), if_pos hentering]
    | still hstirred hentering =>
      rw [if_neg (mt stirred_iff.mpr hstirred), hentering]
      simp
    | unmet hmet => rw [if_neg (mt met_iff.mpr hmet)]
  · rintro rfl
    by_cases hmet : rule.Met inputs
    · by_cases hstirred : rule.Stirred baseline inputs
      · rw [if_pos (met_iff.mp hmet), if_pos (stirred_iff.mp hstirred)]
        exact .everything hmet hstirred
      · rw [if_pos (met_iff.mp hmet), if_neg (mt stirred_iff.mpr hstirred)]
        cases entering with
        | true => exact .flagged hmet hstirred rfl
        | false => exact .still hstirred rfl
    · rw [if_neg (mt met_iff.mpr hmet)]
      exact .unmet hmet

theorem Rule.fireAll_iff {rules : List Rule} : FireAll baseline inputs entering rules fired ↔
    fired = rules.flatMap (Rule.fired baseline inputs entering) := by
  constructor
  · intro h
    induction h with
    | nil => rfl
    | cons hfires _ ih => rw [List.flatMap_cons, ih, fires_iff.mp hfires]
  · rintro rfl
    induction rules with
    | nil => exact .nil
    | cons rule rules ih => exact .cons (fires_iff.mpr rfl) ih

theorem firstGoto_iff {next : UInt8} : FirstGoto fired next ↔ firstGoto fired = some next := by
  unfold firstGoto
  rw [Option.map_eq_some_iff]
  constructor
  · rintro ⟨before, goto, after, rfl, hbefore, hgoto, rfl⟩
    refine ⟨goto, List.find?_eq_some_iff_append.mpr ⟨decide_eq_true hgoto, before, after, rfl, ?_⟩, rfl⟩
    intro a ha
    simpa using hbefore a ha
  · rintro ⟨goto, hfind, rfl⟩
    obtain ⟨hgoto, before, after, rfl, hbefore⟩ := List.find?_eq_some_iff_append.mp hfind
    exact ⟨before, goto, after, rfl, fun a ha => by simpa using hbefore a ha, of_decide_eq_true hgoto,
      rfl⟩

theorem firstGoto_eq_none_iff : firstGoto fired = none ↔ ∀ a ∈ fired, a.target ≠ .goto := by
  unfold firstGoto
  rw [Option.map_eq_none_iff, List.find?_eq_none]
  simp

theorem schedules_iff {pending : Option UInt8} :
    Schedules fired pending ↔ pending = lastEnter fired := by
  unfold lastEnter
  constructor
  · intro h
    cases h with
    | nothing hnone =>
      have hfind : fired.reverse.find? (fun a => a.target = .enter) = none :=
        List.find?_eq_none.mpr fun a ha => by simpa using hnone a (List.mem_reverse.mp ha)
      rw [hfind]
      rfl
    | @last before after enter heq henter hafter =>
      have hfind : fired.reverse.find? (fun a => a.target = .enter) = some enter := by
        refine List.find?_eq_some_iff_append.mpr
          ⟨decide_eq_true henter, after.reverse, before.reverse, ?_, ?_⟩
        · rw [heq, List.reverse_append, List.reverse_cons, List.append_assoc,
            List.singleton_append]
        · intro a ha
          simpa using hafter a (List.mem_reverse.mp ha)
      rw [hfind]
      rfl
  · rintro rfl
    cases hfind : fired.reverse.find? (fun a => a.target = .enter) with
    | none =>
      refine .nothing fun a ha => ?_
      simpa using List.find?_eq_none.mp hfind a (List.mem_reverse.mpr ha)
    | some enter =>
      obtain ⟨henter, before, after, heq, hbefore⟩ := List.find?_eq_some_iff_append.mp hfind
      have hsplit : fired = after.reverse ++ enter :: before.reverse := by
        rw [← List.reverse_reverse fired, heq, List.reverse_append, List.reverse_cons,
          List.append_assoc, List.singleton_append]
      refine .last hsplit (of_decide_eq_true henter) fun a ha => ?_
      simpa using hbefore a (List.mem_reverse.mp ha)

/-- The board is told of everything that does not move the program. -/
theorem boardCalls_eq : boardCalls fired = fired.filterMap Action.boardCall := by
  unfold boardCalls
  induction fired with
  | nil => rfl
  | cons a rest ih =>
    rw [List.filterMap_cons, ← ih]
    unfold Action.boardCall
    cases htarget : a.target <;> simp [htarget, Device.isFlow]

end Lists

end RoomControl
