import RoomControl.Program.Assembly
import RoomControl.Proofs.Program.Decoding

/-!
# What the calls to a builder describe

A `Blueprint` is a program without its bytes: the actions by number, and the chart of the states.
`assemble` makes calls to a builder, refused ones included, and draws the blueprint that the accepted
ones describe. The builder keeps the same program in flat tables; `ProgramBuilder.blueprint` follows
their entries, and `built_assemble` says that it always finds what was drawn.

`Sound` is the invariant. Entries stay inside the tables they point into, and the evaluations of the
states, one state after the other, are the whole table of evaluations. It is kept by each table that
grows, and a call lets one or two of them grow. So bytes that a refused call leaves behind do no harm.
-/

set_option autoImplicit false

namespace RoomControl

/-! ## Blueprints -/

/-- A program without its bytes. -/
structure Blueprint where
  actions : List Action := []
  states : Chart := []

/-- A call to a builder. -/
inductive BuilderCall where
  | action (device : UInt8) (value : Bytes)
  | state
  | evaluation (conditions : Conditions) (handles : List Nat)

namespace Blueprint

/-- One more rule for the last state. -/
def addRule (states : Chart) (rule : Rule) : Chart :=
  states.dropLast ++ (states.getLast?.map (· ++ [rule])).toList

/-- What an accepted call adds. -/
def add (plan : Blueprint) : BuilderCall → Blueprint
  | .action device value => { plan with actions := plan.actions ++ [⟨device, .ofPrefix value⟩] }
  | .state => { plan with states := plan.states ++ [[]] }
  | .evaluation conditions handles =>
    let rule : Rule := ⟨conditions, handles.filterMap (plan.actions[·]?)⟩
    { plan with states := addRule plan.states rule }

end Blueprint

namespace ProgramBuilder

/-- Makes a call: what it answers, which is a number unless it adds an evaluation, and the builder
after it. -/
def call (b : ProgramBuilder) : BuilderCall → Except BuildError (Option UInt8) × ProgramBuilder
  | .action device value => ((b.action device value).1.map some, (b.action device value).2)
  | .state => (b.state.1.map some, b.state.2)
  | .evaluation conditions handles =>
    ((b.evaluation conditions handles).1.map fun _ => none, (b.evaluation conditions handles).2)

end ProgramBuilder

/-- Makes one more call, and draws it when it is accepted. -/
def drawCall (x : ProgramBuilder × Blueprint) (c : BuilderCall) : ProgramBuilder × Blueprint :=
  match x.1.call c with
  | (.ok _, b) => (b, x.2.add c)
  | (.error _, b) => (b, x.2)

/-- The builder that the calls leave, and the blueprint that they describe. -/
def assemble (calls : List BuilderCall) : ProgramBuilder × Blueprint := calls.foldl drawCall ({}, {})

/-! ## Numbers that are narrowed -/

theorem toNat_byte {n : Nat} (h : n ≤ 255) : (UInt8.ofNat n).toNat = n :=
  UInt8.toNat_ofNat_of_lt' (Nat.lt_succ_of_le h)

theorem toNat_short {n : Nat} (h : n ≤ 65535) : (UInt16.ofNat n).toNat = n :=
  UInt16.toNat_ofNat_of_lt' (Nat.lt_succ_of_le h)

/-! ## Following the entries -/

namespace ProgramBuilder

section Following

variable (b : ProgramBuilder)

def actionOf (a : ActionEntry) : Action := ⟨a.device, .ofPrefix (b.valueOf a)⟩

def table : List Action := b.actions.map b.actionOf

def ruleOf (e : EvaluationEntry) : Rule :=
  ⟨e.conditions, (b.referencesOf e).filterMap fun handle => b.table[handle.toNat]?⟩

def rulesOf (s : StateEntry) : List Rule := (b.evaluationsOf s).map b.ruleOf

/-- The program that the tables hold. -/
def blueprint : Blueprint := ⟨b.table, b.states.map b.rulesOf⟩

end Following

/-- The tables have their room, and every entry stays inside the table it points into. -/
structure Sound (b : ProgramBuilder) : Prop where
  actions_le : b.actions.length ≤ maxActions
  values_le : b.values.length ≤ maxValueBytes
  evaluations_le : b.evaluations.length ≤ maxEvaluations
  references_le : b.references.length ≤ maxReferences
  states_le : b.states.length ≤ maxStates
  value : ∀ a ∈ b.actions, a.valueStart.toNat + a.valueLength.toNat ≤ b.values.length ∧
    a.valueLength.toNat ≤ Action.maxValue
  reference : ∀ e ∈ b.evaluations,
    e.referencesStart.toNat + e.referencesLength.toNat ≤ b.references.length
  known : ∀ handle ∈ b.references, handle.toNat < b.actions.length
  evaluation : ∀ s ∈ b.states,
    s.evaluationsStart.toNat + s.evaluationsLength.toNat ≤ b.evaluations.length
  /-- The states share out the evaluations among them, in order. -/
  shared : b.states.flatMap b.evaluationsOf = b.evaluations
  /-- The next evaluation goes behind those of the last state. -/
  last : ∀ s, b.states.getLast? = some s →
    s.evaluationsStart.toNat + s.evaluationsLength.toNat = b.evaluations.length

/-- The builder holds the program of a blueprint. -/
structure Built (b : ProgramBuilder) (plan : Blueprint) : Prop where
  sound : b.Sound
  blueprint_eq : b.blueprint = plan

/-! ## Tables that grow -/

section Growing

theorem filterMap_congr {α β : Type} {f g : α → Option β} {l : List α} (h : ∀ x ∈ l, f x = g x) :
    l.filterMap f = l.filterMap g := by
  induction l with
  | nil => rfl
  | cons x rest ih =>
    rw [List.filterMap_cons, List.filterMap_cons, h x (List.mem_cons_self ..),
      ih fun y hy => h y (List.mem_cons_of_mem _ hy)]

theorem flatMap_congr_mem {α β : Type} {f g : α → List β} {l : List α} (h : ∀ x ∈ l, f x = g x) :
    l.flatMap f = l.flatMap g := by
  rw [List.flatMap_def, List.flatMap_def, List.map_congr_left h]

/-- A window of a table does not see what the table grows by. -/
theorem window_append {α : Type} {table : List α} {start n : Nat} (h : start + n ≤ table.length)
    (more : List α) : ((table ++ more).drop start).take n = (table.drop start).take n := by
  rw [List.drop_append_of_le_length (by omega),
    List.take_append_of_le_length (by rw [List.length_drop]; omega)]

theorem mem_of_mem_window {α : Type} {table : List α} {start n : Nat} {x : α}
    (h : x ∈ (table.drop start).take n) : x ∈ table :=
  List.mem_of_mem_drop (List.mem_of_mem_take h)

theorem length_window {α : Type} {table : List α} {start n : Nat} (h : start + n ≤ table.length) :
    ((table.drop start).take n).length = n := by
  rw [List.length_take, List.length_drop]
  omega

/-- A window on what was appended. -/
theorem window_appended {α : Type} (table more : List α) :
    ((table ++ more).drop table.length).take more.length = more := by
  rw [List.drop_left, List.take_length]

/-- A window that reaches the end of a table grows with it. -/
theorem window_snoc {α : Type} {table : List α} {start n : Nat} (h : start + n = table.length)
    (x : α) : ((table ++ [x]).drop start).take (n + 1) = (table.drop start).take n ++ [x] := by
  have hrest : (table.drop start).length = n := by
    rw [List.length_drop]
    omega
  have hgrown : (table.drop start ++ [x]).length = n + 1 := by
    rw [List.length_append, hrest]
    rfl
  rw [List.drop_append_of_le_length (by omega), ← hgrown, List.take_length, ← hrest, List.take_length]

variable {b : ProgramBuilder} {plan : Blueprint}

/-- The program is the same when each entry leads to the same. -/
theorem blueprint_congr {b' : ProgramBuilder} (htable : b'.table = b.table)
    (hrules : ∀ e ∈ b.evaluations, b'.ruleOf e = b.ruleOf e)
    (hevaluations : b'.evaluations = b.evaluations) (hstates : b'.states = b.states) :
    b'.blueprint = b.blueprint := by
  have hrulesOf : b'.rulesOf = b.rulesOf := by
    funext s
    rw [rulesOf, rulesOf, evaluationsOf, evaluationsOf, hevaluations]
    exact List.map_congr_left fun e he => hrules e (mem_of_mem_window he)
  rw [blueprint, blueprint, htable, hstates, hrulesOf]

theorem Built.growValues (built : b.Built plan) {value : Bytes}
    (h : b.values.length + value.length ≤ maxValueBytes) :
    Built { b with values := b.values ++ value } plan := by
  obtain ⟨sound, rfl⟩ := built
  refine ⟨{ sound with
    values_le := ?_
    value := fun a ha => ?_ }, ?_⟩
  · rwa [List.length_append]
  · obtain ⟨hin, hmax⟩ := sound.value a ha
    rw [List.length_append]
    exact ⟨by omega, hmax⟩
  · have htable : table { b with values := b.values ++ value } = b.table := by
      refine List.map_congr_left fun a ha => ?_
      simp only [actionOf, valueOf, window_append (sound.value a ha).1]
    refine blueprint_congr htable (fun e _ => ?_) rfl rfl
    simp only [ruleOf, htable, referencesOf]

theorem Built.growActions (built : b.Built plan) {a : ActionEntry}
    (hroom : b.actions.length < maxActions)
    (hin : a.valueStart.toNat + a.valueLength.toNat ≤ b.values.length)
    (hmax : a.valueLength.toNat ≤ Action.maxValue) :
    Built { b with actions := b.actions ++ [a] }
      { plan with actions := plan.actions ++ [b.actionOf a] } := by
  obtain ⟨sound, rfl⟩ := built
  have htable : table { b with actions := b.actions ++ [a] } = b.table ++ [b.actionOf a] := by
    simp only [table, List.map_append, List.map_cons, List.map_nil]
    rfl
  refine ⟨{ sound with
    actions_le := ?_
    value := fun a' ha => ?_
    known := fun handle hhandle => ?_ }, ?_⟩
  · rw [List.length_append]
    exact hroom
  · rcases List.mem_append.mp ha with ha | ha
    · exact sound.value a' ha
    · obtain rfl := List.mem_singleton.mp ha
      exact ⟨hin, hmax⟩
  · rw [List.length_append]
    exact Nat.lt_of_lt_of_le (sound.known handle hhandle) (Nat.le_add_right ..)
  · -- handles lead to the actions that were there before
    have hrules : ∀ e, ruleOf { b with actions := b.actions ++ [a] } e = b.ruleOf e := by
      intro e
      rw [ruleOf, ruleOf, htable]
      congr 1
      refine filterMap_congr fun handle hhandle => List.getElem?_append_left ?_
      rw [table, List.length_map]
      exact sound.known handle (mem_of_mem_window hhandle)
    have hrulesOf : rulesOf { b with actions := b.actions ++ [a] } = b.rulesOf := by
      funext s
      exact List.map_congr_left fun e _ => hrules e
    rw [blueprint, htable, hrulesOf]
    rfl

theorem Built.growReferences (built : b.Built plan) {handles : Bytes}
    (h : b.references.length + handles.length ≤ maxReferences)
    (hknown : ∀ handle ∈ handles, handle.toNat < b.actions.length) :
    Built { b with references := b.references ++ handles } plan := by
  obtain ⟨sound, rfl⟩ := built
  refine ⟨{ sound with
    references_le := ?_
    reference := fun e he => ?_
    known := fun handle hhandle => ?_ }, ?_⟩
  · rwa [List.length_append]
  · rw [List.length_append]
    exact Nat.le_trans (sound.reference e he) (Nat.le_add_right ..)
  · rcases List.mem_append.mp hhandle with hhandle | hhandle
    · exact sound.known handle hhandle
    · exact hknown handle hhandle
  · refine blueprint_congr rfl (fun e he => ?_) rfl rfl
    simp only [ruleOf, referencesOf, window_append (sound.reference e he)]
    rfl

theorem Built.growStates (built : b.Built plan) {start : UInt8}
    (hroom : b.states.length < maxStates) (hstart : start.toNat = b.evaluations.length) :
    Built { b with states := b.states ++ [⟨start, 0⟩] }
      { plan with states := plan.states ++ [[]] } := by
  obtain ⟨sound, rfl⟩ := built
  have hempty : b.evaluationsOf ⟨start, 0⟩ = [] := List.take_zero
  refine ⟨{ sound with
    states_le := ?_
    evaluation := fun s hs => ?_
    shared := ?_
    last := fun s hs => ?_ }, ?_⟩
  · rw [List.length_append]
    exact hroom
  · rcases List.mem_append.mp hs with hs | hs
    · exact sound.evaluation s hs
    · obtain rfl := List.mem_singleton.mp hs
      exact Nat.le_of_eq hstart
  · show (b.states ++ [(⟨start, 0⟩ : StateEntry)]).flatMap b.evaluationsOf = _
    rw [List.flatMap_append, sound.shared, List.flatMap_singleton, hempty, List.append_nil]
  · rw [List.getLast?_concat] at hs
    cases hs
    exact hstart
  · show Blueprint.mk b.table ((b.states ++ [(⟨start, 0⟩ : StateEntry)]).map b.rulesOf) = _
    rw [List.map_append, List.map_singleton, rulesOf, hempty]
    rfl

section LastState

variable {front : List StateEntry} {s : StateEntry} (sound : b.Sound)
variable (hstates : b.states = front ++ [s])

include sound hstates

theorem Sound.last_ends :
    s.evaluationsStart.toNat + s.evaluationsLength.toNat = b.evaluations.length :=
  sound.last s (by rw [hstates, List.getLast?_concat])

theorem Sound.evaluationsLength_lengthen (hroom : b.evaluations.length < maxEvaluations) :
    s.lengthen.evaluationsLength.toNat = s.evaluationsLength.toNat + 1 := by
  have hlast := sound.last_ends hstates
  unfold maxEvaluations at hroom
  have hlt : s.evaluationsLength.toNat + 1 < 256 := by omega
  show (s.evaluationsLength + 1).toNat = _
  rw [UInt8.toNat_add]
  exact Nat.mod_eq_of_lt hlt

variable {e : EvaluationEntry} {states : List StateEntry}

theorem Sound.evaluationsOf_front {s' : StateEntry} (hs : s' ∈ front) :
    evaluationsOf { b with evaluations := b.evaluations ++ [e], states } s' = b.evaluationsOf s' :=
  window_append (sound.evaluation s' (hstates ▸ List.mem_append_left _ hs)) _

theorem Sound.evaluationsOf_lengthen (hroom : b.evaluations.length < maxEvaluations) :
    evaluationsOf { b with evaluations := b.evaluations ++ [e], states } s.lengthen =
      b.evaluationsOf s ++ [e] := by
  show ((b.evaluations ++ [e]).drop s.evaluationsStart.toNat).take _ = _
  rw [sound.evaluationsLength_lengthen hstates hroom]
  exact window_snoc (sound.last_ends hstates) e

theorem Sound.growEvaluations (hroom : b.evaluations.length < maxEvaluations)
    (hin : e.referencesStart.toNat + e.referencesLength.toNat ≤ b.references.length) :
    Sound { b with evaluations := b.evaluations ++ [e], states := front ++ [s.lengthen] } := by
  have hlast := sound.last_ends hstates
  have hlength := sound.evaluationsLength_lengthen hstates hroom
  refine { sound with
    evaluations_le := ?_
    states_le := ?_
    reference := fun e' he => ?_
    evaluation := fun s' hs' => ?_
    shared := ?_
    last := fun s' hs' => ?_ }
  · rw [List.length_append]
    exact hroom
  · have hle := sound.states_le
    rw [hstates, List.length_append] at hle
    rwa [List.length_append]
  · rcases List.mem_append.mp he with he | he
    · exact sound.reference e' he
    · obtain rfl := List.mem_singleton.mp he
      exact hin
  · rw [List.length_append]
    rcases List.mem_append.mp hs' with hs' | hs'
    · have hle := sound.evaluation s' (hstates ▸ List.mem_append_left _ hs')
      exact Nat.le_trans hle (Nat.le_add_right ..)
    · obtain rfl := List.mem_singleton.mp hs'
      rw [hlength]
      exact Nat.le_of_eq (congrArg (· + 1) hlast)
  · have hshared := sound.shared
    have hfront : front.map (evaluationsOf
        { b with evaluations := b.evaluations ++ [e], states := front ++ [s.lengthen] }) =
          front.map b.evaluationsOf :=
      List.map_congr_left fun s' hs' => sound.evaluationsOf_front hstates hs'
    rw [hstates, List.flatMap_append, List.flatMap_singleton] at hshared
    rw [List.flatMap_append, List.flatMap_singleton, sound.evaluationsOf_lengthen hstates hroom,
      List.flatMap_def, hfront, ← List.flatMap_def, ← List.append_assoc, hshared]
  · rw [List.getLast?_concat] at hs'
    cases hs'
    rw [hlength, List.length_append]
    exact congrArg (· + 1) hlast

theorem Sound.blueprint_growEvaluations (hroom : b.evaluations.length < maxEvaluations) :
    blueprint { b with evaluations := b.evaluations ++ [e], states := front ++ [s.lengthen] } =
      { b.blueprint with states := Blueprint.addRule b.blueprint.states (b.ruleOf e) } := by
  let b' : ProgramBuilder :=
    { b with evaluations := b.evaluations ++ [e], states := front ++ [s.lengthen] }
  have hfront : front.map b'.rulesOf = front.map b.rulesOf := by
    refine List.map_congr_left fun s' hs' => ?_
    rw [rulesOf, sound.evaluationsOf_front hstates hs']
    rfl
  have hlast : b'.rulesOf s.lengthen = b.rulesOf s ++ [b.ruleOf e] := by
    rw [rulesOf, sound.evaluationsOf_lengthen hstates hroom, List.map_append]
    rfl
  show Blueprint.mk b.table ((front ++ [s.lengthen]).map b'.rulesOf) =
    ⟨b.table, Blueprint.addRule (b.states.map b.rulesOf) (b.ruleOf e)⟩
  rw [hstates, List.map_append, List.map_append, List.map_singleton, List.map_singleton, hfront,
    hlast, Blueprint.addRule, List.dropLast_concat, List.getLast?_concat]
  rfl

end LastState

theorem Built.growEvaluations (built : b.Built plan) {front : List StateEntry} {s : StateEntry}
    {e : EvaluationEntry} (hstates : b.states = front ++ [s])
    (hroom : b.evaluations.length < maxEvaluations)
    (hin : e.referencesStart.toNat + e.referencesLength.toNat ≤ b.references.length) :
    Built { b with evaluations := b.evaluations ++ [e], states := front ++ [s.lengthen] }
      { plan with states := Blueprint.addRule plan.states (b.ruleOf e) } := by
  obtain ⟨sound, rfl⟩ := built
  exact ⟨sound.growEvaluations hstates hroom hin, sound.blueprint_growEvaluations hstates hroom⟩

end Growing

/-! ## The calls -/

section Calls

variable {b : ProgramBuilder} {plan : Blueprint}

theorem built_new : Built {} {} := by
  refine ⟨⟨?_, ?_, ?_, ?_, ?_, nofun, nofun, nofun, nofun, rfl, nofun⟩, rfl⟩
  all_goals exact Nat.zero_le _

theorem Built.action (built : b.Built plan) (device : UInt8) (value : Bytes) :
    Built (drawCall (b, plan) (.action device value)).1
      (drawCall (b, plan) (.action device value)).2 := by
  unfold drawCall call ProgramBuilder.action
  dsimp only
  by_cases hlong : value.length > Action.maxValue
  · rw [if_pos hlong]
    exact built
  by_cases hfull : b.values.length + value.length > maxValueBytes
  · rw [if_neg hlong, if_pos hfull]
    exact built
  -- the value is in its table already when the table of actions turns out to be full
  have grown := built.growValues (Nat.le_of_not_lt hfull)
  by_cases hroom : b.actions.length < maxActions
  · rw [if_neg hlong, if_neg hfull, if_pos hroom]
    unfold Action.maxValue at hlong
    unfold maxValueBytes at hfull
    have hstart : (UInt16.ofNat b.values.length).toNat = b.values.length := toNat_short (by omega)
    have hlength : (UInt8.ofNat value.length).toNat = value.length := toNat_byte (by omega)
    let a : ActionEntry := ⟨device, UInt16.ofNat b.values.length, UInt8.ofNat value.length⟩
    have hvalue : valueOf { b with values := b.values ++ value } a = value := by
      show ((b.values ++ value).drop (UInt16.ofNat b.values.length).toNat).take
        (UInt8.ofNat value.length).toNat = value
      rw [hstart, hlength, window_appended]
    have hin : a.valueStart.toNat + a.valueLength.toNat ≤ (b.values ++ value).length := by
      exact Nat.le_of_eq (by rw [hstart, hlength, List.length_append])
    have hmax : a.valueLength.toNat ≤ Action.maxValue := by
      rw [hlength]
      exact Nat.le_of_not_lt hlong
    have h := grown.growActions hroom hin hmax
    rw [actionOf, hvalue] at h
    exact h
  · rw [if_neg hlong, if_neg hfull, if_neg hroom]
    exact grown

theorem Built.state (built : b.Built plan) :
    Built (drawCall (b, plan) .state).1 (drawCall (b, plan) .state).2 := by
  unfold drawCall call ProgramBuilder.state
  dsimp only
  by_cases hroom : b.states.length < maxStates
  · rw [if_pos hroom]
    have hle := built.sound.evaluations_le
    unfold maxEvaluations at hle
    exact built.growStates hroom (toNat_byte (by omega))
  · rw [if_neg hroom]
    exact built

theorem Built.evaluation (built : b.Built plan) (conditions : Conditions) (handles : List Nat) :
    Built (drawCall (b, plan) (.evaluation conditions handles)).1
      (drawCall (b, plan) (.evaluation conditions handles)).2 := by
  unfold drawCall call ProgramBuilder.evaluation
  dsimp only
  by_cases hempty : b.isEmpty = true
  · rw [if_pos hempty]
    exact built
  by_cases hunknown : ∃ i ∈ handles, i ≥ b.actions.length
  · rw [if_neg hempty, if_pos hunknown]
    exact built
  by_cases hfull : b.references.length + handles.length > maxReferences
  · rw [if_neg hempty, if_neg hunknown, if_pos hfull]
    exact built
  have hactions := built.sound.actions_le
  unfold maxActions at hactions
  have hhandle : ∀ i ∈ handles, i < b.actions.length ∧ (UInt8.ofNat i).toNat = i := by
    intro i hi
    have hlt : i < b.actions.length := Nat.lt_of_not_le fun hle => hunknown ⟨i, hi, hle⟩
    exact ⟨hlt, toNat_byte (by omega)⟩
  have hfits : b.references.length + (handles.map UInt8.ofNat).length ≤ maxReferences := by
    rw [List.length_map]
    exact Nat.le_of_not_lt hfull
  have hknown : ∀ handle ∈ handles.map UInt8.ofNat, handle.toNat < b.actions.length := by
    intro handle h
    obtain ⟨i, hi, rfl⟩ := List.mem_map.mp h
    rw [(hhandle i hi).2]
    exact (hhandle i hi).1
  have grown := built.growReferences hfits hknown
  by_cases hroom : b.evaluations.length < maxEvaluations
  · rw [if_neg hempty, if_neg hunknown, if_neg hfull, if_pos hroom]
    unfold maxReferences at hfull
    have hstart : (UInt8.ofNat b.references.length).toNat = b.references.length :=
      toNat_byte (by omega)
    have hlength : (UInt8.ofNat handles.length).toNat = handles.length := toNat_byte (by omega)
    have hne : b.states ≠ [] := fun h => hempty (by rw [isEmpty, h]; rfl)
    obtain ⟨front, s, hstates⟩ : ∃ front s, b.states = front ++ [s] :=
      ⟨_, _, (List.dropLast_concat_getLast hne).symm⟩
    let e : EvaluationEntry :=
      ⟨conditions, UInt8.ofNat b.references.length, UInt8.ofNat handles.length⟩
    let b' : ProgramBuilder := { b with references := b.references ++ handles.map UInt8.ofNat }
    have hreferences : b'.referencesOf e = handles.map UInt8.ofNat := by
      show ((b.references ++ handles.map UInt8.ofNat).drop
        (UInt8.ofNat b.references.length).toNat).take (UInt8.ofNat handles.length).toNat = _
      rw [hstart, hlength, ← List.length_map (f := UInt8.ofNat), window_appended]
    have hrule : b'.ruleOf e = ⟨conditions, handles.filterMap (plan.actions[·]?)⟩ := by
      rw [ruleOf, hreferences, List.filterMap_map, ← grown.blueprint_eq]
      congr 1
      refine filterMap_congr fun i hi => ?_
      rw [Function.comp_apply, (hhandle i hi).2]
      rfl
    have hin : e.referencesStart.toNat + e.referencesLength.toNat ≤ b'.references.length := by
      refine Nat.le_of_eq ?_
      show _ = (b.references ++ handles.map UInt8.ofNat).length
      rw [hstart, hlength, List.length_append, List.length_map]
    have h := grown.growEvaluations hstates hroom hin
    rw [hrule] at h
    rw [hstates, List.dropLast_concat, List.getLast?_concat]
    exact h
  · rw [if_neg hempty, if_neg hunknown, if_neg hfull, if_neg hroom]
    exact grown

theorem Built.drawCall (built : b.Built plan) (c : BuilderCall) :
    Built (RoomControl.drawCall (b, plan) c).1 (RoomControl.drawCall (b, plan) c).2 := by
  cases c with
  | action device value => exact built.action device value
  | state => exact built.state
  | evaluation conditions handles => exact built.evaluation conditions handles

/-- **A builder holds the program that its accepted calls describe.** -/
theorem built_assemble (calls : List BuilderCall) : Built (assemble calls).1 (assemble calls).2 := by
  suffices h : ∀ x : ProgramBuilder × Blueprint, Built x.1 x.2 →
      Built (calls.foldl RoomControl.drawCall x).1 (calls.foldl RoomControl.drawCall x).2 from
    h _ built_new
  induction calls with
  | nil => exact fun _ built => built
  | cons c rest ih =>
    intro x built
    exact ih _ (built.drawCall c)

end Calls

end ProgramBuilder

end RoomControl
