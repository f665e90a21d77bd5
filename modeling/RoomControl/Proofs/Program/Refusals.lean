import RoomControl.Run
import RoomControl.Proofs.Program.Builder

/-!
# Refused calls to a builder

A call that finds one table full may already have put its bytes into another, where no entry points
to them. The law here is that nobody can tell: the program that is written and the answers to all
later calls are those of a builder to which the refused call was never made.

`Alike` is what two such builders have in common. They have the same entries, the entries lead to the
same values and references, and as long as an entry can still be added the table that it would point
into is the same too. A refused call leaves a builder alike (`alike_of_refused`), and alike builders
answer every call alike and stay so (`Alike.call`). The point of the proof is that bytes are left over
only by a table of entries which is full for good, so that no later call is accepted that would start
behind them.
-/

set_option autoImplicit false

namespace RoomControl.ProgramBuilder

/-! ## Every reachable builder is sound -/

theorem fst_drawCall (x : ProgramBuilder × Blueprint) (c : BuilderCall) :
    (drawCall x c).1 = (x.1.call c).2 := by
  unfold drawCall
  split <;> simp [*]

theorem Sound.call {b : ProgramBuilder} (sound : b.Sound) (c : BuilderCall) : (b.call c).2.Sound := by
  have built : b.Built b.blueprint := ⟨sound, rfl⟩
  have h := (built.drawCall c).sound
  rwa [fst_drawCall] at h

theorem sound_after (calls : List BuilderCall) : (runAll call {} calls).2.Sound :=
  runAll_keeps (P := fun _ _ (b : ProgramBuilder) => b.Sound) (fun _ _ _ c sound => sound.call c) built_new.sound calls

/-! ## Builders that cannot be told apart -/

/-- Two builders whose entries are the same and lead to the same. What no entry points to may differ,
but only in a table which no further entry will point into. -/
structure Alike (b b' : ProgramBuilder) : Prop where
  actions_eq : b'.actions = b.actions
  evaluations_eq : b'.evaluations = b.evaluations
  states_eq : b'.states = b.states
  valueOf_eq : ∀ a ∈ b.actions, b'.valueOf a = b.valueOf a
  referencesOf_eq : ∀ e ∈ b.evaluations, b'.referencesOf e = b.referencesOf e
  values_eq : b.actions.length < maxActions → b'.values = b.values
  references_eq : b.evaluations.length < maxEvaluations → b'.references = b.references

variable {b b' b'' : ProgramBuilder}

theorem Alike.refl (b : ProgramBuilder) : b.Alike b :=
  ⟨rfl, rfl, rfl, fun _ _ => rfl, fun _ _ => rfl, fun _ => rfl, fun _ => rfl⟩

theorem Alike.symm (h : b.Alike b') : b'.Alike b where
  actions_eq := h.actions_eq.symm
  evaluations_eq := h.evaluations_eq.symm
  states_eq := h.states_eq.symm
  valueOf_eq a ha := (h.valueOf_eq a (h.actions_eq ▸ ha)).symm
  referencesOf_eq e he := (h.referencesOf_eq e (h.evaluations_eq ▸ he)).symm
  values_eq hroom := (h.values_eq (h.actions_eq ▸ hroom)).symm
  references_eq hroom := (h.references_eq (h.evaluations_eq ▸ hroom)).symm

theorem Alike.trans (first : b.Alike b') (second : b'.Alike b'') : b.Alike b'' where
  actions_eq := second.actions_eq.trans first.actions_eq
  evaluations_eq := second.evaluations_eq.trans first.evaluations_eq
  states_eq := second.states_eq.trans first.states_eq
  valueOf_eq a ha :=
    (second.valueOf_eq a (first.actions_eq.symm ▸ ha)).trans (first.valueOf_eq a ha)
  referencesOf_eq e he :=
    (second.referencesOf_eq e (first.evaluations_eq.symm ▸ he)).trans (first.referencesOf_eq e he)
  values_eq hroom :=
    (second.values_eq (first.actions_eq.symm ▸ hroom)).trans (first.values_eq hroom)
  references_eq hroom :=
    (second.references_eq (first.evaluations_eq.symm ▸ hroom)).trans (first.references_eq hroom)

/-- Bytes behind the values do no harm once there is no room for another action. -/
theorem Sound.alike_growValues (sound : b.Sound) (full : maxActions ≤ b.actions.length)
    (value : Bytes) : b.Alike { b with values := b.values ++ value } where
  actions_eq := rfl
  evaluations_eq := rfl
  states_eq := rfl
  valueOf_eq a ha := window_append (sound.value a ha).1 value
  referencesOf_eq _ _ := rfl
  values_eq hroom := absurd hroom (Nat.not_lt_of_le full)
  references_eq _ := rfl

/-- References behind those of all evaluations do no harm once there is no room for another one. -/
theorem Sound.alike_growReferences (sound : b.Sound)
    (full : maxEvaluations ≤ b.evaluations.length) (handles : Bytes) :
    b.Alike { b with references := b.references ++ handles } where
  actions_eq := rfl
  evaluations_eq := rfl
  states_eq := rfl
  valueOf_eq _ _ := rfl
  referencesOf_eq e he := window_append (sound.reference e he) handles
  values_eq _ := rfl
  references_eq hroom := absurd hroom (Nat.not_lt_of_le full)

/-! ## A full table refuses for good -/

/-- Once the table of actions is full the answer does not depend on the other tables. -/
theorem action_of_full (sound : b.Sound) (full : maxActions ≤ b.actions.length) (device : UInt8)
    (value : Bytes) :
    (b.action device value).1 =
        .error (if value.length > Action.maxValue then .valueTooLong else .full) ∧
      b.Alike (b.action device value).2 := by
  unfold action
  split
  · exact ⟨rfl, .refl b⟩
  · split
    · exact ⟨rfl, .refl b⟩
    · dsimp only
      rw [if_neg (Nat.not_lt_of_le full)]
      exact ⟨rfl, sound.alike_growValues full value⟩

/-- An action that is not too long is refused for want of room then. -/
theorem call_action_of_full (sound : b.Sound) (full : maxActions ≤ b.actions.length) (device : UInt8)
    {value : Bytes} (h : value.length ≤ Action.maxValue) :
    (b.call (.action device value)).1 = .error .full := by
  have hanswer := (action_of_full sound full device value).1
  rw [if_neg (Nat.not_lt_of_le h)] at hanswer
  rw [call, hanswer]
  rfl

/-- Once the table of evaluations is full the answer depends on the actions and states alone. -/
theorem evaluation_of_full (sound : b.Sound) (full : maxEvaluations ≤ b.evaluations.length)
    (conditions : Conditions) (handles : List Nat) :
    (b.evaluation conditions handles).1 =
        .error (if b.states.isEmpty then .noState
          else if ∃ i ∈ handles, i ≥ b.actions.length then .unknownAction else .full) ∧
      b.Alike (b.evaluation conditions handles).2 := by
  unfold evaluation isEmpty
  split
  · exact ⟨rfl, .refl b⟩
  · split
    · exact ⟨rfl, .refl b⟩
    · split
      · exact ⟨rfl, .refl b⟩
      · dsimp only
        rw [if_neg (Nat.not_lt_of_le full)]
        exact ⟨rfl, sound.alike_growReferences full (handles.map UInt8.ofNat)⟩

/-- With room for the entry, a call that is refused has put nothing down. -/
theorem action_of_refused (hroom : b.actions.length < maxActions) {device : UInt8} {value : Bytes}
    {e : BuildError} (h : (b.action device value).1 = .error e) : (b.action device value).2 = b := by
  unfold action at h ⊢
  by_cases hlong : value.length > Action.maxValue
  · rw [if_pos hlong]
  by_cases hfull : b.values.length + value.length > maxValueBytes
  · rw [if_neg hlong, if_pos hfull]
  rw [if_neg hlong, if_neg hfull] at h
  dsimp only at h
  rw [if_pos hroom] at h
  cases h

theorem state_of_refused {e : BuildError} (h : b.state.1 = .error e) : b.state.2 = b := by
  unfold state at h ⊢
  by_cases hroom : b.states.length < maxStates
  · rw [if_pos hroom] at h
    cases h
  · rw [if_neg hroom]

theorem evaluation_of_refused (hroom : b.evaluations.length < maxEvaluations)
    {conditions : Conditions} {handles : List Nat} {e : BuildError}
    (h : (b.evaluation conditions handles).1 = .error e) :
    (b.evaluation conditions handles).2 = b := by
  unfold evaluation at h ⊢
  by_cases hempty : b.isEmpty = true
  · rw [if_pos hempty]
  by_cases hunknown : ∃ i ∈ handles, i ≥ b.actions.length
  · rw [if_neg hempty, if_pos hunknown]
  by_cases hfull : b.references.length + handles.length > maxReferences
  · rw [if_neg hempty, if_neg hunknown, if_pos hfull]
  rw [if_neg hempty, if_neg hunknown, if_neg hfull] at h
  dsimp only at h
  rw [if_pos hroom] at h
  cases h

theorem error_of_map {α β : Type} {f : α → β} {answer : Except BuildError α} {e : BuildError}
    (h : answer.map f = .error e) : answer = .error e := by
  cases answer with
  | error e' =>
    cases h
    rfl
  | ok a => cases h

/-- **A refused call** leaves a builder that cannot be told from the one before it. -/
theorem alike_of_refused (sound : b.Sound) {c : BuilderCall} {e : BuildError}
    (h : (b.call c).1 = .error e) : b.Alike (b.call c).2 := by
  cases c with
  | action device value =>
    rcases Nat.lt_or_ge b.actions.length maxActions with hroom | full
    · have heq : (b.call (.action device value)).2 = b := action_of_refused hroom (error_of_map h)
      rw [heq]
      exact .refl b
    · exact (action_of_full sound full device value).2
  | state =>
    have heq : (b.call .state).2 = b := state_of_refused (error_of_map h)
    rw [heq]
    exact .refl b
  | evaluation conditions handles =>
    rcases Nat.lt_or_ge b.evaluations.length maxEvaluations with hroom | full
    · have heq : (b.call (.evaluation conditions handles)).2 = b :=
        evaluation_of_refused hroom (error_of_map h)
      rw [heq]
      exact .refl b
    · exact (evaluation_of_full sound full conditions handles).2

/-! ## Alike builders go on alike -/

/-- What adding an action reads, and what it writes. -/
theorem action_congr (hactions : b'.actions = b.actions) (hvalues : b'.values = b.values)
    (device : UInt8) (value : Bytes) :
    b'.action device value = ((b.action device value).1,
      { b' with
        actions := (b.action device value).2.actions
        values := (b.action device value).2.values }) := by
  obtain ⟨actions, values, evaluations, references, states⟩ := b'
  obtain rfl : actions = b.actions := hactions
  obtain rfl : values = b.values := hvalues
  unfold action
  split
  · rfl
  · split
    · rfl
    · dsimp only
      split <;> rfl

/-- What starting a state reads, and what it writes. -/
theorem state_congr (hevaluations : b'.evaluations = b.evaluations) (hstates : b'.states = b.states) :
    b'.state = (b.state.1, { b' with states := b.state.2.states }) := by
  obtain ⟨actions, values, evaluations, references, states⟩ := b'
  obtain rfl : evaluations = b.evaluations := hevaluations
  obtain rfl : states = b.states := hstates
  unfold state
  split <;> rfl

/-- What adding an evaluation reads, and what it writes. -/
theorem evaluation_congr (hactions : b'.actions = b.actions)
    (hevaluations : b'.evaluations = b.evaluations) (hreferences : b'.references = b.references)
    (hstates : b'.states = b.states) (conditions : Conditions) (handles : List Nat) :
    b'.evaluation conditions handles = ((b.evaluation conditions handles).1,
      { b' with
        evaluations := (b.evaluation conditions handles).2.evaluations
        references := (b.evaluation conditions handles).2.references
        states := (b.evaluation conditions handles).2.states }) := by
  obtain ⟨actions, values, evaluations, references, states⟩ := b'
  obtain rfl : actions = b.actions := hactions
  obtain rfl : evaluations = b.evaluations := hevaluations
  obtain rfl : references = b.references := hreferences
  obtain rfl : states = b.states := hstates
  unfold evaluation isEmpty
  dsimp only
  split
  · rfl
  · split
    · rfl
    · split
      · rfl
      · split <;> rfl

theorem Alike.withActions (h : b.Alike b') (actions : List ActionEntry) (values : Bytes) :
    Alike { b with actions, values } { b' with actions, values } where
  actions_eq := rfl
  evaluations_eq := h.evaluations_eq
  states_eq := h.states_eq
  valueOf_eq _ _ := rfl
  referencesOf_eq := h.referencesOf_eq
  values_eq _ := rfl
  references_eq := h.references_eq

theorem Alike.withStates (h : b.Alike b') (states : List StateEntry) :
    Alike { b with states } { b' with states } :=
  { h with states_eq := rfl }

theorem Alike.withEvaluations (h : b.Alike b') (evaluations : List EvaluationEntry)
    (references : Bytes) (states : List StateEntry) :
    Alike { b with evaluations, references, states } { b' with evaluations, references, states } where
  actions_eq := h.actions_eq
  evaluations_eq := rfl
  states_eq := rfl
  valueOf_eq := h.valueOf_eq
  referencesOf_eq _ _ := rfl
  values_eq := h.values_eq
  references_eq _ := rfl

theorem Alike.action (h : b.Alike b') (sound : b.Sound) (sound' : b'.Sound) (device : UInt8)
    (value : Bytes) :
    (b.action device value).1 = (b'.action device value).1 ∧
      (b.action device value).2.Alike (b'.action device value).2 := by
  rcases Nat.lt_or_ge b.actions.length maxActions with hroom | full
  · rw [action_congr h.actions_eq (h.values_eq hroom)]
    refine ⟨rfl, ?_⟩
    have hself := congrArg Prod.snd (action_congr (b := b) rfl rfl device value)
    dsimp only at hself ⊢
    rw [hself]
    exact h.withActions _ _
  · obtain ⟨hanswer, hleft⟩ := action_of_full sound full device value
    obtain ⟨hanswer', hleft'⟩ := action_of_full sound' (h.actions_eq ▸ full) device value
    exact ⟨hanswer.trans hanswer'.symm, hleft.symm.trans (h.trans hleft')⟩

theorem Alike.state (h : b.Alike b') : b.state.1 = b'.state.1 ∧ b.state.2.Alike b'.state.2 := by
  rw [state_congr h.evaluations_eq h.states_eq]
  refine ⟨rfl, ?_⟩
  have hself := congrArg Prod.snd (state_congr (b := b) rfl rfl)
  dsimp only at hself ⊢
  rw [hself]
  exact h.withStates _

theorem Alike.evaluation (h : b.Alike b') (sound : b.Sound) (sound' : b'.Sound)
    (conditions : Conditions) (handles : List Nat) :
    (b.evaluation conditions handles).1 = (b'.evaluation conditions handles).1 ∧
      (b.evaluation conditions handles).2.Alike (b'.evaluation conditions handles).2 := by
  rcases Nat.lt_or_ge b.evaluations.length maxEvaluations with hroom | full
  · rw [evaluation_congr h.actions_eq h.evaluations_eq (h.references_eq hroom) h.states_eq]
    refine ⟨rfl, ?_⟩
    have hself := congrArg Prod.snd
      (evaluation_congr (b := b) rfl rfl rfl rfl conditions handles)
    dsimp only at hself ⊢
    rw [hself]
    exact h.withEvaluations _ _ _
  · obtain ⟨hanswer, hleft⟩ := evaluation_of_full sound full conditions handles
    obtain ⟨hanswer', hleft'⟩ :=
      evaluation_of_full sound' (h.evaluations_eq ▸ full) conditions handles
    refine ⟨?_, hleft.symm.trans (h.trans hleft')⟩
    rw [hanswer, hanswer', h.states_eq, h.actions_eq]

/-- **Alike builders answer a call alike**, and stay so. -/
theorem Alike.call (h : b.Alike b') (sound : b.Sound) (sound' : b'.Sound) (c : BuilderCall) :
    (b.call c).1 = (b'.call c).1 ∧ (b.call c).2.Alike (b'.call c).2 := by
  cases c with
  | action device value =>
    obtain ⟨hanswer, hafter⟩ := h.action sound sound' device value
    exact ⟨congrArg (Except.map some) hanswer, hafter⟩
  | state =>
    obtain ⟨hanswer, hafter⟩ := h.state
    exact ⟨congrArg (Except.map some) hanswer, hafter⟩
  | evaluation conditions handles =>
    obtain ⟨hanswer, hafter⟩ := h.evaluation sound sound' conditions handles
    exact ⟨congrArg (Except.map fun _ => none) hanswer, hafter⟩

theorem Alike.runAll (h : b.Alike b') (sound : b.Sound) (sound' : b'.Sound)
    (calls : List BuilderCall) :
    (runAll ProgramBuilder.call b calls).1 = (runAll ProgramBuilder.call b' calls).1 ∧
      (runAll ProgramBuilder.call b calls).2.Alike (runAll ProgramBuilder.call b' calls).2 := by
  obtain ⟨hanswers, -, -, hlast⟩ := runAll_related
    (R := fun b b' : ProgramBuilder => b.Sound ∧ b'.Sound ∧ b.Alike b')
    (by
      rintro b b' c ⟨sound, sound', h⟩
      obtain ⟨hanswer, hafter⟩ := h.call sound sound' c
      exact ⟨hanswer, sound.call c, sound'.call c, hafter⟩)
    ⟨sound, sound', h⟩ calls
  exact ⟨hanswers, hlast⟩

/-! ## What is written -/

theorem Alike.eq (h : b.Alike b') :
    b' = { b with values := b'.values, references := b'.references } := by
  obtain ⟨actions, values, evaluations, references, states⟩ := b'
  obtain rfl : actions = b.actions := h.actions_eq
  obtain rfl : evaluations = b.evaluations := h.evaluations_eq
  obtain rfl : states = b.states := h.states_eq
  rfl

/-- Offsets depend on the entries alone. -/
theorem Alike.actionOffset_eq (h : b.Alike b') : b'.actionOffset = b.actionOffset := by
  rw [h.eq]
  rfl

theorem Alike.length_eq (h : b.Alike b') : b'.length = b.length := by
  rw [h.eq]
  rfl

theorem Alike.stateTable_eq (h : b.Alike b') (offset : Nat) (states : List StateEntry) :
    b'.stateTable offset states = b.stateTable offset states := by
  have hlength : b'.stateLength = b.stateLength := by
    rw [h.eq]
    rfl
  induction states generalizing offset with
  | nil => rfl
  | cons s rest ih => rw [stateTable, stateTable, hlength, ih]

theorem Alike.evaluationBytes_eq (h : b.Alike b') {e : EvaluationEntry} (he : e ∈ b.evaluations) :
    b'.evaluationBytes e = b.evaluationBytes e := by
  unfold evaluationBytes
  rw [h.referencesOf_eq e he, h.actionOffset_eq]

theorem Alike.stateBytes_eq (h : b.Alike b') (s : StateEntry) : b'.stateBytes s = b.stateBytes s := by
  have hevaluations : b'.evaluationsOf s = b.evaluationsOf s := by
    rw [evaluationsOf, h.evaluations_eq, evaluationsOf]
  have hbytes : (b.evaluationsOf s).flatMap b'.evaluationBytes =
      (b.evaluationsOf s).flatMap b.evaluationBytes :=
    flatMap_congr_mem fun e he => h.evaluationBytes_eq (mem_of_mem_window he)
  unfold stateBytes
  rw [hevaluations, hbytes]

theorem Alike.actionBytes_eq (h : b.Alike b') {a : ActionEntry} (ha : a ∈ b.actions) :
    b'.actionBytes a = b.actionBytes a := by
  unfold actionBytes
  rw [h.valueOf_eq a ha]

theorem Alike.image_eq (h : b.Alike b') : b'.image = b.image := by
  have hheader : b'.headerLength = b.headerLength := by
    rw [h.eq]
    rfl
  have htable : b'.actionTable = b.actionTable := by
    rw [h.eq]
    rfl
  have hstates : b'.stateBytes = b.stateBytes := funext h.stateBytes_eq
  have hactions : b.actions.flatMap b'.actionBytes = b.actions.flatMap b.actionBytes :=
    flatMap_congr_mem fun a ha => h.actionBytes_eq ha
  unfold image
  rw [h.states_eq, h.actions_eq, hheader, htable, h.stateTable_eq, hstates, hactions]

/-- **Alike builders write the same program.** -/
theorem Alike.write_eq (h : b.Alike b') : b'.write = b.write := by
  funext buffer
  unfold write
  rw [h.length_eq, h.image_eq]

/-! ## No trace of a refused call -/

/-- **A refused call leaves no trace.** After any calls to a new builder, one that is refused changes
neither the length of the program, nor whether it is empty, nor what is written over any buffer; and
whatever calls follow, they are answered and their program is written as if the refused call had not
been made. -/
theorem refused_untraced (calls : List BuilderCall) (refused : BuilderCall) (e : BuildError)
    (h : ((runAll call {} calls).2.call refused).1 = .error e) :
    let b := (runAll call {} calls).2
    let b' := (b.call refused).2
    (b'.length = b.length ∧ b'.isEmpty = b.isEmpty ∧ b'.write = b.write) ∧
      ∀ later : List BuilderCall,
        (runAll call b' later).1 = (runAll call b later).1 ∧
          (runAll call b' later).2.length = (runAll call b later).2.length ∧
          (runAll call b' later).2.isEmpty = (runAll call b later).2.isEmpty ∧
          (runAll call b' later).2.write = (runAll call b later).2.write := by
  intro b b'
  have sound : b.Sound := sound_after calls
  have alike : b.Alike b' := alike_of_refused sound h
  refine ⟨⟨alike.length_eq, congrArg List.isEmpty alike.states_eq, alike.write_eq⟩, ?_⟩
  intro later
  obtain ⟨hanswers, hlast⟩ := alike.runAll sound (sound.call refused) later
  exact ⟨hanswers.symm, hlast.length_eq, congrArg List.isEmpty hlast.states_eq, hlast.write_eq⟩

/-- The calls that fill the table of actions. -/
def crowdedCalls : List BuilderCall := .state :: List.replicate maxActions (.action 1 [1])

/-- An evaluation that names the last of these actions, and another action. -/
def laterCalls : List BuilderCall :=
  [.evaluation (Vector.replicate portCount ⟨0, 0⟩) [63], .action 3 []]

/-- One more action is refused and leaves its value behind, yet later calls are answered and the
program is written as if it had not been made. -/
theorem crowded_untraced :
    let b := (runAll call {} crowdedCalls).2
    let b' := (b.call (.action 2 [7, 7])).2
    (b.call (.action 2 [7, 7])).1 = .error .full ∧ b' ≠ b ∧ b'.write = b.write ∧
      (runAll call b' laterCalls).1 = (runAll call b laterCalls).1 ∧
      (runAll call b' laterCalls).2.write = (runAll call b laterCalls).2.write := by
  have hcrowded : maxActions ≤ (runAll call {} crowdedCalls).2.actions.length := by
    decide +kernel
  have hrefused : ((runAll call {} crowdedCalls).2.call (.action 2 [7, 7])).1 = .error .full :=
    call_action_of_full (sound_after crowdedCalls) hcrowded 2 (by decide)
  have h := refused_untraced crowdedCalls (.action 2 [7, 7]) .full hrefused
  have hlater := h.2 laterCalls
  exact ⟨hrefused, by decide +kernel, h.1.2.2, hlater.1, hlater.2.2.2⟩

end RoomControl.ProgramBuilder
