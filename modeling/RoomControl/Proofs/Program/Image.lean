import RoomControl.Proofs.Program.Builder
import RoomControl.Proofs.Program.Grammar

/-!
# The image that a builder writes

A builder computes its offsets from the sizes of its entries, and writes the entries themselves in a
second pass. The first half of this module shows that the two passes agree: every offset is the
number of bytes that stand before the part it leads to. So the image is a text of the grammar
(`grammar_of_spells`), it is read, and it holds the program that the calls described, which is
`assemble_stored`.

`NarrowsExactly` collects the places where the builder stores a number in a byte or a word. None of
them loses anything, because the tables have little room.
-/

set_option autoImplicit false

namespace RoomControl

/-! ## Sizes and offsets -/

section Sizes

variable {α : Type} {size : α → Nat} {parts : List α}

/-- Sizes add up to the length of the parts that have them. -/
theorem totalSize_eq_length {toBytes : α → Bytes} (h : ∀ x ∈ parts, (toBytes x).length = size x) :
    totalSize (parts.map size) = (parts.flatMap toBytes).length := by
  induction parts with
  | nil => rfl
  | cons x rest ih =>
    rw [List.flatMap_cons, List.length_append, h x (List.mem_cons_self ..),
      ← ih fun y hy => h y (List.mem_cons_of_mem _ hy)]
    rfl

theorem totalSize_append (first second : List Nat) :
    totalSize (first ++ second) = totalSize first + totalSize second := by
  induction first with
  | nil => exact (Nat.zero_add _).symm
  | cons n rest ih =>
    show n + totalSize (rest ++ second) = n + totalSize rest + totalSize second
    rw [ih, Nat.add_assoc]

theorem totalSize_le {most : Nat} (h : ∀ x ∈ parts, size x ≤ most) :
    totalSize (parts.map size) ≤ parts.length * most := by
  induction parts with
  | nil => exact Nat.zero_le _
  | cons x rest ih =>
    have hx := h x (List.mem_cons_self ..)
    have hrest := ih fun y hy => h y (List.mem_cons_of_mem _ hy)
    show size x + totalSize (rest.map size) ≤ _
    rw [List.length_cons, Nat.succ_mul]
    omega

/-- Of parts that are spelled out one after the other, each stands behind those before it. -/
theorem spells_getElem {contents : Nat → UInt8} {pos : Nat} {toBytes : α → Bytes}
    (h : Spells contents pos (parts.flatMap toBytes)) {i : Nat} (hi : i < parts.length) :
    Spells contents (partStart toBytes pos (parts.take i)) (toBytes parts[i]) := by
  have hsplit : parts = parts.take i ++ (parts[i] :: parts.drop (i + 1)) := by
    rw [← List.drop_eq_getElem_cons hi, List.take_append_drop]
  rw [hsplit, List.flatMap_append, List.flatMap_cons, spells_append, spells_append] at h
  exact h.2.1

end Sizes

namespace ProgramBuilder

section Views

variable (b : ProgramBuilder)

/-- What is stored for an evaluation. -/
def stored (e : EvaluationEntry) : StoredEvaluation where
  conditions := e.conditions
  references := (b.referencesOf e).map fun handle => UInt16.ofNat (b.actionOffset handle)
  countable := by
    rw [List.length_map]
    exact Nat.lt_of_le_of_lt (List.length_take_le ..) e.referencesLength.toNat_lt

def storedStates : List (List StoredEvaluation) :=
  b.states.map fun s => (b.evaluationsOf s).map b.stored

def layout : Layout := ⟨b.states.length, b.actionTable, b.length⟩

theorem length_table : b.table.length = b.actions.length := List.length_map _

theorem length_storedStates : b.storedStates.length = b.states.length := List.length_map _

/-- The offset of the state with a number. -/
def stateOffset (i : Nat) : Nat :=
  b.headerLength + totalSize ((b.states.take i).map b.stateLength)

theorem length_stateTable (offset : Nat) (states : List StateEntry) :
    (b.stateTable offset states).length = 2 * states.length := by
  induction states generalizing offset with
  | nil => rfl
  | cons s rest ih =>
    rw [stateTable, List.length_append, ih, List.length_cons]
    show 2 + _ = _
    omega

theorem spells_stateTable {contents : Nat → UInt8} {pos offset : Nat} {states : List StateEntry}
    (h : Spells contents pos (b.stateTable offset states)) {i : Nat} (hi : i < states.length) :
    wordIn contents (pos + 2 * i) =
      UInt16.ofNat (offset + totalSize ((states.take i).map b.stateLength)) := by
  induction states generalizing pos offset i with
  | nil => cases hi
  | cons s rest ih =>
    rw [stateTable, offsetBytes, spells_append, spells_wordBytes] at h
    obtain ⟨hword, hrest⟩ := h
    cases i with
    | zero => exact hword
    | succ i =>
      have hnext := ih hrest (Nat.lt_of_succ_lt_succ hi)
      have hpos : pos + (wordBytes (UInt16.ofNat offset)).length + 2 * i = pos + 2 * (i + 1) := by
        show pos + 2 + 2 * i = _
        omega
      rw [hpos, Nat.add_assoc] at hnext
      exact hnext

end Views

variable {b : ProgramBuilder} (sound : b.Sound)

include sound

/-! ### The parts as they are written -/

theorem length_referencesOf {e : EvaluationEntry} (he : e ∈ b.evaluations) :
    (b.referencesOf e).length = e.referencesLength.toNat :=
  length_window (sound.reference e he)

theorem length_evaluationsOf {s : StateEntry} (hs : s ∈ b.states) :
    (b.evaluationsOf s).length = s.evaluationsLength.toNat :=
  length_window (sound.evaluation s hs)

theorem length_valueOf {a : ActionEntry} (ha : a ∈ b.actions) :
    (b.valueOf a).length = a.valueLength.toNat :=
  length_window (sound.value a ha).1

theorem lt_length_table {e : EvaluationEntry} {handle : UInt8} (h : handle ∈ b.referencesOf e) :
    handle.toNat < b.table.length := by
  rw [length_table]
  exact sound.known handle (mem_of_mem_window h)

theorem evaluationBytes_eq {e : EvaluationEntry} (he : e ∈ b.evaluations) :
    b.evaluationBytes e = (b.stored e).toBytes := by
  simp only [evaluationBytes, StoredEvaluation.toBytes, counted, stored, List.length_map,
    length_referencesOf sound he, UInt8.ofNat_toNat, List.flatMap_map]
  rfl

theorem length_evaluationBytes {e : EvaluationEntry} (he : e ∈ b.evaluations) :
    (b.evaluationBytes e).length = e.size := by
  have hlength : (b.stored e).references.length = e.referencesLength.toNat := by
    rw [stored, List.length_map, length_referencesOf sound he]
  rw [evaluationBytes_eq sound he, StoredEvaluation.length_toBytes, hlength]
  rfl

theorem stateBytes_eq {s : StateEntry} (hs : s ∈ b.states) :
    b.stateBytes s = counted StoredEvaluation.toBytes ((b.evaluationsOf s).map b.stored) := by
  rw [counted, List.length_map, length_evaluationsOf sound hs, UInt8.ofNat_toNat, List.flatMap_map,
    stateBytes]
  congr 1
  exact flatMap_congr_mem fun e he => evaluationBytes_eq sound (mem_of_mem_window he)

theorem length_stateBytes {s : StateEntry} : (b.stateBytes s).length = b.stateLength s := by
  have hsizes : totalSize ((b.evaluationsOf s).map EvaluationEntry.size) =
      ((b.evaluationsOf s).flatMap b.evaluationBytes).length :=
    totalSize_eq_length fun e he => length_evaluationBytes sound (mem_of_mem_window he)
  rw [stateBytes, List.length_cons, stateLength, hsizes, Nat.add_comm]

theorem actionBytes_eq {a : ActionEntry} (ha : a ∈ b.actions) :
    b.actionBytes a = (b.actionOf a).toBytes := by
  have hlength := length_valueOf sound ha
  have hvalue : (b.actionOf a).value.bytes = b.valueOf a :=
    List.take_of_length_le (hlength ▸ (sound.value a ha).2)
  rw [Action.toBytes, Buffer.size, hvalue, hlength, UInt8.ofNat_toNat]
  rfl

theorem length_actionBytes {a : ActionEntry} (ha : a ∈ b.actions) :
    (b.actionBytes a).length = a.size := by
  rw [actionBytes, List.length_cons, List.length_cons, length_valueOf sound ha, ActionEntry.size]
  omega

/-! ### Offsets -/

theorem actionTable_eq : b.actionTable = b.headerLength + (b.states.flatMap b.stateBytes).length := by
  rw [actionTable, totalSize_eq_length fun s _ => length_stateBytes sound]

/-- A state is written where its offset leads. -/
theorem stateOffset_eq_partStart (i : Nat) :
    b.stateOffset i = partStart b.stateBytes b.headerLength (b.states.take i) := by
  rw [stateOffset, partStart, totalSize_eq_length fun s _ => length_stateBytes sound]

/-- An action is written where its offset leads. -/
theorem actionOffset_eq_partStart (handle : UInt8) : b.actionOffset handle =
    partStart Action.toBytes (b.actionTable + 1) (b.table.take handle.toNat) := by
  have htaken : ∀ a ∈ b.actions.take handle.toNat, a ∈ b.actions := fun a => List.mem_of_mem_take
  rw [actionOffset, partStart, table, ← List.map_take, List.flatMap_map,
    totalSize_eq_length fun a ha => length_actionBytes sound (htaken a ha)]
  congr 2
  exact flatMap_congr_mem fun a ha => actionBytes_eq sound (htaken a ha)

theorem flatMap_actionBytes :
    b.actions.flatMap b.actionBytes = b.table.flatMap Action.toBytes := by
  rw [table, List.flatMap_map]
  exact flatMap_congr_mem fun a ha => actionBytes_eq sound ha

theorem length_eq_partStart : b.length = partStart Action.toBytes (b.actionTable + 1) b.table := by
  have hactions := sound.actions_le
  unfold maxActions at hactions
  have hhandle : (UInt8.ofNat b.actions.length).toNat = b.actions.length := toNat_byte (by omega)
  have htake : b.table.take b.actions.length = b.table :=
    List.take_of_length_le (Nat.le_of_eq b.length_table)
  rw [length, actionOffset_eq_partStart sound, hhandle, htake]

/-- **The image is as long as the builder says.** -/
theorem length_image : b.image.length = b.length := by
  have hheader : b.headerLength = 2 + 2 * b.states.length + 2 := rfl
  rw [length_eq_partStart sound, partStart, ← flatMap_actionBytes sound, actionTable_eq sound, hheader]
  simp only [image, List.length_append, List.length_cons, length_stateTable]
  show 2 * b.states.length + 1 + 1 + 2 + _ + (_ + 1) = _
  omega

/-! ## Room enough for 16-bit offsets -/

omit sound in
/-- The states take a byte each, besides their evaluations. -/
theorem totalSize_states (states : List StateEntry) :
    totalSize (states.map b.stateLength) =
      states.length + totalSize ((states.flatMap b.evaluationsOf).map EvaluationEntry.size) := by
  induction states with
  | nil => rfl
  | cons s rest ih =>
    rw [List.flatMap_cons, List.map_append, totalSize_append, List.length_cons]
    show b.stateLength s + totalSize (rest.map b.stateLength) = _
    rw [ih, stateLength]
    omega

theorem length_le : b.length ≤ maxLength := by
  have hstates := sound.states_le
  have hevaluations := sound.evaluations_le
  have hactions := sound.actions_le
  unfold maxStates at hstates
  unfold maxEvaluations at hevaluations
  unfold maxActions at hactions
  have hevaluation : ∀ e ∈ b.evaluations, e.size ≤ 519 := by
    intro e _
    have hlt := e.referencesLength.toNat_lt
    unfold EvaluationEntry.size Conditions.size portCount
    omega
  have haction : ∀ a ∈ b.actions, a.size ≤ 34 := by
    intro a ha
    have hmax := (sound.value a ha).2
    unfold Action.maxValue at hmax
    unfold ActionEntry.size
    omega
  have hhandle : (UInt8.ofNat b.actions.length).toNat = b.actions.length := toNat_byte (by omega)
  -- every evaluation belongs to one state, so there is room for all states together
  have hbefore := totalSize_states (b := b) b.states
  rw [sound.shared] at hbefore
  have htable := totalSize_le hevaluation
  have hend := totalSize_le haction
  rw [length, actionOffset, hhandle, List.take_length, actionTable, hbefore, headerLength]
  unfold Layout.headerEnd maxLength
  omega

omit sound in
theorem stateOffset_le (i : Nat) : b.stateOffset i ≤ b.actionTable := by
  have hsplit := totalSize_append ((b.states.take i).map b.stateLength)
    ((b.states.drop i).map b.stateLength)
  rw [← List.map_append, List.take_append_drop] at hsplit
  rw [stateOffset, actionTable, hsplit]
  omega

omit sound in
theorem actionTable_lt (handle : UInt8) : b.actionTable < b.actionOffset handle := by
  unfold actionOffset
  omega

theorem actionOffset_le (handle : UInt8) : b.actionOffset handle ≤ b.length := by
  rw [actionOffset_eq_partStart sound, length_eq_partStart sound, partStart, partStart]
  have hsplit := congrArg List.length
    (congrArg (List.flatMap Action.toBytes) (List.take_append_drop handle.toNat b.table))
  rw [List.flatMap_append, List.length_append] at hsplit
  omega

/-- Every number that the builder narrows to a byte or a word is small enough for it. -/
structure NarrowsExactly (b : ProgramBuilder) : Prop where
  actions : (UInt8.ofNat b.actions.length).toNat = b.actions.length
  valueStart : (UInt16.ofNat b.values.length).toNat = b.values.length
  valueLength : ∀ value : Bytes, ¬ value.length > Action.maxValue →
    (UInt8.ofNat value.length).toNat = value.length
  states : (UInt8.ofNat b.states.length).toNat = b.states.length
  evaluationsStart : (UInt8.ofNat b.evaluations.length).toNat = b.evaluations.length
  evaluationsLength : ∀ s ∈ b.states,
    s.lengthen.evaluationsLength.toNat = s.evaluationsLength.toNat + 1
  referencesStart : (UInt8.ofNat b.references.length).toNat = b.references.length
  referencesLength : ∀ handles : List Nat, ¬ b.references.length + handles.length > maxReferences →
    (UInt8.ofNat handles.length).toNat = handles.length
  handle : ∀ i, ¬ i ≥ b.actions.length → (UInt8.ofNat i).toNat = i
  stateOffset : ∀ i, (UInt16.ofNat (b.stateOffset i)).toNat = b.stateOffset i
  actionTable : (UInt16.ofNat b.actionTable).toNat = b.actionTable
  actionOffset : ∀ handle, (UInt16.ofNat (b.actionOffset handle)).toNat = b.actionOffset handle

theorem narrowsExactly : b.NarrowsExactly := by
  have hactions := sound.actions_le
  have hvalues := sound.values_le
  have hevaluations := sound.evaluations_le
  have hreferences := sound.references_le
  have hstates := sound.states_le
  have hlength := length_le sound
  have htable := actionTable_lt (b := b) 0
  have hlast := actionOffset_le sound 0
  unfold maxActions at hactions
  unfold maxValueBytes at hvalues
  unfold maxEvaluations at hevaluations
  unfold maxReferences at hreferences
  unfold maxStates at hstates
  unfold maxLength at hlength
  constructor
  case actions => exact toNat_byte (by omega)
  case valueStart => exact toNat_short (by omega)
  case valueLength =>
    intro value h
    unfold Action.maxValue at h
    exact toNat_byte (by omega)
  case states => exact toNat_byte (by omega)
  case evaluationsStart => exact toNat_byte (by omega)
  case evaluationsLength =>
    intro s hs
    have hin := sound.evaluation s hs
    show (s.evaluationsLength + 1).toNat = _
    rw [UInt8.toNat_add]
    exact Nat.mod_eq_of_lt (by show _ + 1 < 256; omega)
  case referencesStart => exact toNat_byte (by omega)
  case referencesLength =>
    intro handles h
    unfold maxReferences at h
    exact toNat_byte (by omega)
  case handle =>
    intro i h
    exact toNat_byte (by omega)
  case stateOffset =>
    intro i
    have hle := stateOffset_le (b := b) i
    exact toNat_short (by omega)
  case actionTable => exact toNat_short (by omega)
  case actionOffset =>
    intro handle
    have hle := actionOffset_le sound handle
    exact toNat_short (by omega)

/-! ## The image as a text -/

section Text

variable {contents : Nat → UInt8} (h : Spells contents 0 b.image)

include h

theorem spells_image : (contents 1).toNat = b.states.length ∧
    Spells contents 2 (b.stateTable b.headerLength b.states) ∧
    wordIn contents (b.headerLength - 2) = UInt16.ofNat b.actionTable ∧
    Spells contents b.headerLength (b.states.flatMap b.stateBytes) ∧
    Spells contents b.actionTable (counted Action.toBytes b.table) := by
  have hheader : b.headerLength = 2 + 2 * b.states.length + 2 := rfl
  have htable := length_stateTable b b.headerLength b.states
  simp only [image, spells_append, spells_cons, offsetBytes, spells_wordBytes, List.length_append,
    List.length_cons, htable] at h
  obtain ⟨⟨⟨⟨-, hcount, hstates⟩, hword⟩, hparts⟩, hactions⟩ := h
  -- what is left is to name the positions at which the five parts of the image stand
  have hpos : 0 + (2 * b.states.length + 1 + 1) = b.headerLength - 2 := by omega
  have hpos' : 0 + (2 * b.states.length + 1 + 1 +
      (wordBytes (UInt16.ofNat b.actionTable)).length) = b.headerLength := by
    show 0 + (2 * b.states.length + 1 + 1 + 2) = _
    omega
  refine ⟨?_, hstates, hpos ▸ hword, hpos' ▸ hparts, ?_⟩
  · rw [hcount]
    exact (narrowsExactly sound).states
  · rw [counted, spells_cons, ← flatMap_actionBytes sound, length_table, actionTable_eq sound,
      ← hpos']
    simpa only [Nat.add_assoc] using hactions

theorem stateStart_eq {i : Nat} (hi : i < b.states.length) :
    Layout.stateStart contents i = b.stateOffset i := by
  rw [Layout.stateStart, spells_stateTable b (spells_image sound h).2.1 hi]
  exact (narrowsExactly sound).stateOffset i

/-- A state is spelled out where its offset leads, and ends in front of the action table. -/
theorem stateText_of_spells {i : Nat} (hi : i < b.storedStates.length) :
    Layout.StateText contents b.layout b.table (b.stateOffset i) b.storedStates[i] := by
  have hlt : i < b.states.length := b.length_storedStates ▸ hi
  have hbytes : b.stateBytes b.states[i] = counted StoredEvaluation.toBytes b.storedStates[i] := by
    rw [stateBytes_eq sound (List.getElem_mem hlt)]
    simp only [storedStates, List.getElem_map]
  -- the state ends where the next one would start, and the table is behind all of them
  have hnext : b.stateOffset i + (b.stateBytes b.states[i]).length ≤ b.actionTable := by
    have hle := stateOffset_le (b := b) (i + 1)
    rw [stateOffset, List.take_succ_eq_append_getElem hlt, List.map_append, totalSize_append] at hle
    rw [length_stateBytes sound, stateOffset, Nat.add_assoc]
    exact hle
  constructor
  case start_le => exact Nat.le_add_right ..
  case start_lt =>
    rw [hbytes, length_counted] at hnext
    show b.stateOffset i < b.actionTable
    omega
  case stop_le => exact hbytes ▸ hnext
  case countable =>
    simp only [storedStates, List.getElem_map, List.length_map]
    exact Nat.lt_of_le_of_lt (List.length_take_le ..) (UInt8.toNat_lt _)
  case spells =>
    rw [← hbytes, stateOffset_eq_partStart sound]
    exact spells_getElem (spells_image sound h).2.2.2.1 hlt
  case references =>
    intro e he offset ho
    simp only [storedStates, List.getElem_map, List.mem_map] at he
    obtain ⟨entry, -, rfl⟩ := he
    obtain ⟨handle, hhandle, rfl⟩ := List.mem_map.mp ho
    refine ⟨handle.toNat, lt_length_table sound hhandle, ?_⟩
    rw [(narrowsExactly sound).actionOffset, actionOffset_eq_partStart sound]
    rfl

/-- **The image is the text of a program**, with the parts that the builder holds. -/
theorem grammar_of_spells {size : Nat} (hsize : b.length ≤ size) :
    b.layout.Grammar contents size b.storedStates b.table := by
  obtain ⟨hcount, -, hword, -, hactions⟩ := spells_image sound h
  have htable : b.headerLength ≤ b.actionTable := Nat.le_add_right ..
  have hend : b.actionTable < b.length := actionTable_lt _
  have hlength : b.length = b.actionTable + (counted Action.toBytes b.table).length := by
    rw [length_eq_partStart sound, partStart, length_counted, Nat.add_assoc]
  constructor
  case count_eq => rw [hcount, length_storedStates]
  case stateCount_eq => exact b.length_storedStates.symm
  case header_fits => exact Nat.le_trans htable (Nat.le_of_lt (Nat.lt_of_lt_of_le hend hsize))
  case table_eq =>
    show b.actionTable = (wordIn contents (b.headerLength - 2)).toNat
    rw [hword, (narrowsExactly sound).actionTable]
  case header_le => exact htable
  case table_lt => exact Nat.lt_of_lt_of_le hend hsize
  case countable =>
    have hle := sound.actions_le
    unfold maxActions at hle
    rw [length_table]
    omega
  case table => exact hactions
  case length_eq => exact hlength
  case length_le => exact hsize
  case states =>
    intro i hi
    rw [stateStart_eq sound h (b.length_storedStates ▸ hi)]
    exact stateText_of_spells sound h hi

/-- A stored evaluation leads to the actions that the builder refers to. -/
theorem rule_stored (e : EvaluationEntry) : (b.stored e).rule contents = b.ruleOf e := by
  have g := grammar_of_spells sound h (Nat.le_refl _)
  have hactions : (b.stored e).references.map (fun offset =>
      Layout.actionAt contents offset.toNat) =
        (b.referencesOf e).filterMap fun handle => b.table[handle.toNat]? := by
    rw [stored, List.map_map, ← List.filterMap_eq_map]
    refine filterMap_congr fun handle hhandle => ?_
    have hlt := lt_length_table sound hhandle
    rw [List.getElem?_eq_getElem hlt, ← g.actionAt_eq hlt]
    show some (Layout.actionAt contents (UInt16.ofNat (b.actionOffset handle)).toNat) = _
    rw [(narrowsExactly sound).actionOffset, actionOffset_eq_partStart sound]
    rfl
  rw [StoredEvaluation.rule, hactions]
  rfl

/-- **The text holds the program of the builder.** -/
theorem chart_of_spells : b.layout.chart contents = b.blueprint.states := by
  have g := grammar_of_spells sound h (Nat.le_refl _)
  refine List.ext_getElem (by simp [Layout.chart, layout, blueprint]) fun i hi hi' => ?_
  have hlt : i < b.storedStates.length := by simpa [Layout.chart, layout, storedStates] using hi
  simp only [Layout.chart, List.getElem_map, List.getElem_range, blueprint, rulesOf]
  rw [g.stateRules_eq hlt]
  simp only [storedStates, List.getElem_map, List.map_map]
  exact List.map_congr_left fun e _ => rule_stored sound h e

end Text

/-! ## The round trip -/

section RoundTrip

omit sound

/-- The numbers that calls take and give are those of the blueprint. -/
structure NumbersAs (b : ProgramBuilder) (plan : Blueprint) : Prop where
  action : ∀ device value handle, (b.action device value).1 = .ok handle →
    handle.toNat = plan.actions.length
  state : ∀ number, b.state.1 = .ok number → number.toNat = plan.states.length
  evaluation : ∀ conditions handles, (b.evaluation conditions handles).1 = .ok () →
    ∀ i ∈ handles, i < plan.actions.length

variable {plan : Blueprint}

theorem Built.numbersAs (built : b.Built plan) : b.NumbersAs plan := by
  obtain ⟨sound, rfl⟩ := built
  have narrow := narrowsExactly sound
  have hactions : b.blueprint.actions.length = b.actions.length := b.length_table
  have hstates : b.blueprint.states.length = b.states.length := List.length_map _
  refine ⟨fun device value handle h => ?_, fun number h => ?_, fun conditions handles h i hi => ?_⟩
  · unfold ProgramBuilder.action at h
    dsimp only at h
    repeat' split at h
    all_goals cases h
    rw [narrow.actions, hactions]
  · unfold ProgramBuilder.state at h
    dsimp only at h
    split at h
    · cases h
      rw [narrow.states, hstates]
    · cases h
  · rw [hactions]
    by_cases hunknown : ∃ i ∈ handles, i ≥ b.actions.length
    · unfold ProgramBuilder.evaluation at h
      rw [if_pos hunknown] at h
      split at h <;> cases h
    · exact Nat.lt_of_not_le fun hle => hunknown ⟨i, hi, hle⟩

/-- A builder writes its image over the start of a buffer that has room for it. -/
theorem Sound.write_eq (sound : b.Sound) (buffer : Bytes) :
    b.write buffer = if buffer.length < b.length then .error .tooLarge
      else .ok (b.length, b.image ++ buffer.drop b.length) := by
  have hlength : ¬ b.length > maxLength := Nat.not_lt.mpr (length_le sound)
  rw [write, length_image sound]
  by_cases hroom : buffer.length < b.length
  · rw [if_pos (.inl hroom), if_pos hroom]
  · rw [if_neg (not_or.mpr ⟨hroom, hlength⟩), if_neg hroom]

/-- The image is read from any memory that has room for it. -/
theorem Built.read_load (built : b.Built plan) {m : ProgramMemory} (answers : m.Answers 1 m.capacity)
    (hroom : b.length ≤ m.capacity) (hcapacity : m.capacity ≤ 65535) :
    Layout.read (m.load b.image) = .ok b.layout ∧
      b.layout.chart (m.load b.image).byteAt = plan.states := by
  obtain ⟨sound, rfl⟩ := built
  have hsize : (m.load b.image).size = m.capacity := by
    rw [ProgramMemory.size, ProgramMemory.capacity_load]
    exact Nat.min_eq_left hcapacity
  have hspells : Spells (m.load b.image).byteAt 0 b.image :=
    ProgramMemory.stretch_load (length_image sound ▸ hroom)
  have serves : (m.load b.image).Serves (m.load b.image).byteAt 1 (m.load b.image).size := by
    refine ProgramMemory.serves_of_answers ?_ (Nat.min_le_left ..) ?_
    · rw [hsize]
      exact answers
    · rw [ProgramMemory.capacity_load]
      omega
  have g := grammar_of_spells sound hspells (hsize ▸ hroom)
  exact ⟨Layout.read_of_wellFormed g.wellFormed serves, chart_of_spells sound hspells⟩

/-- **What is assembled can be stored and read back.** Whatever calls are made to a builder, refused
ones included: it writes its image into every buffer that has room for it, and loses no number on the
way. The image is read from every memory that has room for it, and what is read is the program that
the accepted calls describe. -/
theorem assemble_stored (calls : List BuilderCall) :
    let b := (assemble calls).1
    let plan := (assemble calls).2
    b.NumbersAs plan ∧ b.NarrowsExactly ∧ b.image.length = b.length ∧
      (∀ buffer, b.write buffer =
        if buffer.length < b.length then .error .tooLarge
        else .ok (b.length, b.image ++ buffer.drop b.length)) ∧
      ∀ m : ProgramMemory, m.Answers 1 m.capacity → b.length ≤ m.capacity → m.capacity ≤ 65535 →
        ∃ layout, Layout.read (m.load b.image) = .ok layout ∧
          layout.stateCount = plan.states.length ∧ layout.length = b.length ∧
          layout.chart (m.load b.image).byteAt = plan.states := by
  intro b plan
  have built : b.Built plan := built_assemble calls
  refine ⟨built.numbersAs, narrowsExactly built.sound, length_image built.sound,
    built.sound.write_eq, fun m answers hroom hcapacity => ?_⟩
  obtain ⟨hread, hchart⟩ := built.read_load answers hroom hcapacity
  refine ⟨b.layout, hread, ?_, rfl, hchart⟩
  rw [← built.blueprint_eq]
  exact (List.length_map _).symm

/-- An evaluation is refused before the first state; the rest switches a light on. -/
def lightCalls : List BuilderCall :=
  let always : Conditions := Vector.replicate portCount ⟨0, 0⟩
  [.action 0x83 [1], .evaluation always [0], .state, .evaluation always [0]]

theorem lightCalls_stored :
    let m := ProgramMemory.erased 64
    let b := (assemble lightCalls).1
    m.Answers 1 m.capacity ∧ b.length ≤ m.capacity ∧ m.capacity ≤ 65535 ∧
      ∃ layout, Layout.read (m.load b.image) = .ok layout ∧
        layout.stateCount = 1 ∧ layout.length = 22 ∧
        layout.chart (m.load b.image).byteAt =
          [[⟨Vector.replicate portCount ⟨0, 0⟩, [⟨0x83, ⟨[1], by decide⟩⟩]⟩]] := by
  intro m b
  have answers : m.Answers 1 m.capacity := fun _ _ _ _ => rfl
  have hroom : b.length ≤ m.capacity := by decide
  have hcapacity : m.capacity ≤ 65535 := by decide
  obtain ⟨-, -, -, -, hstored⟩ := assemble_stored lightCalls
  exact ⟨answers, hroom, hcapacity, hstored m answers hroom hcapacity⟩

end RoundTrip

end ProgramBuilder

end RoomControl
