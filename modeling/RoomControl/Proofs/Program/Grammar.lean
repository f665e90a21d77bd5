import RoomControl.Proofs.Program.Decoding

/-!
# The grammar of a program

What a program looks like as a text. `Layout.Grammar` says that the bytes of a memory are a header,
an action table and states, each spelled out as a part of the program would be written; it mentions
neither a walk nor a reader. `read_eq_ok_iff` is the law: `Layout.read` accepts exactly the texts of
this grammar.

The text leaves room. States may stand in any order, they may share bytes, and there may be bytes
between the last state and the action table, so a program has more than one text.
-/

set_option autoImplicit false

namespace RoomControl

/-- The bytes that `contents` shows from `pos` on begin with `data`. -/
def Spells (contents : Nat → UInt8) (pos : Nat) (data : Bytes) : Prop :=
  stretch contents pos data.length = data

section Spelling

variable {contents : Nat → UInt8} {pos : Nat}

@[simp] theorem spells_nil : Spells contents pos [] := rfl

theorem spells_append {first second : Bytes} :
    Spells contents pos (first ++ second) ↔
      Spells contents pos first ∧ Spells contents (pos + first.length) second := by
  rw [Spells, List.length_append, stretch_add]
  constructor
  · intro h
    exact List.append_inj h (length_stretch ..)
  · rintro ⟨hfirst, hsecond⟩
    rw [hfirst, hsecond]

theorem spells_singleton {b : UInt8} : Spells contents pos [b] ↔ contents pos = b := by
  simp [Spells, stretch]

theorem spells_cons {b : UInt8} {rest : Bytes} :
    Spells contents pos (b :: rest) ↔ contents pos = b ∧ Spells contents (pos + 1) rest := by
  rw [← List.singleton_append, spells_append, spells_singleton, List.length_singleton]

theorem spells_stretch (n : Nat) : Spells contents pos (stretch contents pos n) := by
  rw [Spells, length_stretch]

theorem spells_wordBytes {w : UInt16} :
    Spells contents pos (wordBytes w) ↔ wordIn contents pos = w := by
  rw [wordBytes, spells_cons, spells_singleton]
  constructor
  · rintro ⟨hhigh, hlow⟩
    rw [wordIn, hhigh, hlow, word_highByte_lowByte]
  · rintro rfl
    rw [wordIn, highByte_word, lowByte_word]
    exact ⟨rfl, rfl⟩

end Spelling

/-! ## The parts of a program -/

/-- An action as it stands in the table. -/
def Action.toBytes (a : Action) : Bytes := a.device :: UInt8.ofNat a.value.size :: a.value.bytes

/-- An evaluation as it is stored, with the offsets of its actions. -/
structure StoredEvaluation where
  conditions : Conditions
  references : List UInt16
  /-- The number of references is a byte. -/
  countable : references.length < 256

/-- Parts behind their number, which is a byte. -/
def counted {α : Type} (toBytes : α → Bytes) (parts : List α) : Bytes :=
  UInt8.ofNat parts.length :: parts.flatMap toBytes

def StoredEvaluation.toBytes (e : StoredEvaluation) : Bytes :=
  e.conditions.toBytes ++ counted wordBytes e.references

/-- The rule that an evaluation stores, with its actions looked up. -/
def StoredEvaluation.rule (contents : Nat → UInt8) (e : StoredEvaluation) : Rule :=
  ⟨e.conditions, e.references.map fun offset => Layout.actionAt contents offset.toNat⟩

/-- Where a part stands that has these parts before it. -/
def partStart {α : Type} (toBytes : α → Bytes) (pos : Nat) (before : List α) : Nat :=
  pos + (before.flatMap toBytes).length

section Parts

variable {contents : Nat → UInt8} {pos : Nat}

theorem spells_counted {α : Type} {toBytes : α → Bytes} {parts : List α} (h : parts.length < 256) :
    Spells contents pos (counted toBytes parts) ↔
      (contents pos).toNat = parts.length ∧ Spells contents (pos + 1) (parts.flatMap toBytes) := by
  rw [counted, spells_cons, ← UInt8.toNat_inj, UInt8.toNat_ofNat', Nat.mod_eq_of_lt h]

@[simp] theorem length_counted {α : Type} (toBytes : α → Bytes) (parts : List α) :
    (counted toBytes parts).length = 1 + (parts.flatMap toBytes).length := by
  rw [counted, List.length_cons, Nat.add_comm]

theorem partStart_cons {α : Type} (toBytes : α → Bytes) (pos : Nat) (first : α) (rest : List α) :
    partStart toBytes pos (first :: rest) = partStart toBytes (pos + (toBytes first).length) rest := by
  rw [partStart, partStart, List.flatMap_cons, List.length_append, Nat.add_assoc]

/-! ### Actions -/

@[simp] theorem Action.length_toBytes (a : Action) : a.toBytes.length = 2 + a.value.size := by
  simp only [Action.toBytes, List.length_cons, Buffer.size]
  omega

theorem spells_action {a : Action} (h : Spells contents pos a.toBytes) :
    contents pos = a.device ∧ (contents (pos + 1)).toNat = a.value.size ∧
      Spells contents (pos + 2) a.value.bytes := by
  obtain ⟨hdevice, h⟩ := spells_cons.mp h
  obtain ⟨hsize, hvalue⟩ := spells_cons.mp h
  refine ⟨hdevice, ?_, hvalue⟩
  have hfits : a.value.size ≤ 32 := a.value.fits
  rw [hsize, UInt8.toNat_ofNat']
  omega

/-- The action that is spelled out is the one that is looked up. -/
theorem actionAt_of_spells {a : Action} (h : Spells contents pos a.toBytes) :
    Layout.actionAt contents pos = a := by
  obtain ⟨hdevice, hsize, hvalue⟩ := spells_action h
  have hbytes : stretch contents (pos + 2) (contents (pos + 1)).toNat = a.value.bytes := by
    rw [hsize]
    exact hvalue
  obtain ⟨device, value⟩ := a
  simp only [Layout.actionAt, hbytes, hdevice]
  congr 1
  exact Buffer.ext (List.take_of_length_le value.fits)

theorem spells_actionAt (h : (contents (pos + 1)).toNat ≤ Action.maxValue) :
    Spells contents pos (Layout.actionAt contents pos).toBytes ∧
      pos + (Layout.actionAt contents pos).toBytes.length = Layout.nextRecord contents pos := by
  have hbytes : (Layout.actionAt contents pos).value.bytes =
      stretch contents (pos + 2) (contents (pos + 1)).toNat :=
    List.take_of_length_le (by rw [length_stretch]; exact h)
  have hsize : (Layout.actionAt contents pos).value.size = (contents (pos + 1)).toNat := by
    rw [Buffer.size, hbytes, length_stretch]
  constructor
  · rw [Action.toBytes, spells_cons, spells_cons, hsize, UInt8.ofNat_toNat, hbytes]
    exact ⟨rfl, rfl, spells_stretch _⟩
  · rw [Action.length_toBytes, hsize, Layout.nextRecord, Nat.add_assoc]

/-- Actions that are spelled out one after the other are the records of a table. -/
theorem records_of_spells {actions : List Action}
    (h : Spells contents pos (actions.flatMap Action.toBytes)) :
    Layout.recordsEnd contents actions.length pos = partStart Action.toBytes pos actions ∧
      Layout.recordStarts contents actions.length pos =
        (List.range actions.length).map (fun k => partStart Action.toBytes pos (actions.take k)) ∧
      (∀ k (hk : k < actions.length),
        Layout.actionAt contents (partStart Action.toBytes pos (actions.take k)) = actions[k]) ∧
      ∀ stop, partStart Action.toBytes pos actions ≤ stop →
        Layout.RecordsFit contents stop actions.length pos := by
  induction actions generalizing pos with
  | nil => exact ⟨rfl, rfl, nofun, fun _ _ => trivial⟩
  | cons a rest ih =>
    rw [List.flatMap_cons, spells_append] at h
    obtain ⟨hfirst, hrest⟩ := h
    obtain ⟨-, hsize, -⟩ := spells_action hfirst
    have hnext : Layout.nextRecord contents pos = pos + a.toBytes.length := by
      rw [Layout.nextRecord, hsize, Action.length_toBytes, Nat.add_assoc]
    obtain ⟨hend, hstarts, hactions, hfit⟩ := ih hrest
    refine ⟨?_, ?_, fun k hk => ?_, fun stop hstop => ?_⟩
    · rw [List.length_cons, Layout.recordsEnd, hnext, hend, partStart_cons]
    · rw [List.length_cons, Layout.recordStarts, hnext, hstarts, List.range_succ_eq_map,
        List.map_cons, List.map_map]
      congr 1
      refine List.map_congr_left fun k _ => ?_
      rw [Function.comp_apply, List.take_succ_cons, partStart_cons]
    · cases k with
      | zero => exact actionAt_of_spells hfirst
      | succ k =>
        rw [List.take_succ_cons, partStart_cons]
        exact hactions k (Nat.lt_of_succ_lt_succ hk)
    · rw [partStart_cons] at hstop
      refine ⟨?_, ?_, ?_⟩
      · rw [hsize]
        exact a.value.fits
      · rw [hnext]
        exact Nat.le_trans (Nat.le_add_right _ _) hstop
      · rw [hnext]
        exact hfit stop hstop

/-- The records of a table are spelled out one after the other. -/
theorem spells_of_records {stop n : Nat} (fit : Layout.RecordsFit contents stop n pos) :
    ∃ actions : List Action, actions.length = n ∧
      Spells contents pos (actions.flatMap Action.toBytes) := by
  induction n generalizing pos with
  | zero => exact ⟨[], rfl, spells_nil⟩
  | succ n ih =>
    obtain ⟨hmax, -, hrest⟩ := fit
    obtain ⟨hfirst, hnext⟩ := spells_actionAt hmax
    obtain ⟨rest, rfl, hspells⟩ := ih hrest
    refine ⟨Layout.actionAt contents pos :: rest, rfl, ?_⟩
    rw [List.flatMap_cons, spells_append, hnext]
    exact ⟨hfirst, hspells⟩

/-! ### Evaluations -/

theorem spells_references {offsets : List UInt16} :
    Spells contents pos (offsets.flatMap wordBytes) ↔
      Layout.references contents offsets.length pos = offsets := by
  induction offsets generalizing pos with
  | nil => exact ⟨fun _ => rfl, fun _ => rfl⟩
  | cons offset rest ih =>
    rw [List.flatMap_cons, spells_append, spells_wordBytes, List.length_cons, Layout.references,
      List.cons.injEq]
    exact and_congr_right fun _ => ih

theorem length_references (n : Nat) : (Layout.references contents n pos).length = n := by
  induction n generalizing pos with
  | zero => rfl
  | succ n ih => exact congrArg (· + 1) ih

theorem length_flatMap_wordBytes (offsets : List UInt16) :
    (offsets.flatMap wordBytes).length = 2 * offsets.length := by
  induction offsets with
  | nil => rfl
  | cons offset rest ih =>
    rw [List.flatMap_cons, List.length_append, ih, List.length_cons]
    show 2 + _ = _
    omega

@[simp] theorem StoredEvaluation.length_toBytes (e : StoredEvaluation) :
    e.toBytes.length = Conditions.size + 1 + 2 * e.references.length := by
  rw [toBytes, List.length_append, Conditions.length_toBytes, length_counted,
    length_flatMap_wordBytes, Nat.add_assoc]

/-- The evaluation that is stored at a position. -/
def storedAt (contents : Nat → UInt8) (pos : Nat) : StoredEvaluation :=
  ⟨.ofBytes (stretch contents pos Conditions.size), Layout.referencesOf contents pos, by
    rw [Layout.referencesOf, length_references]
    exact UInt8.toNat_lt _⟩

/-- An evaluation is spelled out where it is stored, and nothing else is. -/
theorem spells_evaluation_iff {e : StoredEvaluation} :
    Spells contents pos e.toBytes ↔ storedAt contents pos = e := by
  have hcount : Spells contents pos e.toBytes ↔
      stretch contents pos Conditions.size = e.conditions.toBytes ∧
        (contents (pos + Conditions.size)).toNat = e.references.length ∧
        Layout.references contents e.references.length (pos + Conditions.size + 1) = e.references := by
    rw [StoredEvaluation.toBytes, spells_append, Conditions.length_toBytes,
      spells_counted e.countable, spells_references, Spells, Conditions.length_toBytes]
  rw [hcount]
  constructor
  · rintro ⟨hconditions, hlength, hreferences⟩
    obtain ⟨conditions, offsets, hlt⟩ := e
    simp only [storedAt, Layout.referencesOf, hconditions, hlength, hreferences,
      Conditions.ofBytes_toBytes]
  · rintro rfl
    have hlength : (storedAt contents pos).references.length =
        (contents (pos + Conditions.size)).toNat := length_references _
    refine ⟨(Conditions.toBytes_ofBytes (length_stretch ..)).symm, hlength.symm, ?_⟩
    rw [hlength]
    rfl

theorem length_storedAt :
    pos + (storedAt contents pos).toBytes.length = Layout.nextEvaluation contents pos := by
  have hlength : (storedAt contents pos).references.length =
      (contents (pos + Conditions.size)).toNat := length_references _
  rw [StoredEvaluation.length_toBytes, hlength, Layout.nextEvaluation]
  omega

/-- The references of evaluations lead to `starts` only. -/
def ReferTo (starts : List Nat) (evaluations : List StoredEvaluation) : Prop :=
  ∀ e ∈ evaluations, ∀ offset ∈ e.references, offset.toNat ∈ starts

/-- Evaluations that are spelled out one after the other are the evaluations of a state. -/
theorem evaluations_of_spells {evaluations : List StoredEvaluation}
    (h : Spells contents pos (evaluations.flatMap StoredEvaluation.toBytes)) :
    Layout.rulesFrom contents evaluations.length pos = evaluations.map (StoredEvaluation.rule contents) ∧
      ∀ stop starts, partStart StoredEvaluation.toBytes pos evaluations ≤ stop →
        ReferTo starts evaluations →
        Layout.EvaluationsFit contents stop starts evaluations.length pos := by
  induction evaluations generalizing pos with
  | nil => exact ⟨rfl, fun _ _ _ _ => trivial⟩
  | cons e rest ih =>
    rw [List.flatMap_cons, spells_append] at h
    obtain ⟨hfirst, hrest⟩ := h
    obtain rfl := spells_evaluation_iff.mp hfirst
    rw [length_storedAt] at hrest
    obtain ⟨hrules, hfit⟩ := ih hrest
    refine ⟨?_, fun stop starts hstop refer => ?_⟩
    · rw [List.length_cons, Layout.rulesFrom, hrules]
      rfl
    · rw [partStart_cons, length_storedAt] at hstop
      refine ⟨Nat.le_trans (Nat.le_add_right _ _) hstop, refer _ (List.mem_cons_self ..), ?_⟩
      exact hfit stop starts hstop fun e he => refer e (List.mem_cons_of_mem _ he)

/-- The `n` evaluations that are stored from a position on. -/
def storedFrom (contents : Nat → UInt8) : (n pos : Nat) → List StoredEvaluation
  | 0, _ => []
  | n + 1, pos => storedAt contents pos :: storedFrom contents n (Layout.nextEvaluation contents pos)

theorem length_storedFrom (n : Nat) : (storedFrom contents n pos).length = n := by
  induction n generalizing pos with
  | zero => rfl
  | succ n ih => exact congrArg (· + 1) ih

/-- The evaluations of a state are spelled out one after the other. -/
theorem spells_of_evaluations {stop n : Nat} {starts : List Nat} (hpos : pos ≤ stop)
    (fit : Layout.EvaluationsFit contents stop starts n pos) :
    Spells contents pos ((storedFrom contents n pos).flatMap StoredEvaluation.toBytes) ∧
      partStart StoredEvaluation.toBytes pos (storedFrom contents n pos) ≤ stop ∧
      ReferTo starts (storedFrom contents n pos) := by
  induction n generalizing pos with
  | zero => exact ⟨spells_nil, hpos, nofun⟩
  | succ n ih =>
    obtain ⟨hnext, refs, hrest⟩ := fit
    obtain ⟨hspells, hstop, refer⟩ := ih hnext hrest
    refine ⟨?_, ?_, ?_⟩
    · rw [storedFrom, List.flatMap_cons, spells_append, length_storedAt]
      exact ⟨spells_evaluation_iff.mpr rfl, hspells⟩
    · rwa [storedFrom, partStart_cons, length_storedAt]
    · intro e he
      rcases List.mem_cons.mp he with rfl | he
      · exact refs
      · exact refer e he

end Parts

/-! ## The grammar -/

namespace Layout

/-- The text of a state: its evaluations, from `start` on. -/
structure StateText (contents : Nat → UInt8) (layout : Layout) (actions : List Action) (start : Nat)
    (evaluations : List StoredEvaluation) : Prop where
  /-- The state begins behind the header and ends in front of the action table. -/
  start_le : headerEnd layout.stateCount ≤ start
  start_lt : start < layout.actionTable
  stop_le : start + (counted StoredEvaluation.toBytes evaluations).length ≤ layout.actionTable
  countable : evaluations.length < 256
  spells : Spells contents start (counted StoredEvaluation.toBytes evaluations)
  /-- Every reference is the offset of an action. -/
  references : ∀ e ∈ evaluations, ∀ offset ∈ e.references, ∃ k, k < actions.length ∧
    offset.toNat = partStart Action.toBytes (layout.actionTable + 1) (actions.take k)

/-- The bytes are the text of a program with this layout, in a memory of `size` bytes: these states,
the evaluations of each, and these actions. -/
structure Grammar (contents : Nat → UInt8) (size : Nat) (layout : Layout)
    (states : List (List StoredEvaluation)) (actions : List Action) : Prop where
  /-- The number of states; their offsets, and that of the action table, end the header. -/
  count_eq : (contents 1).toNat = states.length
  stateCount_eq : layout.stateCount = states.length
  header_fits : headerEnd layout.stateCount ≤ size
  table_eq : layout.actionTable = (wordIn contents (headerEnd layout.stateCount - 2)).toNat
  /-- The action table begins behind the header, inside the memory. -/
  header_le : headerEnd layout.stateCount ≤ layout.actionTable
  table_lt : layout.actionTable < size
  /-- It holds the number of actions and the actions, up to the end of the program. -/
  countable : actions.length < 256
  table : Spells contents layout.actionTable (counted Action.toBytes actions)
  length_eq : layout.length = layout.actionTable + (counted Action.toBytes actions).length
  length_le : layout.length ≤ size
  states : ∀ i (hi : i < states.length),
    StateText contents layout actions (stateStart contents i) states[i]

variable {contents : Nat → UInt8} {size : Nat} {layout : Layout}
variable {states : List (List StoredEvaluation)} {actions : List Action}

/-- The actions of a table that is spelled out start where its records do. -/
theorem mem_starts_of_spells (hcount : (contents layout.actionTable).toNat = actions.length)
    (h : Spells contents (layout.actionTable + 1) (actions.flatMap Action.toBytes)) {start : Nat} :
    start ∈ starts contents layout ↔ ∃ k, k < actions.length ∧
      start = partStart Action.toBytes (layout.actionTable + 1) (actions.take k) := by
  rw [starts, hcount, (records_of_spells h).2.1, List.mem_map]
  constructor
  · rintro ⟨k, hk, rfl⟩
    exact ⟨k, List.mem_range.mp hk, rfl⟩
  · rintro ⟨k, hk, rfl⟩
    exact ⟨k, List.mem_range.mpr hk, rfl⟩

namespace Grammar

variable (g : layout.Grammar contents size states actions)

include g

theorem records : (contents layout.actionTable).toNat = actions.length ∧
    Spells contents (layout.actionTable + 1) (actions.flatMap Action.toBytes) :=
  (spells_counted g.countable).mp g.table

theorem length_eq_partStart :
    layout.length = partStart Action.toBytes (layout.actionTable + 1) actions := by
  rw [g.length_eq, length_counted, partStart, Nat.add_assoc]

theorem mem_starts_iff {start : Nat} : start ∈ starts contents layout ↔ ∃ k, k < actions.length ∧
    start = partStart Action.toBytes (layout.actionTable + 1) (actions.take k) :=
  mem_starts_of_spells g.records.1 g.records.2

/-- The offset of an action leads to it. -/
theorem actionAt_eq {k : Nat} (hk : k < actions.length) :
    actionAt contents (partStart Action.toBytes (layout.actionTable + 1) (actions.take k)) =
      actions[k] :=
  (records_of_spells g.records.2).2.2.1 k hk

/-- A state stores the rules of its evaluations. -/
theorem stateRules_eq {i : Nat} (hi : i < states.length) :
    stateRules contents i = states[i].map (StoredEvaluation.rule contents) := by
  have text := g.states i hi
  obtain ⟨hcount, hspells⟩ := (spells_counted text.countable).mp text.spells
  rw [stateRules, hcount]
  exact (evaluations_of_spells hspells).1

/-- **The text of a program is well-formed.** -/
theorem wellFormed : layout.WellFormed contents size := by
  obtain ⟨hcount, hspells⟩ := g.records
  obtain ⟨hend, -, -, hfit⟩ := records_of_spells hspells
  have hlength := g.length_eq_partStart
  refine ⟨?_, g.table_eq, g.header_le, g.table_lt, ?_, ?_, fun state hstate => ?_⟩
  · rw [g.stateCount_eq, g.count_eq]
  · rw [hcount]
    exact hfit size (hlength ▸ g.length_le)
  · rw [hcount, hend, hlength]
  · rw [g.stateCount_eq] at hstate
    have text := g.states state hstate
    obtain ⟨hevaluations, htext⟩ := (spells_counted text.countable).mp text.spells
    refine ⟨text.start_le, text.start_lt, ?_⟩
    rw [hevaluations]
    refine (evaluations_of_spells htext).2 _ _ ?_ fun e he offset ho => ?_
    · have hstop := text.stop_le
      rw [length_counted] at hstop
      unfold partStart
      omega
    · exact g.mem_starts_iff.mpr (text.references e he offset ho)

end Grammar

/-- **A well-formed program is a text of the grammar.** -/
theorem WellFormed.grammar (wf : layout.WellFormed contents size) :
    ∃ states actions, layout.Grammar contents size states actions := by
  obtain ⟨actions, hactions, hspells⟩ := spells_of_records wf.records
  -- each state is read off where the header says that it starts; states may share bytes
  let states := (List.range layout.stateCount).map fun i =>
    storedFrom contents (contents (stateStart contents i)).toNat (stateStart contents i + 1)
  have hstates : states.length = layout.stateCount := by simp [states]
  have hcountable : actions.length < 256 := hactions ▸ UInt8.toNat_lt _
  have hend := (records_of_spells hspells).1
  have hlength : layout.length = layout.actionTable + (counted Action.toBytes actions).length := by
    rw [wf.length_eq, ← hactions, hend, length_counted, partStart, Nat.add_assoc]
  have htable : Spells contents layout.actionTable (counted Action.toBytes actions) :=
    (spells_counted hcountable).mpr ⟨hactions.symm, hspells⟩
  refine ⟨states, actions, ?_, hstates.symm, ?_, wf.table_eq, wf.header_le, wf.table_lt,
    hcountable, htable, hlength, wf.length_bounds.2, fun i hi => ?_⟩
  · rw [hstates, wf.count_eq]
  · exact Nat.le_trans wf.header_le (Nat.le_of_lt wf.table_lt)
  · rw [hstates] at hi
    obtain ⟨hheader, hlt, fit⟩ := wf.states i hi
    obtain ⟨htext, hstop, refer⟩ := spells_of_evaluations hlt fit
    have hstate : states[i] = storedFrom contents (contents (stateStart contents i)).toNat
        (stateStart contents i + 1) := by simp [states]
    have hcount : states[i].length = (contents (stateStart contents i)).toNat := by
      rw [hstate, length_storedFrom]
    have hbyte : states[i].length < 256 := hcount ▸ UInt8.toNat_lt _
    rw [← hstate] at htext hstop refer
    refine ⟨hheader, hlt, ?_, hbyte, (spells_counted hbyte).mpr ⟨hcount.symm, htext⟩,
      fun e he offset ho => ?_⟩
    · rw [length_counted, ← Nat.add_assoc]
      exact hstop
    · exact (mem_starts_of_spells hactions.symm hspells).mp (refer e he offset ho)

/-- **The validator accepts the grammar.** On a device that answers reads, and of a size that 16-bit
offsets reach, a layout is read exactly when the memory holds a text with this layout. The program
has no length exactly when the memory holds no text at all. -/
theorem read_eq_ok_iff {m : ProgramMemory} (answers : m.Answers 1 m.capacity)
    (h : m.capacity ≤ 65535) :
    (∀ layout, Layout.read m = .ok layout ↔
      ∃ states actions, layout.Grammar m.byteAt m.capacity states actions) ∧
    (m.programLength = 0 ↔
      ¬ ∃ (layout : Layout) (states : List (List StoredEvaluation)) (actions : List Action),
        layout.Grammar m.byteAt m.capacity states actions) := by
  have hsize : m.size = m.capacity := Nat.min_eq_left h
  have serves : m.Serves m.byteAt 1 m.size :=
    ProgramMemory.serves_of_answers (hsize ▸ answers) (Nat.min_le_left ..) (by omega)
  have key : ∀ layout, Layout.read m = .ok layout ↔
      ∃ states actions, layout.Grammar m.byteAt m.capacity states actions := by
    intro layout
    rw [← hsize]
    constructor
    · intro hread
      exact (wellFormed_of_read hread).1.grammar
    · rintro ⟨states, actions, g⟩
      exact read_of_wellFormed g.wellFormed serves
  refine ⟨key, ?_⟩
  unfold ProgramMemory.programLength
  cases hread : Layout.read m with
  | ok layout =>
    have hlength := (wellFormed_of_read hread).1.length_bounds.1
    exact iff_of_false (by dsimp only; omega) fun hnone => hnone ⟨layout, (key layout).mp hread⟩
  | error e =>
    refine iff_of_true rfl fun ⟨layout, hgrammar⟩ => ?_
    rw [(key layout).mpr hgrammar] at hread
    cases hread

/-- One state, one rule and one action, which switches a light on when a key is pressed. -/
def lightSwitch : ProgramMemory where
  image := #[0x5A, 1, 0, 6, 0, 18,
    1, 1, 1, 0, 0, 0, 0, 0, 0, 1, 0, 19,
    1, 0x20, 1, 0xFF]

theorem lightSwitch_grammar :
    lightSwitch.Answers 1 lightSwitch.capacity ∧ lightSwitch.capacity ≤ 65535 ∧
      (∃ states actions, (⟨1, 18, 22⟩ : Layout).Grammar lightSwitch.byteAt lightSwitch.capacity
        states actions) ∧
      ¬ ∃ states actions, (⟨1, 18, 21⟩ : Layout).Grammar lightSwitch.byteAt lightSwitch.capacity
        states actions := by
  have answers : lightSwitch.Answers 1 lightSwitch.capacity := fun _ _ _ _ => rfl
  have hcapacity : lightSwitch.capacity ≤ 65535 := by decide
  obtain ⟨hread, -⟩ := read_eq_ok_iff answers hcapacity
  have hlayout : Layout.read lightSwitch = .ok ⟨1, 18, 22⟩ := rfl
  refine ⟨answers, hcapacity, (hread _).mp hlayout, fun hgrammar => ?_⟩
  have hother := (hread _).mpr hgrammar
  rw [hlayout] at hother
  exact absurd (Except.ok.inj hother) (by decide)

end Layout

end RoomControl
