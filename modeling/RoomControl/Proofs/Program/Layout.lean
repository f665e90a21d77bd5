import RoomControl.Program.Condition
import RoomControl.Program.Layout
import RoomControl.Proofs.Program.Memory

/-!
# What a well-formed program looks like

`Layout.WellFormed` says of the bytes of a memory what `Layout.read` finds out by walking over them:
the header, a table of records that ends where the program ends, and states whose evaluations lie in
front of the table and refer to the starts of records only. It speaks of the bytes alone, so it does
not say how they are read. Its ties to the walk are `wellFormed_of_read`, that a layout which
`Layout.read` returns is well-formed, and `read_of_serves`, that a well-formed program is read where
its own bytes are served. `read_congr` says on what any walk depends, also one that fails: the status
byte plays no part.
-/

set_option autoImplicit false

namespace RoomControl

/-! ## Steps that may fail -/

theorem bind_eq_ok {ε α β : Type} {x : Except ε α} {f : α → Except ε β} {b : β} :
    x >>= f = .ok b ↔ ∃ a, x = .ok a ∧ f a = .ok b := by
  cases x with
  | error e => exact ⟨nofun, fun ⟨_, h, _⟩ => nomatch h⟩
  | ok a => exact ⟨fun h => ⟨a, rfl, h⟩, fun ⟨_, h, hf⟩ => by cases h; exact hf⟩

theorem bind_congr_ok {ε α β : Type} {x : Except ε α} {f g : α → Except ε β}
    (h : ∀ a, x = .ok a → f a = g a) : x >>= f = x >>= g := by
  cases x with
  | error e => rfl
  | ok a => exact h a rfl

theorem mapError_eq_ok {ε ε' α : Type} {x : Except ε α} {f : ε → ε'} {a : α} :
    x.mapError f = .ok a ↔ x = .ok a := by
  cases x with
  | error e => exact ⟨nofun, nofun⟩
  | ok b => exact ⟨fun h => by cases h; rfl, fun h => by cases h; rfl⟩

namespace Layout

/-! ## The shape of a program -/

section Shape

variable (contents : Nat → UInt8)

/-- Where the action record after the one at `pos` starts. -/
def nextRecord (pos : Nat) : Nat := pos + 2 + (contents (pos + 1)).toNat

/-- Where `n` action records from `pos` on start. -/
def recordStarts : (n pos : Nat) → List Nat
  | 0, _ => []
  | n + 1, pos => pos :: recordStarts n (nextRecord contents pos)

/-- Where `n` action records from `pos` on end. -/
def recordsEnd : (n pos : Nat) → Nat
  | 0, pos => pos
  | n + 1, pos => recordsEnd n (nextRecord contents pos)

/-- Each of `n` action records from `pos` on ends by `stop`, and its value is not too long. -/
def RecordsFit (stop : Nat) : (n pos : Nat) → Prop
  | 0, _ => True
  | n + 1, pos => (contents (pos + 1)).toNat ≤ Action.maxValue ∧ nextRecord contents pos ≤ stop ∧
      RecordsFit stop n (nextRecord contents pos)

/-- The `n` references from `pos` on. -/
def references : (n pos : Nat) → List UInt16
  | 0, _ => []
  | n + 1, pos => wordIn contents pos :: references n (pos + 2)

/-- The references of the evaluation at `pos`. -/
def referencesOf (pos : Nat) : List UInt16 :=
  references contents (contents (pos + Conditions.size)).toNat (pos + Conditions.size + 1)

/-- Where the evaluation after the one at `pos` starts. -/
def nextEvaluation (pos : Nat) : Nat :=
  pos + Conditions.size + 1 + 2 * (contents (pos + Conditions.size)).toNat

/-- Each of `n` evaluations from `pos` on ends by `stop`, and refers to `starts` only. -/
def EvaluationsFit (stop : Nat) (starts : List Nat) : (n pos : Nat) → Prop
  | 0, _ => True
  | n + 1, pos => nextEvaluation contents pos ≤ stop ∧
      (∀ offset ∈ referencesOf contents pos, offset.toNat ∈ starts) ∧
      EvaluationsFit stop starts n (nextEvaluation contents pos)

/-- The starts of the records in a layout's action table. -/
def starts (layout : Layout) : List Nat :=
  recordStarts contents (contents layout.actionTable).toNat (layout.actionTable + 1)

/-- Where the header of a program says that a state lies. -/
def stateStart (state : Nat) : Nat := (wordIn contents (2 + 2 * state)).toNat

end Shape

/-- The bytes hold a well-formed program with this layout, in a memory of `size` bytes. -/
structure WellFormed (contents : Nat → UInt8) (size : Nat) (layout : Layout) : Prop where
  count_eq : layout.stateCount = (contents 1).toNat
  table_eq : layout.actionTable = (wordIn contents (headerEnd layout.stateCount - 2)).toNat
  header_le : headerEnd layout.stateCount ≤ layout.actionTable
  table_lt : layout.actionTable < size
  records : RecordsFit contents size (contents layout.actionTable).toNat (layout.actionTable + 1)
  length_eq : layout.length =
    recordsEnd contents (contents layout.actionTable).toNat (layout.actionTable + 1)
  /-- Every state lies between the header and the table. -/
  states : ∀ state, state < layout.stateCount →
    headerEnd layout.stateCount ≤ stateStart contents state ∧
      stateStart contents state < layout.actionTable ∧
      EvaluationsFit contents layout.actionTable (starts contents layout)
        (contents (stateStart contents state)).toNat (stateStart contents state + 1)

/-! ## Records -/

variable {contents : Nat → UInt8}

theorem le_recordsEnd (n pos : Nat) : pos ≤ recordsEnd contents n pos := by
  induction n generalizing pos with
  | zero => exact Nat.le_refl pos
  | succ n ih =>
    have hnext : pos ≤ nextRecord contents pos := by
      unfold nextRecord
      omega
    exact Nat.le_trans hnext (ih _)

theorem recordsEnd_le {stop n pos : Nat} (hpos : pos ≤ stop) (fit : RecordsFit contents stop n pos) :
    recordsEnd contents n pos ≤ stop := by
  induction n generalizing pos with
  | zero => exact hpos
  | succ n ih => exact ih fit.2.1 fit.2.2

/-- A record whose start is listed lies before the end of all, and its value is not too long. -/
theorem mem_recordStarts {stop n pos start : Nat} (fit : RecordsFit contents stop n pos)
    (h : start ∈ recordStarts contents n pos) :
    pos ≤ start ∧ nextRecord contents start ≤ recordsEnd contents n pos ∧
      (contents (start + 1)).toNat ≤ Action.maxValue := by
  induction n generalizing pos with
  | zero => cases h
  | succ n ih =>
    obtain ⟨hvalue, -, hrest⟩ := fit
    rcases List.mem_cons.mp h with rfl | h
    · exact ⟨Nat.le_refl _, le_recordsEnd n _, hvalue⟩
    · obtain ⟨hle, hend, hmax⟩ := ih hrest h
      unfold nextRecord at hle
      exact ⟨by omega, hend, hmax⟩

namespace WellFormed

variable {size : Nat} {layout : Layout}

/-- The program ends inside the memory, behind the start of its action table. -/
theorem length_bounds (wf : layout.WellFormed contents size) :
    layout.actionTable < layout.length ∧ layout.length ≤ size := by
  rw [wf.length_eq]
  have hle : layout.actionTable + 1 ≤ recordsEnd contents (contents layout.actionTable).toNat
      (layout.actionTable + 1) := le_recordsEnd ..
  exact ⟨by omega, recordsEnd_le wf.table_lt wf.records⟩

/-- A record of the action table lies behind the table's count and ends with the program. -/
theorem record_bounds (wf : layout.WellFormed contents size) {start : Nat}
    (h : start ∈ starts contents layout) :
    layout.actionTable < start ∧ nextRecord contents start ≤ layout.length ∧
      (contents (start + 1)).toNat ≤ Action.maxValue := by
  obtain ⟨hle, hend, hmax⟩ := mem_recordStarts wf.records h
  rw [wf.length_eq]
  exact ⟨by omega, hend, hmax⟩

end WellFormed

end Layout

/-! ## Reading inside a region -/

namespace Region

variable {r : Region} {pos : Nat}

theorem byte_eq_ok {b : UInt8} (h : r.byte pos = .ok b) :
    pos + 1 ≤ r.stop ∧ b = r.memory.byteAt pos := by
  unfold byte at h
  split at h
  · exact ⟨‹_›, (ProgramMemory.readByte_eq_ok (mapError_eq_ok.mp h)).2⟩
  · cases h

theorem word_eq_ok {w : UInt16} (h : r.word pos = .ok w) :
    pos + 2 ≤ r.stop ∧ w = wordIn r.memory.byteAt pos := by
  unfold word at h
  split at h
  · exact ⟨‹_›, (ProgramMemory.readWord_eq_ok (mapError_eq_ok.mp h)).2⟩
  · cases h

theorem skip_eq_ok {n next : Nat} (h : r.skip pos n = .ok next) :
    next = pos + n ∧ next ≤ r.stop := by
  unfold skip at h
  split at h
  · cases h
    exact ⟨rfl, ‹_›⟩
  · cases h

theorem byte_of_readByte {b : UInt8} (h : pos + 1 ≤ r.stop)
    (hread : r.memory.readByte pos = .ok b) : r.byte pos = .ok b := by
  rw [byte, if_pos h, hread]
  rfl

section Serving

variable {contents : Nat → UInt8} {low high : Nat}
variable (serves : r.memory.Serves contents low high) (hlow : low ≤ pos) (hhigh : r.stop ≤ high)

include serves hlow hhigh

theorem byte_of_serves (h : pos + 1 ≤ r.stop) : r.byte pos = .ok (contents pos) :=
  byte_of_readByte h (serves.readByte hlow (Nat.le_trans h hhigh))

theorem word_of_serves (h : pos + 2 ≤ r.stop) : r.word pos = .ok (wordIn contents pos) := by
  rw [word, if_pos h, serves.readWord hlow (Nat.le_trans h hhigh)]
  rfl

theorem bytes_of_serves {n : Nat} (h : pos + n ≤ r.stop) :
    r.bytes pos n = .ok (stretch contents pos n) := by
  rw [bytes, if_pos h, serves pos n hlow (Nat.le_trans h hhigh)]
  rfl

end Serving

end Region

namespace Layout

/-! ## What the walks find -/

theorem recordsFit_of_walk {r : Region} {n pos stop : Nat} {starts : List Nat}
    (h : walkRecords r n pos = .ok (starts, stop)) :
    RecordsFit r.memory.byteAt r.stop n pos ∧ starts = recordStarts r.memory.byteAt n pos ∧
      stop = recordsEnd r.memory.byteAt n pos := by
  induction n generalizing pos starts stop with
  | zero =>
    cases h
    exact ⟨trivial, rfl, rfl⟩
  | succ n ih =>
    obtain ⟨device, -, h⟩ := bind_eq_ok.mp h
    obtain ⟨length, hlength, h⟩ := bind_eq_ok.mp h
    obtain ⟨-, rfl⟩ := Region.byte_eq_ok hlength
    split at h
    · cases h
    · rename_i hmax
      obtain ⟨next, hnext, h⟩ := bind_eq_ok.mp h
      obtain ⟨rfl, hstop⟩ := Region.skip_eq_ok hnext
      obtain ⟨⟨rest, last⟩, hrest, h⟩ := bind_eq_ok.mp h
      cases h
      obtain ⟨fit, rfl, rfl⟩ := ih hrest
      exact ⟨⟨by omega, hstop, fit⟩, rfl, rfl⟩

theorem references_of_walk {r : Region} {starts : List Nat} {n pos next : Nat}
    (h : walkReferences r starts n pos = .ok next) (hpos : pos ≤ r.stop) :
    next = pos + 2 * n ∧ next ≤ r.stop ∧
      ∀ offset ∈ references r.memory.byteAt n pos, offset.toNat ∈ starts := by
  induction n generalizing pos with
  | zero =>
    cases h
    exact ⟨rfl, hpos, nofun⟩
  | succ n ih =>
    obtain ⟨offset, hword, h⟩ := bind_eq_ok.mp h
    obtain ⟨hin, rfl⟩ := Region.word_eq_ok hword
    split at h
    · rename_i hmem
      obtain ⟨hnext, hstop, hall⟩ := ih h hin
      refine ⟨by omega, hstop, fun offset ho => ?_⟩
      rcases List.mem_cons.mp ho with rfl | ho
      · exact hmem
      · exact hall offset ho
    · cases h

theorem evaluationsFit_of_walk {r : Region} {starts : List Nat} {n pos next : Nat}
    (h : walkEvaluations r starts n pos = .ok next) :
    EvaluationsFit r.memory.byteAt r.stop starts n pos := by
  induction n generalizing pos with
  | zero => trivial
  | succ n ih =>
    obtain ⟨behind, hskip, h⟩ := bind_eq_ok.mp h
    obtain ⟨rfl, -⟩ := Region.skip_eq_ok hskip
    obtain ⟨count, hcount, h⟩ := bind_eq_ok.mp h
    obtain ⟨hin, rfl⟩ := Region.byte_eq_ok hcount
    obtain ⟨last, hrefs, h⟩ := bind_eq_ok.mp h
    obtain ⟨rfl, hstop, hall⟩ := references_of_walk hrefs hin
    exact ⟨hstop, hall, ih h⟩

theorem stateStart_of_stateOffset {layout : Layout} {m : ProgramMemory} {state : UInt8} {offset : Nat}
    (h : layout.stateOffset m state = .ok offset) :
    offset = stateStart m.byteAt state.toNat ∧ headerEnd layout.stateCount ≤ offset ∧
      offset < layout.actionTable := by
  unfold stateOffset at h
  split at h
  · cases h
  · obtain ⟨w, hword, h⟩ := bind_eq_ok.mp h
    obtain ⟨-, rfl⟩ := ProgramMemory.readWord_eq_ok (mapError_eq_ok.mp hword)
    split at h
    · cases h
    · cases h
      exact ⟨rfl, by omega, by omega⟩

theorem states_of_walk {layout : Layout} {m : ProgramMemory} {starts : List Nat} {n first : Nat}
    (h : layout.walkStates m starts n first = .ok ()) (hcount : first + n ≤ 255)
    {state : Nat} (hfirst : first ≤ state) (hlast : state < first + n) :
    headerEnd layout.stateCount ≤ stateStart m.byteAt state ∧
      stateStart m.byteAt state < layout.actionTable ∧
      EvaluationsFit m.byteAt layout.actionTable starts
        (m.byteAt (stateStart m.byteAt state)).toNat (stateStart m.byteAt state + 1) := by
  induction n generalizing first with
  | zero => omega
  | succ n ih =>
    obtain ⟨offset, hoffset, h⟩ := bind_eq_ok.mp h
    obtain ⟨last, hwalk, h⟩ := bind_eq_ok.mp h
    by_cases heq : state = first
    · subst heq
      obtain ⟨rfl, hheader, htable⟩ := stateStart_of_stateOffset hoffset
      have hstate : (UInt8.ofNat state).toNat = state := by
        rw [UInt8.toNat_ofNat']
        omega
      rw [hstate] at hwalk hheader htable
      obtain ⟨count, hbyte, hwalk⟩ := bind_eq_ok.mp hwalk
      obtain ⟨-, rfl⟩ := Region.byte_eq_ok hbyte
      exact ⟨hheader, htable, evaluationsFit_of_walk hwalk⟩
    · exact ih h (by omega) (by omega) (by omega)

/-- **A layout that is read is well-formed.** -/
theorem wellFormed_of_read {m : ProgramMemory} {layout : Layout} (h : Layout.read m = .ok layout) :
    layout.WellFormed m.byteAt m.size ∧ m.capacity ≤ 65536 := by
  obtain ⟨count, hcount, h⟩ := bind_eq_ok.mp h
  obtain ⟨covers, rfl⟩ := ProgramMemory.readByte_eq_ok (mapError_eq_ok.mp hcount)
  refine ⟨?_, covers.2⟩
  dsimp only at h
  split at h
  · cases h
  · obtain ⟨table, htable, h⟩ := bind_eq_ok.mp h
    obtain ⟨-, rfl⟩ := ProgramMemory.readWord_eq_ok (mapError_eq_ok.mp htable)
    split at h
    · cases h
    · rename_i hrange
      obtain ⟨⟨starts, stop⟩, hwalk, h⟩ := bind_eq_ok.mp h
      obtain ⟨n, hbyte, hwalk⟩ := bind_eq_ok.mp hwalk
      obtain ⟨-, rfl⟩ := Region.byte_eq_ok hbyte
      obtain ⟨fit, rfl, rfl⟩ := recordsFit_of_walk hwalk
      obtain ⟨_, hstates, h⟩ := bind_eq_ok.mp h
      cases h
      have hcount : 0 + (m.byteAt 1).toNat ≤ 255 := by
        have := (m.byteAt 1).toNat_lt
        omega
      refine ⟨rfl, rfl, ?_, ?_, fit, rfl, fun state hstate => ?_⟩
      · exact Nat.le_of_not_lt fun hlt => hrange (.inl hlt)
      · exact Nat.lt_of_not_le fun hle => hrange (.inr hle)
      · exact states_of_walk hstates hcount (Nat.zero_le _) (by rw [Nat.zero_add]; exact hstate)

/-! ## What the walks accept -/

section Accepting

variable {contents : Nat → UInt8} {m : ProgramMemory} {stop size : Nat}

/-- The walk over the records needs the memory up to their end only, however far it may go. -/
theorem walkRecords_eq {high : Nat} (serves : m.Serves contents 1 high) {n pos : Nat} (hpos : 1 ≤ pos)
    (fit : RecordsFit contents stop n pos) (hend : recordsEnd contents n pos ≤ high) :
    walkRecords ⟨m, stop⟩ n pos = .ok (recordStarts contents n pos, recordsEnd contents n pos) := by
  induction n generalizing pos with
  | zero => rfl
  | succ n ih =>
    obtain ⟨hmax, hstop, hrest⟩ := fit
    have hnext : pos + 2 + (contents (pos + 1)).toNat = nextRecord contents pos := rfl
    have hin : pos + 2 ≤ nextRecord contents pos := by omega
    have hbelow : nextRecord contents pos ≤ high := Nat.le_trans (le_recordsEnd n _) hend
    have hdevice : (⟨m, stop⟩ : Region).byte pos = .ok (contents pos) :=
      Region.byte_of_readByte (show pos + 1 ≤ stop by omega) (serves.readByte hpos (by omega))
    have hlength : (⟨m, stop⟩ : Region).byte (pos + 1) = .ok (contents (pos + 1)) :=
      Region.byte_of_readByte (show pos + 1 + 1 ≤ stop by omega)
        (serves.readByte (by omega) (by omega))
    refine bind_eq_ok.mpr ⟨_, hdevice, bind_eq_ok.mpr ⟨_, hlength, ?_⟩⟩
    rw [if_neg (Nat.not_lt.mpr hmax)]
    refine bind_eq_ok.mpr ⟨_, if_pos hstop, bind_eq_ok.mpr ⟨_, ih (by omega) hrest hend, rfl⟩⟩

theorem walkReferences_eq (serves : m.Serves contents 1 stop) {starts : List Nat} {n pos : Nat}
    (hpos : 1 ≤ pos) (hstop : pos + 2 * n ≤ stop)
    (refs : ∀ offset ∈ references contents n pos, offset.toNat ∈ starts) :
    walkReferences ⟨m, stop⟩ starts n pos = .ok (pos + 2 * n) := by
  induction n generalizing pos with
  | zero => rfl
  | succ n ih =>
    have hword : (⟨m, stop⟩ : Region).word pos = .ok (wordIn contents pos) :=
      Region.word_of_serves serves hpos (Nat.le_refl _) (show pos + 2 ≤ stop by omega)
    have hmem : (wordIn contents pos).toNat ∈ starts := refs _ (List.mem_cons_self ..)
    have hnext : 1 ≤ pos + 2 := by omega
    have hrest := ih hnext (by omega) fun offset ho => refs offset (List.mem_cons_of_mem _ ho)
    have hend : pos + 2 + 2 * n = pos + 2 * (n + 1) := by omega
    refine bind_eq_ok.mpr ⟨_, hword, ?_⟩
    rw [if_pos hmem, hrest, hend]

theorem exists_walkEvaluations (serves : m.Serves contents 1 stop) {starts : List Nat} {n pos : Nat}
    (hpos : 1 ≤ pos) (fit : EvaluationsFit contents stop starts n pos) :
    ∃ last, walkEvaluations ⟨m, stop⟩ starts n pos = .ok last := by
  induction n generalizing pos with
  | zero => exact ⟨pos, rfl⟩
  | succ n ih =>
    obtain ⟨hstop, refs, hrest⟩ := fit
    have hnext : pos + Conditions.size + 1 + 2 * (contents (pos + Conditions.size)).toNat =
        nextEvaluation contents pos := rfl
    have hskip : (⟨m, stop⟩ : Region).skip pos 8 = .ok (pos + Conditions.size) :=
      if_pos (show pos + Conditions.size ≤ stop by omega)
    have hcount : (⟨m, stop⟩ : Region).byte (pos + Conditions.size) =
        .ok (contents (pos + Conditions.size)) :=
      Region.byte_of_serves serves (by omega) (Nat.le_refl _)
        (show pos + Conditions.size + 1 ≤ stop by omega)
    have hbehind : 1 ≤ pos + Conditions.size + 1 := by omega
    have hrefs := walkReferences_eq serves hbehind (by omega) refs
    obtain ⟨last, hlast⟩ := ih (by omega) hrest
    exact ⟨last, bind_eq_ok.mpr ⟨_, hskip, bind_eq_ok.mpr ⟨_, hcount, bind_eq_ok.mpr
      ⟨_, hrefs, hlast⟩⟩⟩⟩

variable {layout : Layout}

/-- A state of a well-formed program is found where the header says. -/
theorem stateOffset_eq (wf : layout.WellFormed contents size) (serves : m.Serves contents 1 stop)
    (hstop : layout.actionTable ≤ stop) {state : UInt8} (h : state.toNat < layout.stateCount) :
    layout.stateOffset m state = .ok (stateStart contents state.toNat) := by
  obtain ⟨hheader, htable, -⟩ := wf.states state.toNat h
  have htop := wf.header_le
  unfold headerEnd at htop
  have hword : m.readWord (2 + 2 * state.toNat) = .ok (wordIn contents (2 + 2 * state.toNat)) :=
    serves.readWord (by omega) (by omega)
  rw [stateOffset, if_neg (Nat.not_le.mpr h)]
  refine bind_eq_ok.mpr ⟨_, mapError_eq_ok.mpr hword, if_neg ?_⟩
  exact not_or.mpr ⟨Nat.not_lt.mpr hheader, Nat.not_le.mpr htable⟩

theorem walkStates_eq (wf : layout.WellFormed contents size) (serves : m.Serves contents 1 stop)
    (hstop : layout.actionTable ≤ stop) {n first : Nat} (hcount : first + n ≤ layout.stateCount)
    (hbyte : layout.stateCount ≤ 255) :
    layout.walkStates m (starts contents layout) n first = .ok () := by
  induction n generalizing first with
  | zero => rfl
  | succ n ih =>
    have hfirst : (UInt8.ofNat first).toNat = first := by
      rw [UInt8.toNat_ofNat']
      omega
    have hlt : first < layout.stateCount := by omega
    obtain ⟨hheader, htable, fit⟩ := wf.states first hlt
    have hbelow : m.Serves contents 1 layout.actionTable := serves.mono hstop
    unfold headerEnd at hheader
    have hoffset : layout.stateOffset m (UInt8.ofNat first) = .ok (stateStart contents first) := by
      have h := stateOffset_eq wf serves hstop (hfirst.symm ▸ hlt)
      rwa [hfirst] at h
    have hevaluations : (⟨m, layout.actionTable⟩ : Region).byte (stateStart contents first) =
        .ok (contents (stateStart contents first)) :=
      Region.byte_of_serves hbelow (by omega) (Nat.le_refl _) htable
    obtain ⟨last, hlast⟩ := exists_walkEvaluations hbelow (by omega) fit
    exact bind_eq_ok.mpr ⟨_, hoffset, bind_eq_ok.mpr
      ⟨last, bind_eq_ok.mpr ⟨_, hevaluations, hlast⟩, ih (by omega)⟩⟩

/-- **A well-formed program is read**, from a memory that serves its bytes. No other byte is looked
at. -/
theorem read_of_serves (wf : layout.WellFormed contents m.size)
    (serves : m.Serves contents 1 layout.length) : Layout.read m = .ok layout := by
  obtain ⟨hlength, -⟩ := wf.length_bounds
  have hheader := wf.header_le
  have htable := wf.table_lt
  have hcount := wf.count_eq
  have hbyte := (contents 1).toNat_lt
  unfold headerEnd at hheader
  have hstates : m.readByte 1 = .ok (contents 1) := serves.readByte (Nat.le_refl 1) (by omega)
  have hword : m.readWord (headerEnd (contents 1).toNat - 2) =
      .ok (wordIn contents (headerEnd (contents 1).toNat - 2)) := by
    refine serves.readWord ?_ ?_
    · unfold headerEnd
      omega
    · unfold headerEnd
      omega
  have htable_eq : (wordIn contents (headerEnd (contents 1).toNat - 2)).toNat =
      layout.actionTable := by rw [wf.table_eq, hcount]
  have hactions : (⟨m, m.size⟩ : Region).byte layout.actionTable =
      .ok (contents layout.actionTable) :=
    Region.byte_of_readByte htable (serves.readByte (by omega) hlength)
  have hwalk : walkTable m layout.actionTable = .ok (starts contents layout, layout.length) := by
    refine bind_eq_ok.mpr ⟨_, hactions, ?_⟩
    rw [walkRecords_eq serves (by omega) wf.records (Nat.le_of_eq wf.length_eq.symm), wf.length_eq]
    rfl
  refine bind_eq_ok.mpr ⟨_, mapError_eq_ok.mpr hstates, ?_⟩
  dsimp only
  rw [if_neg (show ¬ headerEnd (contents 1).toNat > m.size by unfold headerEnd; omega)]
  refine bind_eq_ok.mpr ⟨_, mapError_eq_ok.mpr hword, ?_⟩
  rw [htable_eq, if_neg (show ¬ (layout.actionTable < headerEnd (contents 1).toNat ∨
    layout.actionTable ≥ m.size) by unfold headerEnd; omega)]
  refine bind_eq_ok.mpr ⟨_, hwalk, ?_⟩
  have hlayout : (⟨(contents 1).toNat, layout.actionTable, layout.length⟩ : Layout) = layout := by
    rw [← hcount]
  rw [hlayout]
  refine bind_eq_ok.mpr ⟨(), walkStates_eq wf serves (Nat.le_of_lt hlength) ?_ ?_, rfl⟩
  · omega
  · omega

/-- The same for a memory that serves all its bytes. -/
theorem read_of_wellFormed (wf : layout.WellFormed contents m.size)
    (serves : m.Serves contents 1 m.size) : Layout.read m = .ok layout :=
  read_of_serves wf (serves.mono wf.length_bounds.2)

end Accepting

/-! ## On what the walk depends -/

section Congruence

variable {m m' : ProgramMemory} (alike : ∀ addr n, 1 ≤ addr → m'.read addr n = m.read addr n)

include alike

private theorem readByte_congr {addr : Nat} (h : 1 ≤ addr) : m'.readByte addr = m.readByte addr := by
  rw [ProgramMemory.readByte, ProgramMemory.readByte, alike addr 1 h]

private theorem readWord_congr {addr : Nat} (h : 1 ≤ addr) : m'.readWord addr = m.readWord addr := by
  rw [ProgramMemory.readWord, ProgramMemory.readWord, alike addr 2 h]

private theorem byte_congr (stop : Nat) {pos : Nat} (h : 1 ≤ pos) :
    (⟨m', stop⟩ : Region).byte pos = (⟨m, stop⟩ : Region).byte pos := by
  simp only [Region.byte, readByte_congr alike h]

private theorem word_congr (stop : Nat) {pos : Nat} (h : 1 ≤ pos) :
    (⟨m', stop⟩ : Region).word pos = (⟨m, stop⟩ : Region).word pos := by
  simp only [Region.word, readWord_congr alike h]

omit alike in
private theorem skip_congr (m m' : ProgramMemory) (stop pos n : Nat) :
    (⟨m', stop⟩ : Region).skip pos n = (⟨m, stop⟩ : Region).skip pos n := rfl

private theorem walkRecords_congr (stop n : Nat) {pos : Nat} (h : 1 ≤ pos) :
    walkRecords ⟨m', stop⟩ n pos = walkRecords ⟨m, stop⟩ n pos := by
  induction n generalizing pos with
  | zero => rfl
  | succ n ih =>
    rw [walkRecords, walkRecords, byte_congr alike stop h, byte_congr alike stop (by omega)]
    refine bind_congr_ok fun _ _ => bind_congr_ok fun length _ => ?_
    split
    · rfl
    · rw [skip_congr m m']
      refine bind_congr_ok fun next hnext => ?_
      obtain ⟨rfl, -⟩ := Region.skip_eq_ok hnext
      rw [ih (by omega)]

private theorem walkReferences_congr (stop : Nat) (starts : List Nat) (n : Nat) {pos : Nat}
    (h : 1 ≤ pos) :
    walkReferences ⟨m', stop⟩ starts n pos = walkReferences ⟨m, stop⟩ starts n pos := by
  induction n generalizing pos with
  | zero => rfl
  | succ n ih =>
    rw [walkReferences, walkReferences, word_congr alike stop h]
    refine bind_congr_ok fun offset _ => ?_
    rw [ih (by omega)]

private theorem walkEvaluations_congr (stop : Nat) (starts : List Nat) (n : Nat) {pos : Nat}
    (h : 1 ≤ pos) :
    walkEvaluations ⟨m', stop⟩ starts n pos = walkEvaluations ⟨m, stop⟩ starts n pos := by
  induction n generalizing pos with
  | zero => rfl
  | succ n ih =>
    rw [walkEvaluations, walkEvaluations, skip_congr m m']
    refine bind_congr_ok fun behind hskip => ?_
    obtain ⟨rfl, -⟩ := Region.skip_eq_ok hskip
    rw [byte_congr alike stop (by omega)]
    refine bind_congr_ok fun count hcount => ?_
    rw [walkReferences_congr alike stop starts _ (by omega)]
    refine bind_congr_ok fun last hrefs => ?_
    obtain ⟨rfl, -⟩ := references_of_walk hrefs (Region.byte_eq_ok hcount).1
    exact ih (by omega)

private theorem walkStates_congr (layout : Layout) (starts : List Nat) (n first : Nat) :
    layout.walkStates m' starts n first = layout.walkStates m starts n first := by
  induction n generalizing first with
  | zero => rfl
  | succ n ih =>
    have hoffset : layout.stateOffset m' (UInt8.ofNat first) =
        layout.stateOffset m (UInt8.ofNat first) := by
      rw [stateOffset, stateOffset, readWord_congr alike (by omega)]
    rw [walkStates, walkStates, hoffset]
    refine bind_congr_ok fun offset ho => ?_
    obtain ⟨-, hheader, -⟩ := stateStart_of_stateOffset ho
    unfold headerEnd at hheader
    have hstate : walkState ⟨m', layout.actionTable⟩ starts offset =
        walkState ⟨m, layout.actionTable⟩ starts offset := by
      rw [walkState, walkState, byte_congr alike _ (by omega)]
      refine bind_congr_ok fun count _ => ?_
      exact walkEvaluations_congr alike _ starts _ (by omega)
    rw [hstate]
    exact bind_congr_ok fun _ _ => ih (first + 1)

/-- **The status byte plays no part**: two memories of one size that answer every read behind it
alike have the same layout. -/
theorem read_congr (size : m'.size = m.size) : Layout.read m' = Layout.read m := by
  rw [Layout.read, Layout.read, readByte_congr alike (Nat.le_refl 1), size]
  refine bind_congr_ok fun count _ => ?_
  dsimp only
  split
  · rfl
  · have hheader : 1 ≤ headerEnd count.toNat - 2 := by
      unfold headerEnd
      omega
    rw [readWord_congr alike hheader]
    refine bind_congr_ok fun table _ => ?_
    split
    · rfl
    · rename_i hrange
      unfold headerEnd at hrange
      have hwalk : walkTable m' table.toNat = walkTable m table.toNat := by
        simp only [walkTable, size, byte_congr alike m.size (show 1 ≤ table.toNat by omega)]
        refine bind_congr_ok fun n _ => ?_
        exact walkRecords_congr alike m.size _ (by omega)
      rw [hwalk]
      refine bind_congr_ok fun found _ => ?_
      rw [walkStates_congr alike]

end Congruence

end Layout

end RoomControl
