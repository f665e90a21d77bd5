import RoomControl.Proofs.Program.Layout

/-!
# What the validator looks at

Where a program ends is known only when its action table has been walked, and the memory may go on
behind it. `read_local` says that this does not matter: the layout that is read, the offset of every
state and the action at every offset depend on the bytes from the number of states to the end of the
program, and on nothing else. The status byte in front of them plays no part, nor does what stands
behind them, nor the size of the memory. A device may refuse every other read.

The walks over the bytes are settled by `Layout.read_of_serves`. What is left is that the shape of a
program does not depend on the size of the memory (`WellFormed.resize`), and that offsets are
followed alike in two memories that serve the same program, also where they lead to no action.
-/

set_option autoImplicit false

namespace RoomControl

/-! ## Regions that show the same -/

namespace Region

variable {m m' : ProgramMemory} {contents : Nat → UInt8} {low high stop pos : Nat}

/-- A byte of a region is there or not, whichever of two memories serves the region. -/
theorem byte_congr (serves : m.Serves contents low high) (serves' : m'.Serves contents low high)
    (hlow : low ≤ pos) (hhigh : stop ≤ high) :
    (⟨m', stop⟩ : Region).byte pos = (⟨m, stop⟩ : Region).byte pos := by
  by_cases hin : pos + 1 ≤ stop
  · rw [byte_of_serves serves' hlow hhigh hin, byte_of_serves serves hlow hhigh hin]
  · rw [byte, byte, if_neg hin, if_neg hin]

end Region

namespace Layout

variable {contents : Nat → UInt8} {size : Nat} {layout : Layout}

/-! ## Memories of other sizes -/

/-- Records that fit in front of some end fit in front of any end that they reach. -/
theorem RecordsFit.resize {stop stop' n pos : Nat} (fit : RecordsFit contents stop n pos)
    (hend : recordsEnd contents n pos ≤ stop') : RecordsFit contents stop' n pos := by
  induction n generalizing pos with
  | zero => trivial
  | succ n ih =>
    obtain ⟨hmax, -, hrest⟩ := fit
    exact ⟨hmax, Nat.le_trans (le_recordsEnd n _) hend, ih hrest hend⟩

/-- **A program is well-formed in every memory that it fits**, since its walks end with it. -/
theorem WellFormed.resize (wf : layout.WellFormed contents size) {size' : Nat}
    (hsize : layout.length ≤ size') : layout.WellFormed contents size' where
  count_eq := wf.count_eq
  table_eq := wf.table_eq
  header_le := wf.header_le
  table_lt := Nat.lt_of_lt_of_le wf.length_bounds.1 hsize
  records := wf.records.resize (wf.length_eq ▸ hsize)
  length_eq := wf.length_eq
  states := wf.states

/-! ## Following an offset -/

section Following

variable {m m' : ProgramMemory} (serves : m.Serves contents 1 layout.length)
variable (serves' : m'.Serves contents 1 layout.length)

include serves serves'

/-- A state is found at the same offset, or missed, in both memories. -/
theorem stateOffset_congr (wf : layout.WellFormed contents size) (state : UInt8) :
    layout.stateOffset m' state = layout.stateOffset m state := by
  have hend := Nat.le_of_lt wf.length_bounds.1
  by_cases hstate : state.toNat < layout.stateCount
  · rw [stateOffset_eq wf serves hend hstate, stateOffset_eq wf serves' hend hstate]
  · rw [stateOffset, stateOffset, if_pos (Nat.not_lt.mp hstate), if_pos (Nat.not_lt.mp hstate)]

/-- What an offset leads to is the same in both memories, be it an action, or bytes that only look
like one, or nothing that ends with the program. -/
theorem action_congr (offset : UInt16) : layout.action m' offset = layout.action m offset := by
  unfold action
  split
  · rfl
  · have hdevice : 1 ≤ offset.toNat := by omega
    have hlength : 1 ≤ offset.toNat + 1 := by omega
    dsimp only
    rw [Region.byte_congr serves serves' hdevice (Nat.le_refl _),
      Region.byte_congr serves serves' hlength (Nat.le_refl _)]
    refine bind_congr_ok fun device _ => bind_congr_ok fun length _ => ?_
    refine bind_congr_ok fun behind hbehind => ?_
    obtain ⟨rfl, hstop⟩ := Region.skip_eq_ok hbehind
    have hvalue : 1 ≤ offset.toNat + 2 := by omega
    rw [serves _ _ hvalue hstop, serves' _ _ hvalue hstop]

end Following

/-! ## Reading a program elsewhere -/

/-- **Validation is local.** A program has been read in one memory. Another memory, of whatever size,
holds the same bytes from the number of states to the end of the program, and its device answers
there; of its other bytes and reads nothing is said. Then the same layout is read in it, and every
state and every offset leads to the same in both, failures included. -/
theorem read_local {m m' : ProgramMemory} {layout : Layout} (hread : Layout.read m = .ok layout)
    (answers : m.Answers 1 layout.length) (answers' : m'.Answers 1 layout.length)
    (capacity : m'.capacity ≤ 65536) (hsize : layout.length ≤ m'.size)
    (alike : ∀ a, 1 ≤ a → a < layout.length → m'.byteAt a = m.byteAt a) :
    Layout.read m' = .ok layout ∧
      (∀ state, layout.stateOffset m' state = layout.stateOffset m state) ∧
      ∀ offset, layout.action m' offset = layout.action m offset := by
  obtain ⟨wf, hcapacity⟩ := wellFormed_of_read hread
  have hfits : layout.length ≤ m.capacity := Nat.le_trans wf.length_bounds.2 (Nat.min_le_left ..)
  have hfits' : layout.length ≤ m'.capacity := Nat.le_trans hsize (Nat.min_le_left ..)
  have serves : m.Serves m.byteAt 1 layout.length :=
    ProgramMemory.serves_of_answers answers hfits hcapacity
  have serves' : m'.Serves m.byteAt 1 layout.length :=
    (ProgramMemory.serves_of_answers answers' hfits' capacity).congr alike
  -- the sizes may differ, so the walks are not compared: each memory serves what the program says
  exact ⟨read_of_serves (wf.resize hsize) serves', stateOffset_congr serves serves' wf,
    action_congr serves serves'⟩

/-- One state without evaluations and one action, which ends with the memory. -/
def tight : ProgramMemory where
  image := #[0x5A, 1, 0, 6, 0, 7, 0, 1, 0x20, 1, 0xFF]

/-- The same program, disabled, in a larger memory whose device answers nothing but the program. -/
def roomy : ProgramMemory :=
  ProgramMemory.confined { image := #[0, 1, 0, 6, 0, 7, 0, 1, 0x20, 1, 0xFF, 0x20, 9] } 1 11

theorem read_local_roomy :
    Layout.read tight = .ok ⟨1, 7, 11⟩ ∧ roomy.read 0 1 = .error .writeFailed ∧
      Layout.read roomy = .ok ⟨1, 7, 11⟩ ∧
      (⟨1, 7, 11⟩ : Layout).stateOffset roomy 0 = .ok 6 ∧
      (⟨1, 7, 11⟩ : Layout).action roomy 8 = .ok ⟨0x20, .ofPrefix [0xFF]⟩ ∧
      (⟨1, 7, 11⟩ : Layout).action roomy 10 = .error .outOfBounds := by
  have hread : Layout.read tight = .ok ⟨1, 7, 11⟩ := rfl
  have answers' : roomy.Answers 1 11 := by
    intro addr n hlow hhigh
    simp only [roomy, ProgramMemory.confined, Bool.not_eq_false', decide_eq_true_eq]
    exact ⟨hlow, hhigh⟩
  have alike : ∀ a, 1 ≤ a → a < 11 → roomy.byteAt a = tight.byteAt a := by
    have hall : ∀ a, a < 11 → 1 ≤ a → roomy.byteAt a = tight.byteAt a := by decide
    exact fun a hpos hlt => hall a hlt hpos
  obtain ⟨hlayout, hoffset, haction⟩ :=
    read_local hread (fun _ _ _ _ => rfl) answers' (by decide) (by decide) alike
  exact ⟨hread, rfl, hlayout, hoffset 0, haction 8, haction 10⟩

end Layout

end RoomControl
