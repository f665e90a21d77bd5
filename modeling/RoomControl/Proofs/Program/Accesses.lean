import Mathlib.Data.List.DropRight
import Mathlib.Data.List.Induction
import RoomControl.Proofs.Program.Memory

/-!
# What a memory remembers

A memory of any capacity is written to, loaded, and asked whether it has changed. `access_law` says
what it shows after any such history. An access that stays inside the image succeeds and any other
is an error, provided that 16-bit addresses reach the whole image; a refused write changes nothing.
What is read at an address is what was put there last (`lastPut`): a write puts its data down, and
loading puts something everywhere, since it erases what it does not reach.

The mark of a change is the delicate part, because a write that finds its data in place does not set
it. `Unchanged` is what it stands for: at no time since the memory was last asked, loaded or new has
the image been another one. The memory answers that nothing has changed exactly then, so an owner who
stores the image whenever he is told of a change has always stored what is there.
-/

set_option autoImplicit false

namespace RoomControl.ProgramMemory

/-! ## Histories -/

/-- What is done to a memory. -/
inductive Access where
  | write (addr : Nat) (data : Bytes)
  | load (data : Bytes)
  | takeDirty
  deriving DecidableEq, Repr

namespace Access

/-- The access only writes, and so leaves the mark of a change where it is set. -/
def isWrite : Access → Bool
  | write .. => true
  | load _ | takeDirty => false

/-- What the access puts at an address of a memory of this capacity. A refused write puts nothing. -/
def puts (capacity : Nat) (a : Nat) : Access → Option UInt8
  | write addr data =>
    if addr + data.length ≤ capacity ∧ capacity ≤ 65536 then placed addr data a else none
  | load data => some (data.getD a erasedByte)
  | takeDirty => none

end Access

/-- The memory after an access, which it may refuse. -/
def access (m : ProgramMemory) : Access → ProgramMemory
  | .write addr data => (m.write addr data).toOption.getD m
  | .load data => m.load data
  | .takeDirty => m.takeDirty.2

/-- A new memory of this capacity, after accesses one after the other. -/
def afterAll (capacity : Nat) (accesses : List Access) : ProgramMemory :=
  accesses.foldl access (.erased capacity)

/-- The byte that the last of the accesses which put something at an address has put there. -/
def lastPut (capacity : Nat) (accesses : List Access) (a : Nat) : UInt8 :=
  (accesses.reverse.findSome? (Access.puts capacity a)).getD erasedByte

/-- The accesses up to the last after which the image counts as unchanged. -/
def settled (accesses : List Access) : List Access := accesses.rdropWhile Access.isWrite

/-- Since the image last counted as unchanged it has been the same at every time. -/
def Unchanged (capacity : Nat) (accesses : List Access) : Prop :=
  ∀ before, settled accesses <+: before → before <+: accesses →
    (afterAll capacity before).image = (afterAll capacity (settled accesses)).image

section Snoc

variable (capacity : Nat) (accesses : List Access) (x : Access)

theorem afterAll_snoc : afterAll capacity (accesses ++ [x]) = (afterAll capacity accesses).access x :=
  List.foldl_concat ..

theorem lastPut_snoc (a : Nat) :
    lastPut capacity (accesses ++ [x]) a = (x.puts capacity a).getD (lastPut capacity accesses a) := by
  unfold lastPut
  rw [List.reverse_concat, List.findSome?_cons]
  cases x.puts capacity a <;> rfl

variable {x}

theorem settled_snoc_of_isWrite (h : x.isWrite) : settled (accesses ++ [x]) = settled accesses :=
  List.rdropWhile_concat_pos _ _ _ h

theorem settled_snoc_of_not_isWrite (h : ¬ x.isWrite) : settled (accesses ++ [x]) = accesses ++ [x] :=
  List.rdropWhile_concat_neg _ _ _ h

theorem settled_begins : settled accesses <+: accesses := List.rdropWhile_prefix _ _

end Snoc

/-! ## One access -/

/-- A memory of this capacity, on a device that refuses nothing. -/
structure Unfailing (capacity : Nat) (m : ProgramMemory) : Prop where
  capacity_eq : m.capacity = capacity
  answers : ∀ addr n, m.refusesRead addr n = false
  takes : m.writesLeft = none

variable {capacity : Nat} {m : ProgramMemory}

theorem unfailing_erased (capacity : Nat) : Unfailing capacity (erased capacity) :=
  ⟨Array.size_replicate, fun _ _ => rfl, rfl⟩

theorem Unfailing.covers_iff (h : Unfailing capacity m) {addr n : Nat} :
    m.Covers addr n ↔ addr + n ≤ capacity ∧ capacity ≤ 65536 := by
  rw [Covers, h.capacity_eq]

theorem Unfailing.read_eq (h : Unfailing capacity m) (addr n : Nat) :
    m.read addr n = if addr + n ≤ capacity ∧ capacity ≤ 65536 then
      .ok (stretch m.byteAt addr n) else .error .outOfBounds := by
  by_cases hin : addr + n ≤ capacity ∧ capacity ≤ 65536
  · rw [if_pos hin]
    exact read_of_covers (h.answers addr n) (h.covers_iff.mpr hin)
  · have hout : ¬ m.Covers addr n := fun covers => hin (h.covers_iff.mp covers)
    simp only [if_neg hin, read, h.answers, Bool.false_eq_true, if_false, if_neg hout]

/-- **A write** stays inside the image and is taken, or it does not and is refused. -/
theorem Unfailing.write_cases (h : Unfailing capacity m) (addr : Nat) (data : Bytes) :
    ((addr + data.length ≤ capacity ∧ capacity ≤ 65536) ∧ ∃ m', m.write addr data = .ok m') ∨
      (¬ (addr + data.length ≤ capacity ∧ capacity ≤ 65536) ∧
        m.write addr data = .error .outOfBounds) := by
  by_cases hin : addr + data.length ≤ capacity ∧ capacity ≤ 65536
  · exact .inl ⟨hin, write_of_covers h.takes (h.covers_iff.mpr hin)⟩
  · have hout : ¬ m.Covers addr data.length := fun covers => hin (h.covers_iff.mp covers)
    have hleft : m.writesLeft ≠ some 0 := by simp [h.takes]
    exact .inr ⟨hin, by rw [write, if_neg hleft, if_neg hout]⟩

theorem Unfailing.write (h : Unfailing capacity m) {m' : ProgramMemory} {addr : Nat} {data : Bytes}
    (hwrite : m.write addr data = .ok m') : Unfailing capacity m' := by
  have written := written_of_write hwrite
  refine ⟨written.capacity_eq.trans h.capacity_eq, ?_, takes_of_write h.takes hwrite⟩
  rw [written.refusesRead_eq]
  exact h.answers

theorem access_of_write {m' : ProgramMemory} {addr : Nat} {data : Bytes}
    (h : m.write addr data = .ok m') : m.access (.write addr data) = m' := by
  rw [access, h]
  rfl

/-- A refused write changes nothing. -/
theorem access_of_refused {addr : Nat} {data : Bytes} {e : MemoryError}
    (h : m.write addr data = .error e) : m.access (.write addr data) = m := by
  rw [access, h]
  rfl

theorem Unfailing.access (h : Unfailing capacity m) (x : Access) :
    Unfailing capacity (m.access x) := by
  cases x with
  | write addr data =>
    rcases h.write_cases addr data with ⟨-, m', hwrite⟩ | ⟨-, hrefused⟩
    · rw [access_of_write hwrite]
      exact h.write hwrite
    · rwa [access_of_refused hrefused]
  | load data => exact ⟨(capacity_load m data).trans h.capacity_eq, h.answers, h.takes⟩
  | takeDirty => exact ⟨h.capacity_eq, h.answers, h.takes⟩

/-- **What an access puts at an address is there**, and else what was there before. -/
theorem Unfailing.byteAt_access (h : Unfailing capacity m) (x : Access) {a : Nat}
    (ha : a < capacity) : (m.access x).byteAt a = (x.puts capacity a).getD (m.byteAt a) := by
  cases x with
  | write addr data =>
    rcases h.write_cases addr data with ⟨hin, m', hwrite⟩ | ⟨hout, hrefused⟩
    · rw [access_of_write hwrite, (written_of_write hwrite).byteAt_eq, Access.puts, if_pos hin]
    · rw [access_of_refused hrefused, Access.puts, if_neg hout, Option.getD_none]
  | load data => exact byteAt_load m data (h.capacity_eq ▸ ha)
  | takeDirty => rfl

/-- A write leaves no mark exactly when there was none and the image stays as it is. -/
theorem Unfailing.dirty_access (h : Unfailing capacity m) {x : Access} (hwrite : x.isWrite) :
    (m.access x).dirty = false ↔ m.dirty = false ∧ (m.access x).image = m.image := by
  cases x with
  | write addr data =>
    rcases h.write_cases addr data with ⟨-, m', hwrite⟩ | ⟨-, hrefused⟩
    · rw [access_of_write hwrite]
      rcases eq_or_marked_of_write h.takes hwrite with rfl | ⟨hmarked, himage⟩
      · simp
      · simp [hmarked, himage]
    · simp [access_of_refused hrefused]
  | load data => cases hwrite
  | takeDirty => cases hwrite

theorem dirty_access_of_not_isWrite {x : Access} (h : ¬ x.isWrite) : (m.access x).dirty = false := by
  cases x with
  | write addr data => exact absurd rfl h
  | load data => rfl
  | takeDirty => rfl

/-! ## A whole history -/

theorem unfailing_afterAll (capacity : Nat) (accesses : List Access) :
    Unfailing capacity (afterAll capacity accesses) :=
  List.foldlRecOn accesses access (unfailing_erased capacity) fun _ h x _ => h.access x

theorem byteAt_erased (capacity a : Nat) : (erased capacity).byteAt a = erasedByte := by
  rw [byteAt, erased, Array.getD_eq_getD_getElem?, Array.getElem?_replicate]
  split <;> rfl

/-- **What stands at an address** is what was put there last. -/
theorem byteAt_afterAll (accesses : List Access) {a : Nat} (ha : a < capacity) :
    (afterAll capacity accesses).byteAt a = lastPut capacity accesses a := by
  induction accesses using List.reverseRecOn with
  | nil => exact byteAt_erased capacity a
  | append_singleton before x ih =>
    rw [afterAll_snoc, (unfailing_afterAll capacity before).byteAt_access x ha, ih, lastPut_snoc]

/-- A further write keeps the image unchanged if it has been and the write does not change it. -/
theorem unchanged_snoc (accesses : List Access) {x : Access} (h : x.isWrite) :
    Unchanged capacity (accesses ++ [x]) ↔ Unchanged capacity accesses ∧
      (afterAll capacity (accesses ++ [x])).image = (afterAll capacity accesses).image := by
  unfold Unchanged
  rw [settled_snoc_of_isWrite accesses h]
  have hsettled := settled_begins accesses
  constructor
  · intro hall
    refine ⟨fun before hfrom hto => hall before hfrom (hto.trans (List.prefix_append ..)), ?_⟩
    rw [hall _ (hsettled.trans (List.prefix_append ..)) (List.prefix_refl _),
      hall _ hsettled (List.prefix_append ..)]
  · rintro ⟨hall, hlast⟩ before hfrom hto
    rcases List.prefix_concat_iff.mp hto with rfl | hto
    · rw [hlast, hall _ hsettled (List.prefix_refl _)]
    · exact hall before hfrom hto

theorem unchanged_of_settled {accesses : List Access} (h : settled accesses = accesses) :
    Unchanged capacity accesses := by
  intro before hfrom hto
  rw [h] at hfrom ⊢
  rw [hto.eq_of_length_le hfrom.length_le]

/-- **The mark of a change** is missing exactly when the image has been the same at every time since
it last counted as unchanged. -/
theorem dirty_afterAll_iff (accesses : List Access) :
    (afterAll capacity accesses).dirty = false ↔ Unchanged capacity accesses := by
  induction accesses using List.reverseRecOn with
  | nil => exact iff_of_true rfl (unchanged_of_settled rfl)
  | append_singleton before x ih =>
    by_cases hwrite : x.isWrite
    · rw [unchanged_snoc before hwrite, ← ih, afterAll_snoc]
      exact (unfailing_afterAll capacity before).dirty_access hwrite
    · rw [afterAll_snoc]
      exact iff_of_true (dirty_access_of_not_isWrite hwrite)
        (unchanged_of_settled (settled_snoc_of_not_isWrite before hwrite))

/-- **The law of the program memory.** After any accesses to a new memory of any capacity, a read or
a write of so many bytes succeeds if and only if it stays inside the image and the image has at most
65536 bytes. A read then gives, byte by byte, what was last written or loaded there, and the erased
byte where nothing was since. A write that does not succeed is out of bounds and leaves the memory as
it is. The memory answers that nothing has changed if and only if the image has been the same at every
time since it was last asked or loaded, or new; so the image is then what it was at that time. -/
theorem access_law (capacity : Nat) (accesses : List Access) :
    let m := afterAll capacity accesses
    (∀ addr n, m.read addr n = if addr + n ≤ capacity ∧ capacity ≤ 65536 then
      .ok (stretch (lastPut capacity accesses) addr n) else .error .outOfBounds) ∧
    (∀ addr data, (∃ m', m.write addr data = .ok m') ↔
      addr + data.length ≤ capacity ∧ capacity ≤ 65536) ∧
    (∀ addr data, (∃ m', m.write addr data = .ok m') ∨
      m.write addr data = .error .outOfBounds ∧ m.access (.write addr data) = m) ∧
    (m.takeDirty.1 = false ↔ Unchanged capacity accesses) ∧
    (m.takeDirty.1 = false → m.image = (afterAll capacity (settled accesses)).image) := by
  intro m
  have unfailing : Unfailing capacity m := unfailing_afterAll capacity accesses
  refine ⟨?_, ?_, ?_, dirty_afterAll_iff accesses, ?_⟩
  · intro addr n
    rw [unfailing.read_eq]
    split
    · rename_i hin
      have hbytes : stretch m.byteAt addr n = stretch (lastPut capacity accesses) addr n := by
        apply stretch_congr
        intro a _ ha
        exact byteAt_afterAll accesses (Nat.lt_of_lt_of_le ha hin.1)
      rw [hbytes]
    · rfl
  · intro addr data
    rcases unfailing.write_cases addr data with ⟨hin, htaken⟩ | ⟨hout, hrefused⟩
    · exact iff_of_true htaken hin
    · refine iff_of_false ?_ hout
      rintro ⟨m', hwrite⟩
      rw [hrefused] at hwrite
      cases hwrite
  · intro addr data
    rcases unfailing.write_cases addr data with ⟨-, htaken⟩ | ⟨-, hrefused⟩
    · exact .inl htaken
    · exact .inr ⟨hrefused, access_of_refused hrefused⟩
  · intro hclean
    have hunchanged := (dirty_afterAll_iff accesses).mp hclean
    exact hunchanged accesses (settled_begins accesses) (List.prefix_refl accesses)

/-- A byte is written and written back. The image is as it was, and yet it counts as changed. -/
example :
    let m := afterAll 4 [.load [1, 2], .write 1 [7], .write 1 [2]]
    m.image = #[1, 2, 0xFF, 0xFF] ∧ m.takeDirty.1 = true ∧
      m.image = (afterAll 4 [.load [1, 2]]).image := by
  decide

end RoomControl.ProgramMemory
