import RoomControl.Program.Upload
import RoomControl.Proofs.Program.Memory

/-!
# What an upload does to the memory

The operations of an upload, taken apart once. `Upload.Taken` lists everything a chunk can lead to,
and `taken_chunk` says that the list is complete; later proofs split on it and never unfold
`Upload.chunk`. `Upload.Stored` is what the part of a chunk that is not held back does to the
memory: nothing in front of the address 2, and the chunk's bytes from there on. Since the operations
only write, they keep whatever a single write keeps (`keeps_begin`, `keeps_chunk`).
-/

set_option autoImplicit false

namespace RoomControl.Upload

/-! ## Storing a chunk -/

/-- What storing a chunk has done. -/
structure Stored (m : ProgramMemory) (addr : Nat) (data : Bytes) (m' : ProgramMemory) : Prop where
  capacity_eq : m'.capacity = m.capacity
  refusesRead_eq : m'.refusesRead = m.refusesRead
  /-- A memory that takes every write goes on doing so. -/
  takes : m.writesLeft = none → m'.writesLeft = none
  /-- The bytes held back are not written. -/
  header : ∀ a, a < heldLength → m'.byteAt a = m.byteAt a
  /-- Behind them the chunk stands over the old bytes. -/
  body : ∀ a, heldLength ≤ a → m'.byteAt a = (placed addr data a).getD (m.byteAt a)

theorem stored_of_store {m m' : ProgramMemory} {addr : Nat} {data : Bytes}
    (h : store m addr data = .ok m') : Stored m addr data m' := by
  unfold store at h
  cases hdrop : data.drop (heldLength - addr) with
  | nil =>
    rw [hdrop] at h
    cases h
    have hlen : data.length ≤ heldLength - addr := List.drop_eq_nil_iff.mp hdrop
    refine ⟨rfl, rfl, id, fun _ _ => rfl, fun a ha => ?_⟩
    have hnone : placed addr data a = none := by
      rw [placed_eq_none_iff]
      omega
    rw [hnone, Option.getD_none]
  | cons b rest =>
    rw [hdrop] at h
    have written := ProgramMemory.written_of_write h
    have haddr : max addr heldLength = addr + (heldLength - addr) := by omega
    refine ⟨written.capacity_eq, written.refusesRead_eq, fun takes => ?_, fun a ha => ?_,
      fun a ha => ?_⟩
    · rw [written.writesLeft_eq, takes, Option.map_none]
    · exact written.byteAt_of_lt (by omega)
    · rw [written.byteAt_eq, ← hdrop, haddr]
      by_cases hle : addr + (heldLength - addr) ≤ a
      · rw [placed_drop hle]
      · -- the chunk starts behind the held bytes, and this address lies before it
        have hbefore : a < addr := by omega
        rw [placed_eq_none_iff.mpr (.inl hbefore), placed_eq_none_iff.mpr (.inl (by omega))]

/-- A memory that takes every write stores every chunk that ends inside it. -/
theorem store_of_covers {m : ProgramMemory} {addr : Nat} {data : Bytes}
    (takes : m.writesLeft = none) (covers : m.Covers addr data.length) :
    ∃ m', store m addr data = .ok m' := by
  unfold store
  cases hdrop : data.drop (heldLength - addr) with
  | nil => exact ⟨m, rfl⟩
  | cons b rest =>
    have hlen := congrArg List.length hdrop
    simp only [List.length_drop, List.length_cons] at hlen
    refine ProgramMemory.write_of_covers takes ⟨?_, covers.2⟩
    have := covers.1
    simp only [List.length_cons]
    omega

/-! ## Opening an upload -/

/-- What opening an upload can lead to. -/
inductive Begun (open? : Option Upload) (m : ProgramMemory) (total : Nat) (source : Channel) :
    Except TransferError Unit × Option Upload × ProgramMemory → Prop
  /-- The announced length is refused, and nothing changes. -/
  | refused : total < minLength ∨ m.size < total →
      Begun open? m total source (.error .invalidLength, open?, m)
  /-- The memory fails, and an upload that was open is given up. -/
  | failed (e : MemoryError) : Begun open? m total source (.error (.memory e), none, m)
  | opened {m' : ProgramMemory} : minLength ≤ total → total ≤ m.size →
      m.write 0 [statusDisabled, 0] = .ok m' →
      Begun open? m total source (.ok (), some { total, source }, m')

theorem begun_begin (open? : Option Upload) (m : ProgramMemory) (total : Nat) (source : Channel) :
    Begun open? m total source (begin open? m total source) := by
  unfold begin
  split
  · exact .refused ‹_›
  · rename_i hlen
    cases hw : m.write 0 [statusDisabled, 0] with
    | error e => exact .failed e
    | ok m' => exact .opened (by omega) (by omega) hw

/-! ## Taking a chunk -/

/-- A chunk is not empty and ends inside the announced length. -/
def InRange (u : Upload) (addr : Nat) (data : Bytes) : Prop :=
  data ≠ [] ∧ addr + data.length ≤ u.total

/-- What taking a chunk can lead to. -/
inductive Taken (m : ProgramMemory) (addr : Nat) (data : Bytes) :
    Option Upload → Except TransferError ChunkOutcome × Option Upload × ProgramMemory → Prop
  | closed : Taken m addr data none (.error .notStarted, none, m)
  | outOfRange {u : Upload} : ¬ u.InRange addr data →
      Taken m addr data (some u) (.error .outOfRange, some u, m)
  /-- The memory fails, and only the held bytes may be new. -/
  | failed {u : Upload} {e : MemoryError} : u.InRange addr data → store m addr data = .error e →
      Taken m addr data (some u) (.error (.memory e), some (u.hold addr data), m)
  | stored {u : Upload} {m' : ProgramMemory} : u.InRange addr data →
      addr + data.length < u.total → store m addr data = .ok m' →
      Taken m addr data (some u) (.ok .stored, some (u.hold addr data), m')
  /-- The chunk ends at the announced length, and the upload is closed. -/
  | finished {u : Upload} {m' : ProgramMemory} : u.InRange addr data →
      addr + data.length = u.total → store m addr data = .ok m' →
      Taken m addr data (some u)
        (((u.hold addr data).finish m').1, none, ((u.hold addr data).finish m').2)

theorem taken_chunk (open? : Option Upload) (m : ProgramMemory) (addr : Nat) (data : Bytes) :
    Taken m addr data open? (chunk open? m addr data) := by
  unfold chunk
  cases open? with
  | none => exact .closed
  | some u =>
    dsimp only
    split
    · rename_i hout
      refine .outOfRange fun hin => ?_
      rcases hout with hempty | hpast
      · exact hin.1 hempty
      · have := hin.2
        omega
    · rename_i hin
      have hrange : u.InRange addr data := ⟨fun h => hin (.inl h), by omega⟩
      cases hs : store m addr data with
      | error e => exact .failed hrange hs
      | ok m' =>
        dsimp only
        have htotal : (u.hold addr data).total = u.total := by
          unfold hold
          split
          · rfl
          · rfl
        rw [htotal]
        split
        · exact .stored hrange ‹_› hs
        · have := hrange.2
          exact .finished hrange (by omega) hs

/-! ## What every write keeps -/

section Keeping

variable {P : ProgramMemory → Prop}
variable (keeps : ∀ m addr data m', P m → m.write addr data = .ok m' → P m')
variable {m m' : ProgramMemory} (h : P m)

include keeps h

theorem keeps_begin (open? : Option Upload) (total : Nat) (source : Channel) :
    P (begin open? m total source).2.2 := by
  have begun := begun_begin open? m total source
  generalize begin open? m total source = answer at begun
  cases begun with
  | refused _ => exact h
  | failed _ => exact h
  | opened _ _ hwrite => exact keeps _ _ _ _ h hwrite

theorem keeps_store {addr : Nat} {data : Bytes} (hstore : store m addr data = .ok m') : P m' := by
  unfold store at hstore
  split at hstore
  · cases hstore
    exact h
  · exact keeps _ _ _ _ h hstore

theorem keeps_finish (u : Upload) : P (u.finish m).2 := by
  unfold finish
  cases hcount : m.write 1 [u.heldCount] with
  | error e => exact h
  | ok m₁ =>
    have h₁ := keeps _ _ _ _ h hcount
    dsimp only
    split
    · exact h₁
    · cases henable : m₁.write 0 [statusEnabled] with
      | error e => exact h₁
      | ok m₂ => exact keeps _ _ _ _ h₁ henable

theorem keeps_chunk (open? : Option Upload) (addr : Nat) (data : Bytes) :
    P (chunk open? m addr data).2.2 := by
  have taken := taken_chunk open? m addr data
  generalize chunk open? m addr data = answer at taken
  cases taken with
  | closed => exact h
  | outOfRange _ => exact h
  | failed _ _ => exact h
  | stored _ _ hstore => exact keeps_store keeps h hstore
  | finished _ _ hstore => exact keeps_finish keeps (keeps_store keeps h hstore) _

end Keeping

end RoomControl.Upload
