import RoomControl.Program.Memory

/-!
# What an access does to the bytes

Laws of the program memory on the view `byteAt`. A write that is taken puts its data over the old
bytes and leaves every other byte alone (`written_of_write`), and changes nothing where they stand
already (`write_of_shows`); a read that is answered gives the bytes that stand there (`read_eq_ok`).
`Serves` is what a program needs of the memory it runs on: inside one stretch every read is answered,
with the contents that were promised.
-/

set_option autoImplicit false

namespace RoomControl

/-- The byte that `data`, put down at `addr`, leaves at the address `a`. -/
def placed (addr : Nat) (data : Bytes) (a : Nat) : Option UInt8 :=
  if addr ≤ a then data[a - addr]? else none

@[simp] theorem placed_nil (addr a : Nat) : placed addr [] a = none := by
  simp [placed]

theorem placed_cons (addr : Nat) (b : UInt8) (rest : Bytes) (a : Nat) :
    placed addr (b :: rest) a = if a = addr then some b else placed (addr + 1) rest a := by
  unfold placed
  by_cases heq : a = addr
  · subst heq
    simp
  · by_cases hle : addr ≤ a
    · have hstep : a - addr = (a - (addr + 1)) + 1 := by omega
      have hnext : addr + 1 ≤ a := by omega
      simp only [if_pos hle, if_neg heq, if_pos hnext, hstep, List.getElem?_cons_succ]
    · have hnext : ¬ addr + 1 ≤ a := by omega
      simp only [if_neg hle, if_neg heq, if_neg hnext]

theorem placed_eq_none_iff {addr : Nat} {data : Bytes} {a : Nat} :
    placed addr data a = none ↔ a < addr ∨ addr + data.length ≤ a := by
  unfold placed
  split
  · rw [List.getElem?_eq_none_iff]
    omega
  · simp only [true_iff]
    omega

/-- Dropping what lies before an address leaves the rest where it was. -/
theorem placed_drop {addr n : Nat} {data : Bytes} {a : Nat} (h : addr + n ≤ a) :
    placed (addr + n) (data.drop n) a = placed addr data a := by
  have hle : addr ≤ a := by omega
  have hsum : n + (a - (addr + n)) = a - addr := by omega
  simp only [placed, if_pos h, if_pos hle, List.getElem?_drop, hsum]

/-- The `n` bytes that `contents` shows from `addr` on. -/
def stretch (contents : Nat → UInt8) (addr n : Nat) : Bytes :=
  (List.range n).map fun i => contents (addr + i)

/-- The big-endian word that `contents` shows at an address. -/
def wordIn (contents : Nat → UInt8) (addr : Nat) : UInt16 :=
  word (contents addr) (contents (addr + 1))

@[simp] theorem length_stretch (contents : Nat → UInt8) (addr n : Nat) :
    (stretch contents addr n).length = n := by
  simp [stretch]

theorem getElem?_stretch (contents : Nat → UInt8) (addr n i : Nat) :
    (stretch contents addr n)[i]? = if i < n then some (contents (addr + i)) else none := by
  simp only [stretch, List.getElem?_map]
  split <;> simp_all

theorem stretch_add (contents : Nat → UInt8) (addr n k : Nat) :
    stretch contents addr (n + k) = stretch contents addr n ++ stretch contents (addr + n) k := by
  simp only [stretch, List.range_add, List.map_append, List.map_map, Function.comp_def,
    Nat.add_assoc]

theorem stretch_congr {contents contents' : Nat → UInt8} {addr n : Nat}
    (h : ∀ a, addr ≤ a → a < addr + n → contents a = contents' a) :
    stretch contents addr n = stretch contents' addr n := by
  refine List.map_congr_left fun i hi => ?_
  have hi := List.mem_range.mp hi
  exact h _ (by omega) (by omega)

namespace ProgramMemory

/-! ## Reading -/

theorem slice_eq_stretch {m : ProgramMemory} {addr n : Nat} (h : addr + n ≤ m.capacity) :
    m.slice addr n = stretch m.byteAt addr n := by
  refine List.ext_getElem? fun i => ?_
  rw [getElem?_stretch]
  simp only [slice, Array.getElem?_toList, Array.getElem?_extract, capacity] at h ⊢
  split
  · have hi : addr + i < m.image.size := by omega
    simp only [byteAt, Array.getD_eq_getD_getElem?, Array.getElem?_eq_getElem hi, Option.getD_some]
    split
    · rfl
    · omega
  · split
    · omega
    · rfl

/-- **A read that is answered** stays inside the image and gives the bytes that stand there. -/
theorem read_eq_ok {m : ProgramMemory} {addr n : Nat} {bytes : Bytes}
    (h : m.read addr n = .ok bytes) : m.Covers addr n ∧ bytes = stretch m.byteAt addr n := by
  unfold read at h
  split at h
  · cases h
  · split at h
    · rename_i covers
      cases h
      exact ⟨covers, slice_eq_stretch covers.1⟩
    · cases h

/-- A read that the device does not refuse is answered inside the image. -/
theorem read_of_covers {m : ProgramMemory} {addr n : Nat} (answers : m.refusesRead addr n = false)
    (covers : m.Covers addr n) : m.read addr n = .ok (stretch m.byteAt addr n) := by
  simp only [read, answers, Bool.false_eq_true, if_false, if_pos covers, slice_eq_stretch covers.1]

/-- What a read gives depends on the image and on what the device refuses. -/
theorem read_congr {m m' : ProgramMemory} (himage : m'.image = m.image)
    (hrefuses : m'.refusesRead = m.refusesRead) (addr n : Nat) : m'.read addr n = m.read addr n := by
  have covers : m'.Covers addr n ↔ m.Covers addr n := by simp only [Covers, capacity, himage]
  simp only [read, hrefuses, covers, slice, himage]

theorem headD_stretch (contents : Nat → UInt8) (addr n : Nat) (d : UInt8) :
    (stretch contents addr (n + 1)).headD d = contents addr := by
  simp [stretch, List.range_succ_eq_map]

theorem readByte_eq_ok {m : ProgramMemory} {addr : Nat} {b : UInt8}
    (h : m.readByte addr = .ok b) : m.Covers addr 1 ∧ b = m.byteAt addr := by
  unfold readByte at h
  cases hr : m.read addr 1 with
  | error e => rw [hr] at h; cases h
  | ok bytes =>
    rw [hr] at h
    obtain ⟨covers, rfl⟩ := read_eq_ok hr
    cases h
    exact ⟨covers, headD_stretch ..⟩

theorem readWord_eq_ok {m : ProgramMemory} {addr : Nat} {w : UInt16}
    (h : m.readWord addr = .ok w) : m.Covers addr 2 ∧ w = wordIn m.byteAt addr := by
  unfold readWord at h
  cases hr : m.read addr 2 with
  | error e => rw [hr] at h; cases h
  | ok bytes =>
    rw [hr] at h
    obtain ⟨covers, rfl⟩ := read_eq_ok hr
    cases h
    exact ⟨covers, rfl⟩

/-! ## Serving a stretch -/

/-- The device answers every read inside `[low, high)`. -/
def Answers (m : ProgramMemory) (low high : Nat) : Prop :=
  ∀ addr n, low ≤ addr → addr + n ≤ high → m.refusesRead addr n = false

/-- The memory answers every read inside `[low, high)`, and shows `contents` there. Of reads that
touch other bytes nothing is said. -/
def Serves (m : ProgramMemory) (contents : Nat → UInt8) (low high : Nat) : Prop :=
  ∀ addr n, low ≤ addr → addr + n ≤ high → m.read addr n = .ok (stretch contents addr n)

variable {m : ProgramMemory} {contents : Nat → UInt8} {low high : Nat}

/-- A device that answers inside a stretch of the image serves what stands there. -/
theorem serves_of_answers (answers : m.Answers low high) (hhigh : high ≤ m.capacity)
    (hcapacity : m.capacity ≤ 65536) : m.Serves m.byteAt low high :=
  fun addr n hlow hn => read_of_covers (answers addr n hlow hn) ⟨Nat.le_trans hn hhigh, hcapacity⟩

theorem Serves.mono (h : m.Serves contents low high) {high' : Nat} (hle : high' ≤ high) :
    m.Serves contents low high' :=
  fun addr n hlow hn => h addr n hlow (Nat.le_trans hn hle)

/-- What a memory serves is settled by the bytes of the stretch. -/
theorem Serves.congr (h : m.Serves contents low high) {contents' : Nat → UInt8}
    (alike : ∀ a, low ≤ a → a < high → contents a = contents' a) :
    m.Serves contents' low high := by
  intro addr n hlow hn
  rw [h addr n hlow hn]
  exact congrArg _ (stretch_congr fun a ha hlt => alike a (by omega) (by omega))

theorem Serves.readByte (h : m.Serves contents low high) {addr : Nat} (hlow : low ≤ addr)
    (hhigh : addr + 1 ≤ high) : m.readByte addr = .ok (contents addr) := by
  rw [ProgramMemory.readByte, h addr 1 hlow hhigh]
  rfl

theorem Serves.readWord (h : m.Serves contents low high) {addr : Nat} (hlow : low ≤ addr)
    (hhigh : addr + 2 ≤ high) : m.readWord addr = .ok (wordIn contents addr) := by
  rw [ProgramMemory.readWord, h addr 2 hlow hhigh]
  rfl

/-- A device that refuses every read outside a stretch still serves it. -/
theorem Serves.confined (h : m.Serves contents low high) :
    (m.confined low high).Serves contents low high := by
  intro addr n hlow hhigh
  obtain ⟨covers, hbytes⟩ := read_eq_ok (h addr n hlow hhigh)
  have answers : (m.confined low high).refusesRead addr n = false := by
    simp only [ProgramMemory.confined, Bool.not_eq_false', decide_eq_true_eq]
    exact ⟨hlow, hhigh⟩
  rw [read_of_covers answers covers, hbytes]
  rfl

/-! ## Writing -/

theorem getD_patch {image : Array UInt8} {addr : Nat} {data : Bytes} (a : Nat) (d : UInt8)
    (h : addr + data.length ≤ image.size) :
    (patch image addr data).getD a d = (placed addr data a).getD (image.getD a d) := by
  induction data generalizing image addr with
  | nil => simp [patch]
  | cons b rest ih =>
    simp only [List.length_cons] at h
    have hsize : addr + 1 + rest.length ≤ (image.setIfInBounds addr b).size := by
      rw [Array.size_setIfInBounds]
      omega
    have haddr : addr < image.size := by omega
    rw [patch, ih hsize, placed_cons]
    by_cases heq : a = addr
    · subst heq
      have hbefore : placed (a + 1) rest a = none := placed_eq_none_iff.mpr (.inl (by omega))
      simp [hbefore, Array.getD_eq_getD_getElem?, haddr]
    · have hne : ¬ addr = a := fun h => heq h.symm
      simp [if_neg heq, Array.getD_eq_getD_getElem?, hne]

/-- What is loaded stands at the start of the memory, and behind it the memory is erased. -/
theorem byteAt_load (m : ProgramMemory) (data : Bytes) {a : Nat} (h : a < m.capacity) :
    (m.load data).byteAt a = data.getD a erasedByte := by
  have hfits : 0 + (data.take m.capacity).length ≤
      (Array.replicate m.capacity erasedByte).size := by
    rw [Nat.zero_add, Array.size_replicate]
    exact List.length_take_le ..
  rw [byteAt, load, getD_patch a _ hfits, placed, if_pos (Nat.zero_le a), Nat.sub_zero,
    List.getElem?_take_of_lt h, List.getD_eq_getElem?_getD]
  simp [h]

/-- A loaded image stands at the start of the memory. -/
theorem stretch_load {m : ProgramMemory} {data : Bytes} (h : data.length ≤ m.capacity) :
    stretch (m.load data).byteAt 0 data.length = data := by
  refine List.ext_getElem? fun i => ?_
  rw [getElem?_stretch, Nat.zero_add]
  split
  · rename_i hi
    rw [byteAt_load m data (Nat.lt_of_lt_of_le hi h), List.getD_eq_getElem?_getD,
      List.getElem?_eq_getElem hi, Option.getD_some]
  · rename_i hi
    exact (List.getElem?_eq_none (Nat.le_of_not_lt hi)).symm

/-- What a write that was taken has done. -/
structure Written (m : ProgramMemory) (addr : Nat) (data : Bytes) (m' : ProgramMemory) : Prop where
  /-- It stayed inside the image. -/
  covers : m.Covers addr data.length
  capacity_eq : m'.capacity = m.capacity
  refusesRead_eq : m'.refusesRead = m.refusesRead
  writesLeft_eq : m'.writesLeft = m.writesLeft.map (· - 1)
  /-- The data stands over the old bytes. -/
  byteAt_eq : ∀ a, m'.byteAt a = (placed addr data a).getD (m.byteAt a)

/-- **A write that is taken** puts its data down and leaves every other byte alone. -/
theorem written_of_write {m m' : ProgramMemory} {addr : Nat} {data : Bytes}
    (h : m.write addr data = .ok m') : m.Written addr data m' := by
  unfold write at h
  split at h
  · cases h
  · split at h
    · rename_i covers
      dsimp only at h
      split at h
      · rename_i same
        cases h
        refine ⟨covers, rfl, rfl, rfl, fun a => ?_⟩
        -- the data equals what stood there, so the overlay shows the old byte
        show m.byteAt a = _
        rw [← same, slice_eq_stretch covers.1, placed]
        split
        · rw [getElem?_stretch]
          split
          · rw [Option.getD_some]
            congr 1
            omega
          · rfl
        · rfl
      · cases h
        refine ⟨covers, ?_, rfl, rfl, fun a => getD_patch a _ covers.1⟩
        simp [capacity]
    · cases h

/-- A write that stays inside the image is taken, as long as the device takes writes at all. -/
theorem write_eq_ok_iff {m : ProgramMemory} {addr : Nat} {data : Bytes}
    (covers : m.Covers addr data.length) :
    (∃ m', m.write addr data = .ok m') ↔ m.writesLeft ≠ some 0 := by
  unfold write
  by_cases hleft : m.writesLeft = some 0
  · rw [if_pos hleft]
    exact iff_of_false nofun fun h => h hleft
  · rw [if_neg hleft, if_pos covers]
    refine iff_of_true ?_ hleft
    dsimp only
    split
    · exact ⟨_, rfl⟩
    · exact ⟨_, rfl⟩

theorem write_of_covers {m : ProgramMemory} {addr : Nat} {data : Bytes}
    (takes : m.writesLeft = none) (covers : m.Covers addr data.length) :
    ∃ m', m.write addr data = .ok m' :=
  (write_eq_ok_iff covers).mpr (by rw [takes]; nofun)

variable {m m' : ProgramMemory} {addr : Nat} {data : Bytes}

/-- A write leaves the bytes alone that it does not reach. -/
theorem Written.byteAt_of_lt (h : m.Written addr data m') {a : Nat} (ha : a < addr) :
    m'.byteAt a = m.byteAt a := by
  rw [h.byteAt_eq, placed_eq_none_iff.mpr (.inl ha), Option.getD_none]

theorem Written.byteAt_of_le (h : m.Written addr data m') {a : Nat}
    (ha : addr + data.length ≤ a) : m'.byteAt a = m.byteAt a := by
  rw [h.byteAt_eq, placed_eq_none_iff.mpr (.inr ha), Option.getD_none]

/-! ## Writing what stands there -/

/-- The data stands at this address. -/
def Shows (m : ProgramMemory) (addr : Nat) (data : Bytes) : Prop :=
  ∀ a b, placed addr data a = some b → m.byteAt a = b

theorem Written.shows (h : m.Written addr data m') : m'.Shows addr data := by
  intro a b hplaced
  rw [h.byteAt_eq, hplaced, Option.getD_some]

theorem Shows.slice_eq (h : m.Shows addr data) (covers : m.Covers addr data.length) :
    m.slice addr data.length = data := by
  rw [slice_eq_stretch covers.1]
  refine List.ext_getElem? fun i => ?_
  rw [getElem?_stretch]
  split
  · rename_i hi
    have hplaced : placed addr data (addr + i) = some data[i] := by
      rw [placed, if_pos (Nat.le_add_right ..), Nat.add_sub_cancel_left,
        List.getElem?_eq_getElem hi]
    rw [h _ _ hplaced, List.getElem?_eq_getElem hi]
  · rename_i hi
    exact (List.getElem?_eq_none (Nat.le_of_not_lt hi)).symm

/-- **Writing what stands there** leaves the memory as it is. -/
theorem write_of_shows (takes : m.writesLeft = none) (covers : m.Covers addr data.length)
    (h : m.Shows addr data) : m.write addr data = .ok m := by
  have hleft : m.writesLeft ≠ some 0 := by
    rw [takes]
    exact fun h => by cases h
  have hsame : { m with writesLeft := m.writesLeft.map (· - 1) } = m := by
    rw [takes, Option.map_none, ← takes]
  rw [write, if_neg hleft, if_pos covers]
  dsimp only
  rw [if_pos (h.slice_eq covers), hsame]

/-- **A write that changes something** is marked. -/
theorem eq_or_marked_of_write (takes : m.writesLeft = none) (h : m.write addr data = .ok m') :
    m' = m ∨ m'.dirty = true ∧ m'.image ≠ m.image := by
  have written := written_of_write h
  by_cases hshows : m.Shows addr data
  · rw [write_of_shows takes written.covers hshows] at h
    cases h
    exact .inl rfl
  · have himage : m'.image ≠ m.image := by
      intro himage
      refine hshows fun a b hplaced => ?_
      rw [byteAt, ← himage]
      exact written.shows a b hplaced
    refine .inr ⟨?_, himage⟩
    unfold write at h
    rw [if_neg (by simp [takes]), if_pos written.covers] at h
    dsimp only at h
    split at h
    · cases h
      exact absurd rfl himage
    · cases h
      rfl

/-- A memory that takes every write goes on doing so. -/
theorem takes_of_write (takes : m.writesLeft = none) (h : m.write addr data = .ok m') :
    m'.writesLeft = none := by
  rw [(written_of_write h).writesLeft_eq, takes, Option.map_none]

theorem write_again (takes : m.writesLeft = none) (h : m.write addr data = .ok m') :
    m'.write addr data = .ok m' := by
  have written := written_of_write h
  have covers : m'.Covers addr data.length := by
    have covers := written.covers
    rw [Covers, ← written.capacity_eq] at covers
    exact covers
  exact write_of_shows (takes_of_write takes h) covers written.shows

/-! ## Memories that agree -/

/-- From `low` on the two memories hold the same, and their devices refuse the same reads. -/
structure AgreesFrom (low : Nat) (m m' : ProgramMemory) : Prop where
  capacity_eq : m'.capacity = m.capacity
  refusesRead_eq : m'.refusesRead = m.refusesRead
  byteAt_eq : ∀ a, low ≤ a → m'.byteAt a = m.byteAt a

variable {m'' : ProgramMemory} {low : Nat}

theorem agreesFrom_of_image (himage : m'.image = m.image)
    (hrefuses : m'.refusesRead = m.refusesRead) (low : Nat) : AgreesFrom low m m' where
  capacity_eq := congrArg Array.size himage
  refusesRead_eq := hrefuses
  byteAt_eq a _ := congrArg (fun image => Array.getD image a erasedByte) himage

theorem AgreesFrom.refl (low : Nat) (m : ProgramMemory) : AgreesFrom low m m :=
  agreesFrom_of_image rfl rfl low

theorem AgreesFrom.trans (first : AgreesFrom low m m') (second : AgreesFrom low m' m'') :
    AgreesFrom low m m'' where
  capacity_eq := second.capacity_eq.trans first.capacity_eq
  refusesRead_eq := second.refusesRead_eq.trans first.refusesRead_eq
  byteAt_eq a ha := (second.byteAt_eq a ha).trans (first.byteAt_eq a ha)

theorem AgreesFrom.mono (h : AgreesFrom low m m') {high : Nat} (hle : low ≤ high) :
    AgreesFrom high m m' :=
  ⟨h.capacity_eq, h.refusesRead_eq, fun a ha => h.byteAt_eq a (Nat.le_trans hle ha)⟩

/-- Reads behind `low` are answered alike. -/
theorem AgreesFrom.read_eq (h : AgreesFrom low m m') {a n : Nat} (ha : low ≤ a) :
    m'.read a n = m.read a n := by
  have covers : m'.Covers a n ↔ m.Covers a n := by simp only [Covers, h.capacity_eq]
  unfold read
  rw [h.refusesRead_eq]
  split
  · rfl
  · by_cases hc : m.Covers a n
    · rw [if_pos hc, if_pos (covers.mpr hc), slice_eq_stretch hc.1,
        slice_eq_stretch (covers.mpr hc).1]
      exact congrArg _ (stretch_congr fun b hb _ => h.byteAt_eq b (Nat.le_trans ha hb))
    · rw [if_neg hc, if_neg fun hc' => hc (covers.mp hc')]

/-- A write changes nothing behind its data. -/
theorem Written.agreesFrom (h : m.Written addr data m') : AgreesFrom (addr + data.length) m m' :=
  ⟨h.capacity_eq, h.refusesRead_eq, fun _ => h.byteAt_of_le⟩

/-- A write before a stretch does not change what is read there. -/
theorem Written.read_eq (h : m.Written addr data m') {a n : Nat} (ha : addr + data.length ≤ a) :
    m'.read a n = m.read a n :=
  h.agreesFrom.read_eq ha

end ProgramMemory

end RoomControl
