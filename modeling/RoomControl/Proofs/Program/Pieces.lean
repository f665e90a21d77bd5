import RoomControl.Message
import RoomControl.Program.Upload
import RoomControl.Proofs.Program.Layout

/-!
# The pieces of a stored program

A download cuts the stored program into pieces, each in a chunk message of its own. `Message.chunk?`
is what the receiver of such a message finds in it. A chunk that is read holds its piece
(`chunk?_of_readChunk`), and the pieces make up the program (`flatten_pieces`).

The length of the program does not depend on the status byte, so a program that is disabled while it
is downloaded keeps all pieces but the first (`AgreesFrom.piece_eq`).
-/

set_option autoImplicit false

namespace RoomControl

/-- The address and the program bytes in a chunk message. -/
def Message.chunk? (bytes : Bytes) : Option (Nat × Bytes) :=
  match Message.decode bytes with
  | .ok ⟨.chunk, body⟩ =>
    match body.bytes with
    | high :: low :: count :: data => some ((word high low).toNat, data.take count.toNat)
    | _ => none
  | _ => none

namespace ProgramMemory

/-- The bytes of the piece with this number. -/
def piece (m : ProgramMemory) (index : Nat) : Bytes :=
  stretch m.byteAt (index * chunkData) (min (m.programLength - index * chunkData) chunkData)

variable {m m' : ProgramMemory}

theorem lt_chunkCount {index : Nat} :
    index < m.chunkCount ↔ index * chunkData < m.programLength := by
  unfold chunkCount chunkData
  omega

/-! ## Lengths -/

/-- A program ends inside the memory, and 16-bit addresses cover both. -/
theorem programLength_bounds (h : 0 < m.programLength) :
    m.programLength ≤ m.capacity ∧ m.capacity ≤ 65536 ∧ m.programLength ≤ 65535 := by
  unfold programLength at h ⊢
  split at h
  · rename_i layout hlayout
    obtain ⟨wf, hcapacity⟩ := Layout.wellFormed_of_read hlayout
    have hsize : layout.length ≤ m.size := wf.length_bounds.2
    unfold size at hsize
    omega
  · omega

@[simp] theorem length_piece (m : ProgramMemory) (index : Nat) :
    (m.piece index).length = min (m.programLength - index * chunkData) chunkData :=
  length_stretch ..

/-! ## Chunks -/

/-- A device that refuses no read gives every piece of the program. -/
theorem readChunk_of_lt (answers : ∀ addr n, m.refusesRead addr n = false) {index : Nat}
    (h : index < m.chunkCount) :
    m.readChunk index Message.maxBody =
      .ok (some (wordBytes (UInt16.ofNat (index * chunkData)) ++
        UInt8.ofNat (m.piece index).length :: m.piece index)) := by
  have hlt : index * chunkData < m.programLength := lt_chunkCount.mp h
  obtain ⟨hlength, hcapacity, -⟩ := programLength_bounds (Nat.zero_lt_of_lt hlt)
  have hroom : ¬ Message.maxBody <
      3 + min (m.programLength - index * chunkData) chunkData := by
    unfold Message.maxBody chunkData
    omega
  have covers : m.Covers (index * chunkData)
      (min (m.programLength - index * chunkData) chunkData) := ⟨by omega, hcapacity⟩
  unfold readChunk
  dsimp only
  rw [if_neg (Nat.not_le.mpr hlt), if_neg hroom, read_of_covers (answers _ _) covers, length_piece]
  rfl

/-- **A chunk message tells its piece**, with its address. -/
theorem chunk?_piece {index : Nat} (h : index < m.chunkCount) :
    Message.chunk? (Message.packet .chunk (wordBytes (UInt16.ofNat (index * chunkData)) ++
        UInt8.ofNat (m.piece index).length :: m.piece index)) =
      some (index * chunkData, m.piece index) := by
  have hlt : index * chunkData < m.programLength := lt_chunkCount.mp h
  have haddr : (UInt16.ofNat (index * chunkData)).toNat = index * chunkData := by
    have hbound := (programLength_bounds (Nat.zero_lt_of_lt hlt)).2.2
    rw [UInt16.toNat_ofNat']
    omega
  have hpiece : (m.piece index).length ≤ 24 := by
    rw [length_piece]
    exact Nat.min_le_right ..
  have hcount : (UInt8.ofNat (m.piece index).length).toNat = (m.piece index).length := by
    rw [UInt8.toNat_ofNat']
    omega
  generalize m.piece index = data at hpiece hcount
  generalize UInt16.ofNat (index * chunkData) = addr at haddr
  let body : Buffer 30 := ⟨wordBytes addr ++ UInt8.ofNat data.length :: data, by
    simp [wordBytes]
    omega⟩
  have hdecode : Message.decode (Message.mk .chunk body).toBytes = .ok ⟨.chunk, body⟩ :=
    Message.decode_toBytes _ rfl
  show Message.chunk? (Message.mk .chunk body).toBytes = _
  rw [Message.chunk?, hdecode]
  simp [body, wordBytes, hcount, haddr]

/-! ## The whole -/

/-- The first pieces show the start of the program. -/
theorem flatten_pieces_le (m : ProgramMemory) (n : Nat) :
    ((List.range n).map m.piece).flatten =
      stretch m.byteAt 0 (min (n * chunkData) m.programLength) := by
  induction n with
  | zero => simp [stretch]
  | succ n ih =>
    rw [List.range_succ, List.map_append, List.flatten_append, ih]
    simp only [List.map_cons, List.map_nil, List.flatten_cons, List.flatten_nil, List.append_nil]
    by_cases hle : n * chunkData ≤ m.programLength
    · have hnext : min ((n + 1) * chunkData) m.programLength =
          n * chunkData + min (m.programLength - n * chunkData) chunkData := by
        rw [Nat.add_mul]
        omega
      rw [Nat.min_eq_left hle, hnext, stretch_add, Nat.zero_add, piece]
    · have hlast : min ((n + 1) * chunkData) m.programLength = m.programLength := by
        rw [Nat.add_mul]
        omega
      have hnone : min (m.programLength - n * chunkData) chunkData = 0 := by omega
      rw [Nat.min_eq_right (by omega), hlast, piece, hnone]
      simp [stretch]

/-- **The pieces of a program make up the program.** -/
theorem flatten_pieces (h : 0 < m.programLength) :
    ((List.range m.chunkCount).map m.piece).flatten = m.slice 0 m.programLength := by
  have hfits : 0 + m.programLength ≤ m.capacity := by
    rw [Nat.zero_add]
    exact (programLength_bounds h).1
  have hall : min (m.chunkCount * chunkData) m.programLength = m.programLength := by
    unfold chunkCount chunkData
    omega
  rw [flatten_pieces_le, hall, slice_eq_stretch hfits]

/-! ## The status byte -/

theorem AgreesFrom.programLength_eq (h : AgreesFrom 1 m m') :
    m'.programLength = m.programLength := by
  have hsize : m'.size = m.size := by simp only [size, h.capacity_eq]
  have hlayout : Layout.read m' = Layout.read m :=
    Layout.read_congr (fun addr n haddr => h.read_eq haddr) hsize
  simp only [programLength, hlayout]

theorem AgreesFrom.chunkCount_eq (h : AgreesFrom 1 m m') : m'.chunkCount = m.chunkCount := by
  simp only [chunkCount, h.programLength_eq]

/-- A piece that starts where two memories agree is the same in both. -/
theorem AgreesFrom.piece_eq {low : Nat} (h : AgreesFrom low m m') (hlow : low ≤ 1) {index : Nat}
    (hindex : low ≤ index) : m'.piece index = m.piece index := by
  rw [piece, piece, (h.mono hlow).programLength_eq]
  refine stretch_congr fun a ha _ => h.byteAt_eq a ?_
  unfold chunkData at ha
  omega

end ProgramMemory

end RoomControl
