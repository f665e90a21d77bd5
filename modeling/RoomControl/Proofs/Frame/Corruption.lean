import RoomControl.Proofs.Frame.Stream
import RoomControl.Proofs.Message.Encoding

/-!
# One corrupted byte

Both checksums are sums modulo 256, and a sum changes when exactly one of its bytes does
(`additiveSum_set_ne`). A frame carries the byte that balances the sum and a message the sum itself;
in both one corrupted byte is noticed, wherever under the checksum it stands and also when it is the
checksum (`corruption_detected`).

A frame's sync byte and length field are left out: a reader that is told another length waits for
another last byte. So is a message's tag, which its sum does not cover. Of two corrupted bytes
nothing is said, they may cancel out.
-/

set_option autoImplicit false

namespace RoomControl

theorem additiveSum_set {bytes : Bytes} {i : Nat} (h : i < bytes.length) (byte : UInt8) :
    additiveSum (bytes.set i byte) + bytes[i] = additiveSum bytes + byte := by
  induction bytes generalizing i with
  | nil => cases h
  | cons first rest ih =>
    cases i with
    | zero =>
      simp only [List.set_cons_zero, List.getElem_cons_zero, additiveSum_cons]
      grind
    | succ i =>
      have hrest := ih (Nat.lt_of_succ_lt_succ h)
      simp only [List.set_cons_succ, List.getElem_cons_succ, additiveSum_cons]
      grind

/-- **A sum changes with any one of its bytes.** -/
theorem additiveSum_set_ne {bytes : Bytes} {i : Nat} {byte : UInt8} (h : i < bytes.length)
    (hne : bytes[i]? ≠ some byte) : additiveSum (bytes.set i byte) ≠ additiveSum bytes := by
  intro hsame
  have hsum := additiveSum_set h byte
  rw [hsame] at hsum
  apply hne
  rw [List.getElem?_eq_getElem h]
  grind

/-! ## Frames -/

namespace Frame

/-- A checksum is the one byte that brings the sum of what it covers back to zero. -/
theorem eq_checksum_iff (f : Frame) (sum : UInt8) :
    sum = f.checksum ↔
      additiveSum (wordBytes f.lengthField ++ (f.opcode :: f.payload.bytes ++ [sum])) = 0 := by
  simp only [checksum, checksumOf, balancingByte, additiveSum_append, additiveSum_cons,
    List.cons_append, additiveSum_nil]
  grind

/-- Bytes that are as many as stand behind the length field of a frame are those of a frame of the
same length, but for their sum. -/
theorem exists_of_length (f : Frame) {bytes : Bytes} (h : bytes.length = f.payload.size + 2) :
    ∃ (g : Frame) (sum : UInt8), bytes = g.opcode :: g.payload.bytes ++ [sum] ∧
      g.lengthField = f.lengthField ∧ g.payload.size = f.payload.size := by
  cases bytes with
  | nil => cases h
  | cons opcode rest =>
    have hrest : rest ≠ [] := by
      rintro rfl
      simp at h
    have hsize : rest.dropLast.length = f.payload.size := by
      rw [List.length_dropLast]
      rw [List.length_cons] at h
      omega
    have hfits : rest.dropLast.length ≤ 128 := hsize ▸ f.payload.fits
    refine ⟨⟨opcode, rest.dropLast, hfits⟩, rest.getLast hrest, ?_, ?_, hsize⟩
    · rw [List.cons_append, List.dropLast_concat_getLast]
    · simp only [lengthField, Buffer.size] at hsize ⊢
      rw [hsize]

/-- **One corrupted byte of a frame** makes its checksum wrong, behind the length field. -/
theorem feedAll_corrupted (f : Frame) {i : Nat} {byte : UInt8} (hi : 3 ≤ i)
    (hlt : i < f.toBytes.length) (hne : f.toBytes[i]? ≠ some byte) :
    FrameReader.feedAll .idle (f.toBytes.set i byte) =
      (List.replicate (f.toBytes.length - 1) (.ok none) ++ [.error .invalidChecksum], .idle) := by
  obtain ⟨k, rfl⟩ := Nat.exists_eq_add_of_le' hi
  have hbytes : f.toBytes = sync :: highByte f.lengthField :: lowByte f.lengthField ::
      (f.opcode :: f.payload.bytes ++ [f.checksum]) := rfl
  generalize hcovered : f.opcode :: f.payload.bytes ++ [f.checksum] = covered at hbytes
  have hcount : covered.length = f.payload.size + 2 := by
    simp [← hcovered, Buffer.size]
  rw [hbytes] at hlt hne ⊢
  simp only [List.length_cons, List.getElem?_cons_succ, List.set_cons_succ] at hlt hne ⊢
  have hlt : k < covered.length := by omega
  have hsame : (covered.set k byte).length = f.payload.size + 2 := by
    rw [List.length_set, hcount]
  obtain ⟨g, sum, hset, hlength, hsize⟩ := f.exists_of_length hsame
  have hsum : sum ≠ g.checksum := by
    intro h
    rw [eq_checksum_iff, ← hset, hlength] at h
    have hvalid := (f.eq_checksum_iff f.checksum).mp rfl
    rw [hcovered] at hvalid
    apply additiveSum_set_ne hlt hne
    simp only [additiveSum_append] at h hvalid
    grind
  have hwhole : sync :: highByte f.lengthField :: lowByte f.lengthField ::
      (g.opcode :: g.payload.bytes ++ [sum]) =
        sync :: (wordBytes g.lengthField ++ g.opcode :: g.payload.bytes) ++ [sum] := by
    rw [hlength]
    rfl
  have hbefore : covered.length + 1 + 1 + 1 - 1 = g.payload.size + 4 := by
    rw [hcount, hsize]
    rfl
  rw [hset, hwhole, FrameReader.feedAll_summed, if_neg hsum, hbefore]

end Frame

/-! ## Messages -/

/-- **One corrupted byte of a packet** is refused as a wrong sum, if it is not the tag. -/
theorem Message.decode_corrupted {kind : Kind} {body : Bytes} {i : Nat} {byte : UInt8} (hi : 1 ≤ i)
    (hlt : i < (packet kind body).length) (hne : (packet kind body)[i]? ≠ some byte) :
    decode ((packet kind body).set i byte) = .error .invalidChecksum := by
  obtain ⟨k, rfl⟩ := Nat.exists_eq_add_of_le' hi
  cases k with
  | zero =>
    have hsum : additiveSum body ≠ byte := fun h => hne (congrArg some h)
    exact if_neg hsum
  | succ k =>
    have hlt : k < body.length := by
      rw [length_packet] at hlt
      omega
    have hsum : additiveSum (body.set k byte) ≠ additiveSum body := additiveSum_set_ne hlt hne
    exact if_neg hsum

/-- **One corrupted byte is always detected.** Every frame and every message is written as a whole
into a buffer that has room for it. If one of the written bytes is changed, the reader refuses the
frame at its last byte, for its checksum, and is idle then; and the message is refused for its sum. Of
a frame the first three bytes are excepted, of a message the tag. -/
theorem corruption_detected :
    (∀ (f : Frame) (buffer : Bytes), f.toBytes.length ≤ buffer.length →
      ∃ written, f.encodeInto buffer = .ok (f.toBytes.length, written) ∧
        written.take f.toBytes.length = f.toBytes ∧
        ∀ i byte, 3 ≤ i → i < f.toBytes.length → written[i]? ≠ some byte →
          FrameReader.feedAll .idle ((written.take f.toBytes.length).set i byte) =
            (List.replicate (f.toBytes.length - 1) (.ok none) ++ [.error .invalidChecksum], .idle)) ∧
    ∀ (m : Message) (buffer : Bytes), m.toBytes.length ≤ buffer.length →
      ∃ written, m.encode buffer = .ok (m.toBytes.length, written) ∧
        written.take m.toBytes.length = m.toBytes ∧
        ∀ i byte, 1 ≤ i → i < m.toBytes.length → written[i]? ≠ some byte →
          Message.decode ((written.take m.toBytes.length).set i byte) = .error .invalidChecksum := by
  constructor
  · intro f buffer hroom
    have hwhole : (f.toBytes ++ buffer.drop f.toBytes.length).take f.toBytes.length = f.toBytes :=
      List.take_left
    refine ⟨_, f.encodeInto_of_le hroom, hwhole, fun i byte hi hlt hne => ?_⟩
    rw [List.getElem?_append_left hlt] at hne
    rw [hwhole]
    exact f.feedAll_corrupted hi hlt hne
  · intro m buffer hroom
    have hwhole : (m.toBytes ++ buffer.drop m.toBytes.length).take m.toBytes.length = m.toBytes :=
      List.take_left
    refine ⟨m.toBytes ++ buffer.drop m.toBytes.length,
      Message.encodeInto_of_fits m.body.fits hroom, hwhole, fun i byte hi hlt hne => ?_⟩
    rw [List.getElem?_append_left hlt] at hne
    rw [hwhole]
    exact Message.decode_corrupted hi hlt hne

/-- Two corrupted bytes may pass: an opcode raised and a parameter lowered by one. -/
example : ((FrameReader.feedAll .idle [0xAA, 0x00, 0x02, 0x1C, 0x01, 0xE1]).1,
    (FrameReader.feedAll .idle [0xAA, 0x00, 0x02, 0x1D, 0x00, 0xE1]).1) =
      (List.replicate 5 (.ok none) ++ [.ok (some ⟨0x1C, [0x01], by decide⟩)],
        List.replicate 5 (.ok none) ++ [.ok (some ⟨0x1D, [0x00], by decide⟩)]) := rfl

end RoomControl
