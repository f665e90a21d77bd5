import RoomControl.Frame.Reader

/-!
# A reader takes in what a frame writes

Fed the bytes of a frame, an idle reader answers nothing up to the checksum and then the frame
(`feeds_frame`, `feed_checksum`).
-/

set_option autoImplicit false

namespace RoomControl.FrameReader

/-- The bytes are taken in without an answer. -/
inductive Feeds : FrameReader → Bytes → FrameReader → Prop
  | nil (reader : FrameReader) : Feeds reader [] reader
  | cons {reader next last : FrameReader} {byte : UInt8} {rest : Bytes} :
      reader.feed byte = (.ok none, next) → Feeds next rest last → Feeds reader (byte :: rest) last

/-- The bytes of a payload, of which `held` came already. -/
theorem feeds_payload {length : UInt16} {code : UInt8} {payload : Buffer 128}
    (hlength : announced length = payload.size) {rest : Bytes} {held : Buffer 128}
    (hrest : rest ≠ []) (hpayload : payload.bytes = held.bytes ++ rest) :
    Feeds (.payload length code held) rest (.checksum length code payload) := by
  induction rest generalizing held with
  | nil => exact absurd rfl hrest
  | cons byte rest ih =>
    have hsize : payload.size = held.size + (rest.length + 1) := by
      rw [Buffer.size, hpayload, List.length_append, List.length_cons, Buffer.size]
    have hroom : held.size < 128 := by
      have hmax : payload.size ≤ 128 := payload.fits
      omega
    obtain ⟨longer, hpush, hbytes, hlonger⟩ := Buffer.exists_push? hroom byte
    cases rest with
    | nil =>
      have hlast : longer = payload := Buffer.ext (by rw [hbytes, hpayload])
      refine .cons ?_ (.nil _)
      simp only [feed, hpush]
      rw [hlast, if_pos hlength.symm]
    | cons other rest =>
      have hmore : longer.size ≠ announced length := by
        rw [hlonger, hlength, hsize, List.length_cons]
        omega
      have hnext : (FrameReader.payload length code held).feed byte =
          (.ok none, .payload length code longer) := by
        simp only [feed, hpush]
        rw [if_neg hmore]
      refine .cons hnext (ih (List.cons_ne_nil other rest) ?_)
      rw [hpayload, hbytes, List.append_assoc]
      rfl

/-- **A frame is taken in** up to its checksum. -/
theorem feeds_frame (f : Frame) :
    Feeds .idle (Frame.sync :: (wordBytes f.lengthField ++ f.opcode :: f.payload.bytes))
      (.checksum f.lengthField f.opcode f.payload) := by
  have hlength := f.toNat_lengthField
  have hfits : f.payload.size ≤ Frame.maxPayload := f.payload.fits
  have hannounced : announced f.lengthField = f.payload.size := by
    rw [announced, hlength]
    rfl
  have hopen : ofLength f.lengthField = (.ok none, .opcode f.lengthField) := by
    have hzero : f.lengthField ≠ 0 := by
      intro h
      rw [h] at hlength
      cases hlength
    rw [ofLength, if_neg hzero, hannounced, if_neg (Nat.not_lt.mpr hfits)]
  have hlow : (FrameReader.lengthLow (highByte f.lengthField)).feed (lowByte f.lengthField) =
      (.ok none, .opcode f.lengthField) := by
    rw [feed, word_highByte_lowByte]
    exact hopen
  refine .cons rfl (.cons rfl (.cons hlow ?_))
  show Feeds (.opcode f.lengthField) (f.opcode :: f.payload.bytes) _
  by_cases hempty : f.payload.bytes = []
  · have hone : f.lengthField = 1 := by
      rw [Buffer.size, hempty] at hlength
      exact UInt16.toNat_inj.mp hlength
    have hpayload : f.payload = Buffer.empty := Buffer.ext hempty
    rw [hpayload, hone]
    exact .cons rfl (.nil _)
  · have hmore : f.lengthField ≠ 1 := by
      intro h
      rw [h] at hlength
      exact hempty (List.length_eq_zero_iff.mp (Nat.succ.inj hlength).symm)
    have hopcode : (FrameReader.opcode f.lengthField).feed f.opcode =
        (.ok none, .payload f.lengthField f.opcode Buffer.empty) := by
      rw [feed, if_neg hmore]
    exact .cons hopcode (feeds_payload hannounced hempty rfl)

/-- The byte behind a payload is compared with the checksum. -/
theorem feed_sum (f : Frame) (sum : UInt8) :
    (FrameReader.checksum f.lengthField f.opcode f.payload).feed sum =
      (if sum = f.checksum then .ok (some f) else .error .invalidChecksum, .idle) := by
  rw [feed, Frame.checksum]
  by_cases h : sum = Frame.checksumOf f.lengthField f.opcode f.payload.bytes
  · rw [if_pos h, if_pos h]
  · rw [if_neg h, if_neg h]

/-- The checksum completes the frame. -/
theorem feed_checksum (f : Frame) :
    (FrameReader.checksum f.lengthField f.opcode f.payload).feed f.checksum =
      (.ok (some f), .idle) := by
  rw [feed_sum, if_pos rfl]

end RoomControl.FrameReader
