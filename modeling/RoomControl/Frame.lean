import RoomControl.Bytes.Buffer

/-!
# Event frames

The radio module and the USB bridge exchange frames:

    SYNC 0xAA | LENGTH (2 bytes, big-endian) | OPCODE | PAYLOAD | CHECKSUM

LENGTH counts the opcode and the payload, and the checksum brings the sum of LENGTH, OPCODE and
PAYLOAD back to zero. The payload's capacity is part of its type, so every frame has a wire form
and `Frame.toBytes` cannot fail; only a buffer that is too short can.
-/

set_option autoImplicit false

namespace RoomControl

/-- Why bytes are no frame, or a frame does not fit where it should go. -/
inductive FrameError where
  /-- The payload exceeds the capacity of a frame. -/
  | payloadTooLarge
  /-- The length field leaves no room for what the frame must hold. -/
  | invalidLength
  /-- The checksum byte does not balance the frame. -/
  | invalidChecksum
  /-- A test-mode packet does not continue with the expected event code. -/
  | invalidPrefix
  /-- The output buffer is shorter than the frame. -/
  | bufferTooSmall
  deriving DecidableEq, Repr

/-- An event frame: an opcode and its parameters. -/
structure Frame where
  /-- Which command or event this is. -/
  opcode : UInt8
  /-- The parameters. -/
  payload : Buffer 128
  deriving DecidableEq, Repr

namespace Frame

/-- The byte that starts every frame. -/
def sync : UInt8 := 0xAA

/-- The most parameter bytes a frame carries. -/
def maxPayload : Nat := 128

/-- The most bytes a frame takes on the wire. -/
def maxSize : Nat := 133

/-- The frame with this opcode and payload, when the payload fits. -/
def ofPayload (opcode : UInt8) (payload : Bytes) : Except FrameError Frame :=
  match Buffer.ofBytes? payload with
  | some held => .ok ⟨opcode, held⟩
  | none => .error .payloadTooLarge

/-- The frame with this opcode and no payload. -/
def bare (opcode : UInt8) : Frame := ⟨opcode, Buffer.empty⟩

/-- The length field: opcode and payload. -/
def lengthField (f : Frame) : UInt16 := UInt16.ofNat (f.payload.size + 1)

/-- The checksum of a frame with this length field, opcode and payload. -/
def checksumOf (length : UInt16) (opcode : UInt8) (payload : Bytes) : UInt8 :=
  balancingByte (wordBytes length ++ opcode :: payload)

/-- The checksum byte that ends the frame. -/
def checksum (f : Frame) : UInt8 := checksumOf f.lengthField f.opcode f.payload.bytes

/-- The frame as it stands on the wire. -/
def toBytes (f : Frame) : Bytes :=
  sync :: (wordBytes f.lengthField ++ f.opcode :: f.payload.bytes) ++ [f.checksum]

/-- Writes the frame over the start of `buffer`: its length, and the buffer after it. -/
def encodeInto (f : Frame) (buffer : Bytes) : Except FrameError (Nat × Bytes) :=
  match overwrite? buffer f.toBytes with
  | some written => .ok written
  | none => .error .bufferTooSmall

theorem ofPayload_eq_ok_iff {opcode : UInt8} {payload : Bytes} {f : Frame} :
    ofPayload opcode payload = .ok f ↔ f.opcode = opcode ∧ f.payload.bytes = payload := by
  constructor
  · intro h
    unfold ofPayload at h
    split at h
    next held hheld =>
      cases h
      exact ⟨rfl, (Buffer.ofBytes?_eq_some_iff.mp hheld).symm⟩
    next => cases h
  · rintro ⟨rfl, rfl⟩
    rw [ofPayload, Buffer.ofBytes?_bytes]

theorem encodeInto_of_le (f : Frame) {buffer : Bytes} (h : f.toBytes.length ≤ buffer.length) :
    f.encodeInto buffer = .ok (f.toBytes.length, f.toBytes ++ buffer.drop f.toBytes.length) := by
  rw [encodeInto, overwrite?_of_le h]

theorem toNat_lengthField (f : Frame) : f.lengthField.toNat = f.payload.size + 1 := by
  have := f.payload.fits
  simp only [lengthField, Buffer.size, UInt16.toNat_ofNat']
  omega

theorem length_toBytes (f : Frame) : f.toBytes.length = f.payload.size + 5 := by
  simp [toBytes, wordBytes, Buffer.size]

theorem length_toBytes_le (f : Frame) : f.toBytes.length ≤ maxSize := by
  have := f.payload.fits
  rw [length_toBytes]
  simp only [Buffer.size, maxSize]
  omega

end Frame

end RoomControl
