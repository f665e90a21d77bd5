import RoomControl.Bytes.Buffer

/-!
# Application messages

The payload that the node and its peer exchange is a message:

    KIND | CHECKSUM | BODY (at most 30 bytes)

The checksum is the additive sum of the body. Decoding checks the header first, then the checksum,
then the size, so of two faults the earlier in this order is reported.
-/

set_option autoImplicit false

namespace RoomControl

/-- Why bytes are no message, or a body cannot be sent. -/
inductive MessageError where
  /-- Fewer bytes than the message needs. -/
  | tooShort
  /-- The checksum is not the sum of the body. -/
  | invalidChecksum
  /-- The body or the message does not fit. -/
  | tooLarge
  deriving DecidableEq, Repr

/-- What a message is about. -/
inductive Kind where
  /-- Acknowledges a message by its sum. -/
  | echo
  /-- Firmware version, module status and name. -/
  | identity
  /-- Length and sum of the stored program. -/
  | consistency
  /-- Program bytes at an address. -/
  | chunk
  /-- An upload starts. -/
  | uploadBegin
  /-- Interpreter status and current state. -/
  | programState
  /-- Asks for a state transition. -/
  | enter
  /-- Asks for one peripheral action. -/
  | action
  /-- The output levels. -/
  | outputs
  /-- One LED's colour. -/
  | led
  /-- One display line. -/
  | displayLine
  /-- Humidity and temperature. -/
  | sensor
  /-- One paired device. -/
  | pairedDevice
  /-- Asks the node to send a kind. -/
  | request
  /-- Diagnostic counters. -/
  | debug
  /-- A tag with no meaning here. -/
  | other (tag : UInt8)
  deriving DecidableEq, Repr

namespace Kind

/-- The kind that a tag stands for. -/
def ofTag (tag : UInt8) : Kind :=
  match tag with
  | 0x00 => echo
  | 0x01 => identity
  | 0x02 => consistency
  | 0x03 => chunk
  | 0x04 => uploadBegin
  | 0x05 => programState
  | 0x06 => enter
  | 0x07 => action
  | 0x10 => outputs
  | 0x11 => led
  | 0x12 => displayLine
  | 0x13 => sensor
  | 0x14 => pairedDevice
  | 0x1E => request
  | 0x1F => debug
  | t => other t

/-- The tag of a kind. -/
def tag : Kind → UInt8
  | echo => 0x00
  | identity => 0x01
  | consistency => 0x02
  | chunk => 0x03
  | uploadBegin => 0x04
  | programState => 0x05
  | enter => 0x06
  | action => 0x07
  | outputs => 0x10
  | led => 0x11
  | displayLine => 0x12
  | sensor => 0x13
  | pairedDevice => 0x14
  | request => 0x1E
  | debug => 0x1F
  | other t => t

/-- The kinds that are sent as one packet per list item. -/
def isList : Kind → Bool
  | chunk | led | displayLine | pairedDevice => true
  | _ => false

/-- Every tag stands for a kind with that tag. -/
@[simp] theorem tag_ofTag (t : UInt8) : (ofTag t).tag = t := by
  unfold ofTag
  split <;> rfl

end Kind

/-- A kind and its body. -/
structure Message where
  kind : Kind
  body : Buffer 30
  deriving DecidableEq, Repr

namespace Message

/-- The most bytes an encoded message takes. -/
def maxSize : Nat := 32

/-- The most bytes a body takes. -/
def maxBody : Nat := 30

/-- The parameter value that means "no parameter". -/
def noParameter : UInt8 := 0xFF

/-- The message of this kind and body, when the body fits. -/
def ofBody (kind : Kind) (body : Bytes) : Except MessageError Message :=
  match Buffer.ofBytes? body with
  | some held => .ok ⟨kind, held⟩
  | none => .error .tooLarge

/-- The wire form of a kind and a body of any length. -/
def packet (kind : Kind) (body : Bytes) : Bytes := kind.tag :: additiveSum body :: body

/-- The message as it stands on the wire. -/
def toBytes (m : Message) : Bytes := packet m.kind m.body.bytes

/-- Reads a message that fills `bytes`. -/
def decode : Bytes → Except MessageError Message
  | tag :: sum :: body =>
    if additiveSum body = sum then ofBody (.ofTag tag) body else .error .invalidChecksum
  | _ => .error .tooShort

/-- Writes the packet over the start of `buffer`: its length, and the buffer after it. Refused when it
exceeds a message or the buffer. -/
def encodeInto (kind : Kind) (body buffer : Bytes) : Except MessageError (Nat × Bytes) :=
  if body.length + 2 > maxSize then .error .tooLarge
  else
    match overwrite? buffer (packet kind body) with
    | some written => .ok written
    | none => .error .tooLarge

/-- Writes the message over the start of `buffer`. -/
def encode (m : Message) (buffer : Bytes) : Except MessageError (Nat × Bytes) :=
  encodeInto m.kind m.body.bytes buffer

theorem length_toBytes (m : Message) : m.toBytes.length = m.body.size + 2 := by
  simp [toBytes, packet, Buffer.size]

theorem decode_toBytes (m : Message) (h : Kind.ofTag m.kind.tag = m.kind) :
    decode m.toBytes = .ok m := by
  simp [toBytes, packet, decode, ofBody, h]

end Message

end RoomControl
