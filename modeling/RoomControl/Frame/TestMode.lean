import RoomControl.Frame
import RoomControl.Run

/-!
# Test-mode packets

A radio module that boots into its production test mode speaks bare HCI events instead of frames:

    0x04 | 0x0E | LENGTH | PAYLOAD

There is no checksum. Only the command-complete event is understood; its payload starts with a
packet count, the completed command (little-endian) and a status.
-/

set_option autoImplicit false

namespace RoomControl

/-- A command-complete event of the test mode. -/
structure TestPacket where
  /-- The event parameters. -/
  payload : Buffer 64
  deriving DecidableEq, Repr

namespace TestPacket

/-- The byte that announces an HCI event. -/
def indicator : UInt8 := 0x04

/-- The event code of command-complete. -/
def eventCode : UInt8 := 0x0E

/-- The most parameter bytes a packet carries. -/
def maxPayload : Nat := 64

/-- The command that was completed, if the payload reaches that far. -/
def command? (p : TestPacket) : Option UInt16 :=
  match p.payload.bytes with
  | _ :: low :: high :: _ => some (word high low)
  | _ => none

/-- The status of the completed command, if the payload reaches that far. -/
def status? (p : TestPacket) : Option UInt8 := p.payload.bytes[3]?

/-- The packet as it stands on the wire. -/
def toBytes (p : TestPacket) : Bytes :=
  indicator :: eventCode :: UInt8.ofNat p.payload.size :: p.payload.bytes

/-- Writes the packet over the start of `buffer`: its length, and the buffer after it. -/
def encodeInto (p : TestPacket) (buffer : Bytes) : Except FrameError (Nat × Bytes) :=
  match overwrite? buffer p.toBytes with
  | some written => .ok written
  | none => .error .bufferTooSmall

theorem length_toBytes (p : TestPacket) : p.toBytes.length = p.payload.size + 3 := by
  simp [toBytes, Buffer.size]

theorem encodeInto_of_le (p : TestPacket) {buffer : Bytes}
    (h : p.toBytes.length ≤ buffer.length) :
    p.encodeInto buffer = .ok (p.toBytes.length, p.toBytes ++ buffer.drop p.toBytes.length) := by
  rw [encodeInto, overwrite?_of_le h]

end TestPacket

/-- Where in a test-mode packet the next byte falls. -/
inductive TestReader where
  /-- Between packets. -/
  | idle
  /-- The indicator was seen; the event code is next. -/
  | eventCode
  /-- The length is next. -/
  | length
  /-- A payload byte is next; `held` came before it. -/
  | payload (expected : UInt8) (held : Buffer 64)
  deriving DecidableEq, Repr

namespace TestReader

instance : Inhabited TestReader := ⟨idle⟩

/-- The reader is between packets. -/
def isIdle : TestReader → Bool
  | idle => true
  | _ => false

/-- Takes one byte. An empty packet is complete at its length byte. -/
def feed (reader : TestReader) (byte : UInt8) : Except FrameError (Option TestPacket) × TestReader :=
  match reader with
  | idle => (.ok none, if byte = TestPacket.indicator then eventCode else idle)
  | eventCode =>
    if byte = TestPacket.eventCode then (.ok none, length) else (.error .invalidPrefix, idle)
  | length =>
    if byte.toNat > TestPacket.maxPayload then (.error .payloadTooLarge, idle)
    else if byte = 0 then (.ok (some ⟨Buffer.empty⟩), idle)
    else (.ok none, payload byte Buffer.empty)
  | payload expected held =>
    match held.push? byte with
    | none => (.error .payloadTooLarge, idle)
    | some longer =>
      if longer.size = expected.toNat then (.ok (some ⟨longer⟩), idle)
      else (.ok none, payload expected longer)

/-- Feeds every byte, whatever the answers. -/
def feedAll (reader : TestReader) (bytes : Bytes) :
    List (Except FrameError (Option TestPacket)) × TestReader :=
  runAll feed reader bytes

end TestReader

end RoomControl
