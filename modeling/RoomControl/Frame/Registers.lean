import RoomControl.Frame.Line

/-!
# The registers of the radio line

A `FrameReader` holds what it knows at its position in a frame and nothing else. The controller has
one set of registers for all positions: a state, and beside it the length, the opcode and the
payload that came last, whether the state reads them or not. `LineRegisters` is the receiving end of
the line in this form, with a reset that clears every register.

Nothing here says that both forms answer alike; that the registers which a state does not read never
matter is a theorem.
-/

set_option autoImplicit false

namespace RoomControl

/-- Which byte of a frame is next. -/
inductive FrameState where
  | idle
  | lengthHigh
  | lengthLow
  | opcode
  | payload
  | checksum
  deriving DecidableEq, Repr

/-- The registers in which event frames are read. -/
structure FrameRegisters where
  state : FrameState := .idle
  /-- The length field, or its high byte alone. -/
  length : UInt16 := 0
  opcode : UInt8 := 0
  buffer : Buffer 128 := Buffer.empty
  deriving DecidableEq, Repr

namespace FrameRegisters

instance : Inhabited FrameRegisters := ⟨{}⟩

/-- Clears every register. -/
def reset (r : FrameRegisters) : FrameRegisters :=
  { r with state := .idle, buffer := Buffer.empty, length := 0, opcode := 0 }

/-- Takes one byte: nothing yet, a complete frame, or the reason the frame was dropped. -/
def feed (r : FrameRegisters) (byte : UInt8) : Except FrameError (Option Frame) × FrameRegisters :=
  match r.state with
  | .idle => (.ok none, if byte = Frame.sync then { r with state := .lengthHigh } else r)
  | .lengthHigh => (.ok none, { r with length := byte.toUInt16 <<< 8, state := .lengthLow })
  | .lengthLow =>
    let length := r.length ||| byte.toUInt16
    if length = 0 then (.error .invalidLength, r.reset)
    else if FrameReader.announced length > Frame.maxPayload then (.error .payloadTooLarge, r.reset)
    else (.ok none, { r with length := length, state := .opcode })
  | .opcode =>
    (.ok none,
      { r with
        opcode := byte
        buffer := Buffer.empty
        state := if r.length = 1 then .checksum else .payload })
  | .payload =>
    match r.buffer.push? byte with
    | none => (.error .payloadTooLarge, r.reset)
    | some longer =>
      (.ok none,
        { r with
          buffer := longer
          state :=
            if longer.size = FrameReader.announced r.length then .checksum else .payload })
  | .checksum =>
    if byte = Frame.checksumOf r.length r.opcode r.buffer.bytes then
      (.ok (some ⟨r.opcode, r.buffer⟩), r.reset)
    else (.error .invalidChecksum, r.reset)

end FrameRegisters

/-- Which byte of a test-mode packet is next. -/
inductive TestState where
  | idle
  | eventCode
  | length
  | payload
  deriving DecidableEq, Repr

/-- The registers in which test-mode packets are read. -/
structure TestRegisters where
  state : TestState := .idle
  /-- How many payload bytes the packet announces. -/
  expected : UInt8 := 0
  buffer : Buffer 64 := Buffer.empty
  deriving DecidableEq, Repr

namespace TestRegisters

instance : Inhabited TestRegisters := ⟨{}⟩

/-- Clears every register. -/
def reset (r : TestRegisters) : TestRegisters :=
  { r with state := .idle, expected := 0, buffer := Buffer.empty }

/-- Takes one byte. An empty packet is complete at its length byte. -/
def feed (r : TestRegisters) (byte : UInt8) :
    Except FrameError (Option TestPacket) × TestRegisters :=
  match r.state with
  | .idle => (.ok none, if byte = TestPacket.indicator then { r with state := .eventCode } else r)
  | .eventCode =>
    if byte = TestPacket.eventCode then (.ok none, { r with state := .length })
    else (.error .invalidPrefix, r.reset)
  | .length =>
    if byte.toNat > TestPacket.maxPayload then (.error .payloadTooLarge, r.reset)
    else if byte = 0 then (.ok (some ⟨Buffer.empty⟩), r.reset)
    else (.ok none, { r with expected := byte, buffer := Buffer.empty, state := .payload })
  | .payload =>
    match r.buffer.push? byte with
    | none => (.error .payloadTooLarge, r.reset)
    | some longer =>
      if longer.size = r.expected.toNat then (.ok (some ⟨longer⟩), r.reset)
      else (.ok none, { r with buffer := longer })

end TestRegisters

/-- The registers of the receiving end of the radio line. -/
structure LineRegisters where
  mode : LineMode := .event
  frames : FrameRegisters := {}
  packets : TestRegisters := {}
  deriving DecidableEq, Repr

namespace LineRegisters

instance : Inhabited LineRegisters := ⟨{}⟩

/-- Clears both sets of registers; the mode stays. -/
def reset (line : LineRegisters) : LineRegisters :=
  { line with frames := line.frames.reset, packets := line.packets.reset }

/-- Another mode; a partly read frame is dropped. -/
def setMode (line : LineRegisters) (mode : LineMode) : LineRegisters :=
  { line with mode := mode }.reset

/-- Takes one byte in the mode in force. -/
def feed (line : LineRegisters) (byte : UInt8) :
    Except FrameError (Option Received) × LineRegisters :=
  match line.mode with
  | .event =>
    let (answer, frames) := line.frames.feed byte
    (answer.map (Option.map Received.event), { line with frames := frames })
  | .testMode =>
    let (answer, packets) := line.packets.feed byte
    (answer.map (Option.map Received.testMode), { line with packets := packets })

/-- Feeds every byte, whatever the answers. -/
def feedAll (line : LineRegisters) (bytes : Bytes) :
    List (Except FrameError (Option Received)) × LineRegisters :=
  runAll feed line bytes

end LineRegisters

end RoomControl
