import RoomControl.Frame.Reader
import RoomControl.Frame.TestMode

/-!
# The radio line

What the radio module sends depends on how it booted: event frames, or test-mode packets. A
`LineReader` routes each byte to the reader of the mode in force. Changing the mode resets both
readers, so no half-read frame survives a change.
-/

set_option autoImplicit false

namespace RoomControl

/-- The protocol the radio module is speaking. -/
inductive LineMode where
  /-- Event frames. -/
  | event
  /-- Test-mode packets. -/
  | testMode
  deriving DecidableEq, Repr

/-- What a completed read yields. -/
inductive Received where
  | event (frame : Frame)
  | testMode (packet : TestPacket)
  deriving DecidableEq, Repr

/-- The receiving end of the radio line. -/
structure LineReader where
  /-- The mode in force. -/
  mode : LineMode := .event
  /-- The reader of event frames. -/
  frames : FrameReader := .idle
  /-- The reader of test-mode packets. -/
  packets : TestReader := .idle
  deriving DecidableEq, Repr

namespace LineReader

instance : Inhabited LineReader := ⟨{}⟩

/-- Both readers back between frames; the mode stays. -/
def reset (line : LineReader) : LineReader := { mode := line.mode }

/-- Another mode; a partly read frame is dropped. -/
def setMode (line : LineReader) (mode : LineMode) : LineReader :=
  { line with mode := mode }.reset

/-- Takes one byte in the mode in force. -/
def feed (line : LineReader) (byte : UInt8) : Except FrameError (Option Received) × LineReader :=
  match line.mode with
  | .event =>
    let (answer, frames) := line.frames.feed byte
    (answer.map (Option.map Received.event), { line with frames := frames })
  | .testMode =>
    let (answer, packets) := line.packets.feed byte
    (answer.map (Option.map Received.testMode), { line with packets := packets })

/-- Feeds every byte, whatever the answers. -/
def feedAll (line : LineReader) (bytes : Bytes) :
    List (Except FrameError (Option Received)) × LineReader :=
  runAll feed line bytes

end LineReader

end RoomControl
