import RoomControl.Frame
import RoomControl.Radio.Status

/-!
# Events from the radio module

`Response.ofFrame` selects the event by the frame's opcode, so nobody else looks into raw payload
bytes. Each understood event has a fixed part; a payload shorter than it is refused, and an opcode
with no meaning here is kept as `unknown`. `Response.toFrame` is the writing side.
-/

set_option autoImplicit false

namespace RoomControl

/-- A Bluetooth device address. -/
abbrev Address := Vector UInt8 6

/-- An event reported by the radio module. -/
inductive Response where
  /-- A command has been carried out, or has failed. -/
  | commandComplete (command status : UInt8) (data : Buffer 128)
  | statusReport (status : ModuleStatus)
  | connectionComplete (status handle : UInt8) (address : Address)
  | disconnectionComplete (handle reason : UInt8)
  | pairingComplete (handle result : UInt8)
  /-- Bytes from the connected peer. -/
  | transparentData (handle : UInt8) (data : Buffer 128)
  | unknown (opcode : UInt8)
  deriving DecidableEq, Repr

namespace Response

/-! ## Event opcodes -/

/-- The opcode of pairing-complete. -/
@[match_pattern] abbrev pairingOpcode : UInt8 := 0x61

/-- The opcode of connection-complete. -/
@[match_pattern] abbrev connectionOpcode : UInt8 := 0x71

/-- The opcode of disconnection-complete. -/
@[match_pattern] abbrev disconnectionOpcode : UInt8 := 0x72

/-- The opcode of command-complete. -/
@[match_pattern] abbrev commandOpcode : UInt8 := 0x80

/-- The opcode of a status report. -/
@[match_pattern] abbrev statusOpcode : UInt8 := 0x81

/-- The opcode of transparent data, on the radio line and on the USB bridge. -/
@[match_pattern] abbrev dataOpcode : UInt8 := 0x9A

/-- The status of a command or connection that succeeded. -/
def success : UInt8 := 0x00

/-! ## Reading and writing -/

/-- An event that carries the bytes after its fixed part. -/
def carrying (data : Bytes) (event : Buffer 128 → Response) : Except FrameError Response :=
  match Buffer.ofBytes? data with
  | some held => .ok (event held)
  | none => .error .payloadTooLarge

/-- The event that a frame reports. -/
def ofFrame (frame : Frame) : Except FrameError Response :=
  match frame.opcode with
  | commandOpcode =>
    match frame.payload.bytes with
    | command :: status :: data => carrying data (commandComplete command status)
    | _ => .error .invalidLength
  | statusOpcode =>
    match frame.payload.bytes with
    | status :: _ => .ok (statusReport (.ofByte status))
    | _ => .error .invalidLength
  | connectionOpcode =>
    match frame.payload.bytes with
    | status :: handle :: _role :: _addressType :: a :: b :: c :: d :: e :: f :: _ =>
      .ok (connectionComplete status handle #v[a, b, c, d, e, f])
    | _ => .error .invalidLength
  | disconnectionOpcode =>
    match frame.payload.bytes with
    | handle :: reason :: _ => .ok (disconnectionComplete handle reason)
    | _ => .error .invalidLength
  | pairingOpcode =>
    match frame.payload.bytes with
    | handle :: result :: _ => .ok (pairingComplete handle result)
    | _ => .error .invalidLength
  | dataOpcode =>
    match frame.payload.bytes with
    | handle :: data => carrying data (transparentData handle)
    | _ => .error .invalidLength
  | opcode => .ok (unknown opcode)

/-- The opcode that reports an event. -/
def opcode : Response → UInt8
  | commandComplete _ _ _ => commandOpcode
  | statusReport _ => statusOpcode
  | connectionComplete _ _ _ => connectionOpcode
  | disconnectionComplete _ _ => disconnectionOpcode
  | pairingComplete _ _ => pairingOpcode
  | transparentData _ _ => dataOpcode
  | unknown opcode => opcode

/-- The payload that reports an event. A connection is reported in the peripheral role with a
public address. -/
def payload : Response → Bytes
  | commandComplete command status data => command :: status :: data.bytes
  | statusReport status => [status.toByte]
  | connectionComplete status handle address => status :: handle :: 0x01 :: 0x00 :: address.toList
  | disconnectionComplete handle reason => [handle, reason]
  | pairingComplete handle result => [handle, result]
  | transparentData handle data => handle :: data.bytes
  | unknown _ => []

/-- The frame that reports an event, when its data fits. -/
def toFrame (r : Response) : Except FrameError Frame := Frame.ofPayload r.opcode r.payload

end Response

end RoomControl
