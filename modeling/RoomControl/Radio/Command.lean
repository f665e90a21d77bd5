import RoomControl.Frame
import RoomControl.Radio.Status

/-!
# Commands for the radio module

A command is a frame whose opcode selects the command and whose payload holds its parameters. Five
commands carry a text or data of the caller's length; each has its own limit, and `Command.payload`
is where a parameter that is too long is refused.
-/

set_option autoImplicit false

namespace RoomControl

/-- A command for the radio module. -/
inductive Command where
  | readLocalInformation
  | reset
  | readStatus
  | readDeviceName
  | writeDeviceName (name : Bytes)
  | erasePairedDevices
  | readPairingMode
  | writePairingMode (mode : PairingMode)
  | readPairedDevices
  | writeAdvertisingData (data : Bytes)
  | writeScanResponse (data : Bytes)
  /-- The interval is counted in units of 0.625 ms. -/
  | setAdvertisingParameters (interval : UInt16)
  | disconnect
  | setAdvertisingEnable (visible : Bool)
  | sendTransparentData (handle : UInt8) (data : Bytes)
  | readPin
  | writePin (pin : Bytes)
  deriving DecidableEq, Repr

namespace Command

/-! ## Limits -/

/-- The longest device name. -/
def maxName : Nat := 16

/-- The longest advertising data or scan response. -/
def maxAdvertising : Nat := 31

/-- The longest PIN. -/
def maxPin : Nat := 6

/-! ## Wire form -/

/-- The opcode that selects the command. -/
def opcode : Command → UInt8
  | readLocalInformation => 0x01
  | reset => 0x02
  | readStatus => 0x03
  | readDeviceName => 0x07
  | writeDeviceName _ => 0x08
  | erasePairedDevices => 0x09
  | readPairingMode => 0x0A
  | writePairingMode _ => 0x0B
  | readPairedDevices => 0x0C
  | writeAdvertisingData _ => 0x11
  | writeScanResponse _ => 0x12
  | setAdvertisingParameters _ => 0x13
  | disconnect => 0x1B
  | setAdvertisingEnable _ => 0x1C
  | sendTransparentData _ _ => 0x3F
  | readPin => 0x50
  | writePin _ => 0x51

/-- The flag, before a name or advertising data, that has the module keep it in its own flash. -/
def keep : UInt8 := 0x01

/-- A parameter of at most `limit` bytes. -/
def limited (limit : Nat) (parameter : Bytes) : Except FrameError Bytes :=
  if parameter.length > limit then .error .payloadTooLarge else .ok parameter

/-- The parameters as they stand in the frame. -/
def payload : Command → Except FrameError Bytes
  | writeDeviceName name => (limited maxName name).map (keep :: ·)
  | writeAdvertisingData data | writeScanResponse data =>
    (limited maxAdvertising data).map (keep :: ·)
  | writePairingMode mode => .ok [mode.toByte]
  | setAdvertisingParameters interval => .ok (wordBytes interval ++ [0x00])
  | disconnect => .ok [0x00]
  | setAdvertisingEnable visible => .ok [if visible then 1 else 0]
  | sendTransparentData handle data => .ok (handle :: data)
  | writePin pin => limited maxPin pin
  | readLocalInformation | reset | readStatus | readDeviceName | erasePairedDevices
  | readPairingMode | readPairedDevices | readPin => .ok []

/-- The frame of a command, when its parameters fit. -/
def toFrame (c : Command) : Except FrameError Frame :=
  c.payload.bind (Frame.ofPayload c.opcode)

/-- The command as it stands on the wire. -/
def toBytes (c : Command) : Except FrameError Bytes := c.toFrame.map Frame.toBytes

end Command

end RoomControl
