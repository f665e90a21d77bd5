/-!
# What the radio module says about itself

The operating status it reports, and the pairing modes it can be put in. Both are one byte on the
wire. Every byte is some status; only the first five bytes are pairing modes.
-/

set_option autoImplicit false

namespace RoomControl

/-- The operating status of the radio module. -/
inductive ModuleStatus where
  | scanning
  | connecting
  | standby
  | broadcast
  | transparentServiceEnabled
  | idle
  | shutdown
  | configureMode
  | connected
  | unknown (code : UInt8)
  deriving DecidableEq, Repr

namespace ModuleStatus

/-- The status that a byte reports. -/
def ofByte (byte : UInt8) : ModuleStatus :=
  match byte with
  | 0x01 => scanning
  | 0x02 => connecting
  | 0x03 => standby
  | 0x05 => broadcast
  | 0x08 => transparentServiceEnabled
  | 0x09 => idle
  | 0x0A => shutdown
  | 0x0B => configureMode
  | 0x0C => connected
  | code => unknown code

/-- The byte that reports a status. -/
def toByte : ModuleStatus → UInt8
  | scanning => 0x01
  | connecting => 0x02
  | standby => 0x03
  | broadcast => 0x05
  | transparentServiceEnabled => 0x08
  | idle => 0x09
  | shutdown => 0x0A
  | configureMode => 0x0B
  | connected => 0x0C
  | unknown code => code

/-- A peer link is up. -/
def isConnected : ModuleStatus → Bool
  | connected | transparentServiceEnabled => true
  | _ => false

@[simp] theorem toByte_ofByte (byte : UInt8) : (ofByte byte).toByte = byte := by
  unfold ofByte
  split <;> rfl

end ModuleStatus

/-- How the module pairs with a new peer. -/
inductive PairingMode where
  | displayOnly
  | displayYesNo
  | keyboardOnly
  | noInputNoOutput
  | justWork
  deriving DecidableEq, Repr

namespace PairingMode

/-- The mode that a byte stands for, if any. -/
def ofByte? (byte : UInt8) : Option PairingMode :=
  match byte with
  | 0x00 => some displayOnly
  | 0x01 => some displayYesNo
  | 0x02 => some keyboardOnly
  | 0x03 => some noInputNoOutput
  | 0x04 => some justWork
  | _ => none

/-- The byte of a mode. -/
def toByte : PairingMode → UInt8
  | displayOnly => 0x00
  | displayYesNo => 0x01
  | keyboardOnly => 0x02
  | noInputNoOutput => 0x03
  | justWork => 0x04

@[simp] theorem ofByte?_toByte (mode : PairingMode) : ofByte? mode.toByte = some mode := by
  cases mode <;> rfl

end PairingMode

end RoomControl
