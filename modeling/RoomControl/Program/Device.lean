/-!
# Devices

What an action of the program drives. The low seven bits of a device byte are the device's number;
the high bit marks an action that also fires when its state is entered without an input change.
-/

set_option autoImplicit false

namespace RoomControl

/-- What an action drives. -/
inductive Device where
  | output (pin : UInt8)
  | led (index : UInt8)
  /-- The value is a line number and a text. -/
  | displayMessage
  | displayBacklight
  | displayReset
  | displayClear
  /-- Announces the node to connected peers. -/
  | connectionEstablished
  /-- Hides and disconnects the node, or makes it visible. -/
  | connectionTrigger
  /-- Goes to another state within the same check. -/
  | goto
  /-- Enters a state on the next check. -/
  | enter
  /-- A number with no device. -/
  | reserved (number : UInt8)
  deriving DecidableEq, Repr

namespace Device

/-- The bit that marks an action to fire on entry. -/
def entryFlag : UInt8 := 0x80

/-- The number in a device byte. -/
def number (byte : UInt8) : UInt8 := byte &&& 0x7F

/-- The device that a device byte names, whatever its entry flag. -/
def ofByte (byte : UInt8) : Device :=
  let n := number byte
  if n < 0x20 then output n
  else if n < 0x40 then led (n - 0x20)
  else if n = 0x40 then displayMessage
  else if n = 0x41 then displayBacklight
  else if n = 0x42 then displayReset
  else if n = 0x43 then displayClear
  else if n = 0x50 then connectionEstablished
  else if n = 0x51 then connectionTrigger
  else if n = 0x7E then goto
  else if n = 0x7F then enter
  else reserved n

/-- The device byte of a device, with the entry flag clear. -/
def toByte : Device → UInt8
  | output pin => pin &&& 0x1F
  | led index => 0x20 + (index &&& 0x1F)
  | displayMessage => 0x40
  | displayBacklight => 0x41
  | displayReset => 0x42
  | displayClear => 0x43
  | connectionEstablished => 0x50
  | connectionTrigger => 0x51
  | goto => 0x7E
  | enter => 0x7F
  | reserved n => number n

/-- The board drives this device. -/
def isPeripheral : Device → Bool
  | output _ | led _ | displayMessage | displayBacklight | displayReset | displayClear => true
  | _ => false

/-- The device only moves the program between its states. -/
def isFlow : Device → Bool
  | goto | enter => true
  | _ => false

/-- The device byte carries the entry flag. -/
def firesOnEntry (byte : UInt8) : Bool := byte &&& entryFlag != 0

end Device

end RoomControl
