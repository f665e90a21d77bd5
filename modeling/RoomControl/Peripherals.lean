import RoomControl.Program.Device
import RoomControl.Text

/-!
# Peripherals

What the node asks of the board that it runs on: to apply an action, and to report the state that
messages show. Only outputs are on every board. A board without LEDs, a display or a sensor leaves
out the methods for them.
-/

set_option autoImplicit false

namespace RoomControl

/-- Why a board refuses an action. -/
inductive PeripheralError where
  /-- The board has no such output, LED or line. -/
  | noSuchDevice
  /-- The value does not fit the device. -/
  | invalidValue
  /-- The driver failed. -/
  | bus
  deriving DecidableEq, Repr

/-- The colour of an LED. -/
structure Rgb where
  red : UInt8
  green : UInt8
  blue : UInt8
  deriving DecidableEq, Repr

namespace Rgb

/-- An LED that is dark. -/
def dark : Rgb := ⟨0, 0, 0⟩

/-- The colour that a value starts with. -/
def ofBytes? : Bytes → Option Rgb
  | red :: green :: blue :: _ => some ⟨red, green, blue⟩
  | _ => none

theorem ofBytes?_eq_none_iff {value : Bytes} : ofBytes? value = none ↔ value.length < 3 := by
  rcases value with _ | ⟨red, _ | ⟨green, _ | ⟨blue, rest⟩⟩⟩ <;> simp [ofBytes?]

/-- The three bytes of a colour. -/
def toBytes (c : Rgb) : Bytes := [c.red, c.green, c.blue]

end Rgb

/-- One sample of the sensor. -/
structure SensorReading where
  /-- In percent. -/
  humidity : UInt8
  /-- In whole degrees Celsius, as a two's complement byte. -/
  temperature : UInt8
  deriving DecidableEq, Repr

/-- A board. -/
class Peripherals (β : Type) where
  /-- Applies an action. -/
  execute : β → Device → Bytes → Except PeripheralError Unit × β
  /-- The levels of the outputs, one bit each. -/
  outputs : β → UInt32
  /-- The number of LEDs. -/
  ledCount : β → UInt8 := fun _ => 0
  /-- The colour of one LED. -/
  led? : β → UInt8 → Option Rgb := fun _ _ => none
  /-- The number of display lines. -/
  lineCount : β → UInt8 := fun _ => 0
  /-- The text of one display line. -/
  line? : β → UInt8 → Option String := fun _ _ => none
  /-- The latest sample of the sensor. -/
  sensor? : β → Option SensorReading := fun _ => none

end RoomControl
