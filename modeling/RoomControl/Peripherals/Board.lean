import RoomControl.Peripherals

/-!
# The room board

Eight outputs, eight LEDs, a display of two lines and its backlight, and eight input pins. A line
holds twenty bytes: a longer text is cut there, and what is left must still be well-formed.

`Board.execute` drives the board step by step, as its drivers do: a line is cleared before it takes
its text. `Board.apply` says at once what an action makes of the board, or why it is refused. That
the steps lead there, and that a refused action changes nothing, is a theorem (`execute_eq`).
-/

set_option autoImplicit false

namespace RoomControl

/-- The state of the board. -/
structure Board where
  outputs : Vector Bool 8 := .replicate 8 false
  backlight : Bool := true
  leds : Vector Rgb 8 := .replicate 8 .dark
  lines : Vector (Text 20) 2 := .replicate 2 .empty
  deriving DecidableEq

namespace Board

/-- The bytes that a line holds. -/
def lineWidth : Nat := 20

/-- A value whose first byte is not zero switches something on. -/
def isOn (value : Bytes) : Bool := value.headD 0 != 0

/-- Shows a text on a line; the value is the line's number and the text. -/
def display (b : Board) (value : Bytes) : Except PeripheralError Board :=
  match value with
  | [] => .error .invalidValue
  | line :: text =>
    if h : line.toNat < 2 then
      match Text.ofBytes? (text.take lineWidth) with
      | some shown => .ok { b with lines := b.lines.set line.toNat shown h }
      | none => .error .invalidValue
    else .error .noSuchDevice

/-- The board with nothing on its display. -/
def clear (b : Board) : Board := { b with lines := .replicate 2 .empty }

/-- The board after an action. -/
def apply (b : Board) (device : Device) (value : Bytes) : Except PeripheralError Board :=
  match device with
  | .output pin =>
    if h : pin.toNat < 8 then .ok { b with outputs := b.outputs.set pin.toNat (isOn value) h }
    else .error .noSuchDevice
  | .led index =>
    if h : index.toNat < 8 then
      match Rgb.ofBytes? value with
      | some colour => .ok { b with leds := b.leds.set index.toNat colour h }
      | none => .error .invalidValue
    else .error .noSuchDevice
  | .displayMessage => b.display value
  | .displayBacklight =>
    if value = [] then .error .invalidValue else .ok { b with backlight := isOn value }
  | .displayClear => .ok b.clear
  | .displayReset => .ok { b.clear with backlight := true }
  | _ => .error .noSuchDevice

/-- Shows a text on a line, step by step: the line is cleared, and takes the text if it has room. -/
def displayInPlace (b : Board) (value : Bytes) : Except PeripheralError Unit × Board :=
  match value with
  | [] => (.error .invalidValue, b)
  | line :: text =>
    if h : line.toNat < 2 then
      match ofUtf8? (text.take lineWidth) with
      | none => (.error .invalidValue, b)
      | some shown =>
        let cleared := b.lines.set line.toNat .empty h
        match (cleared.get ⟨line.toNat, h⟩).append? shown with
        | none => (.error .invalidValue, { b with lines := cleared })
        | some filled => (.ok (), { b with lines := cleared.set line.toNat filled h })
    else (.error .noSuchDevice, b)

/-- Takes an action: what the driver answers, and the board as it leaves it. -/
def execute (b : Board) (device : Device) (value : Bytes) : Except PeripheralError Unit × Board :=
  match device with
  | .output pin =>
    if h : pin.toNat < 8 then
      (.ok (), { b with outputs := b.outputs.set pin.toNat (isOn value) h })
    else (.error .noSuchDevice, b)
  | .led index =>
    if h : index.toNat < 8 then
      match Rgb.ofBytes? value with
      | some colour => (.ok (), { b with leds := b.leds.set index.toNat colour h })
      | none => (.error .invalidValue, b)
    else (.error .noSuchDevice, b)
  | .displayMessage => b.displayInPlace value
  | .displayBacklight =>
    if value = [] then (.error .invalidValue, b) else (.ok (), { b with backlight := isOn value })
  | .displayClear => (.ok (), b.clear)
  | .displayReset => (.ok (), { b.clear with backlight := true })
  | _ => (.error .noSuchDevice, b)

/-- The number whose bits are these levels, the first one lowest. -/
def bits : List Bool → Nat
  | [] => 0
  | level :: rest => level.toNat + 2 * bits rest

/-- What `n` input ports read when the pins have the levels of `pins`. -/
def sample (pins : UInt8) (n : Nat) : Bytes := (pins :: List.replicate n 0).take n

instance : Peripherals Board where
  execute := execute
  outputs b := UInt32.ofNat (bits b.outputs.toList)
  ledCount _ := 8
  led? b index := b.leds[index.toNat]?
  lineCount _ := 2
  line? b line := b.lines[line.toNat]?.map Text.string

/-! ## An action as a whole -/

/-- What an action that is applied as a whole answers, and the board after it. -/
def settle (b : Board) : Except PeripheralError Board → Except PeripheralError Unit × Board
  | .ok after => (.ok (), after)
  | .error e => (.error e, b)

/-- What is left of a text after the cut has room on a line. -/
theorem fits_of_take {text : Bytes} {shown : String}
    (h : ofUtf8? (text.take lineWidth) = some shown) : shown.utf8ByteSize ≤ 20 := by
  rw [← length_utf8, ← ofUtf8?_eq_some_iff.mp h]
  exact List.length_take_le ..

theorem displayInPlace_eq (b : Board) (value : Bytes) :
    b.displayInPlace value = b.settle (b.display value) := by
  unfold displayInPlace display
  cases value with
  | nil => rfl
  | cons line text =>
    dsimp only
    by_cases hline : line.toNat < 2
    · rw [dif_pos hline, dif_pos hline]
      cases hshown : ofUtf8? (text.take lineWidth) with
      | none =>
        rw [Text.ofBytes?, hshown]
        rfl
      | some shown =>
        have hfits := fits_of_take hshown
        have hcleared : (b.lines.set line.toNat .empty hline).get ⟨line.toNat, hline⟩ = .empty :=
          Vector.getElem_set_self hline
        rw [Text.ofBytes?, hshown, Option.bind_some, Text.ofString?_of_le hfits]
        dsimp only
        rw [hcleared, Text.append?_empty, Text.ofString?_of_le hfits]
        dsimp only
        rw [Vector.set_set]
        rfl
    · rw [dif_neg hline, dif_neg hline]
      rfl

/-- **The steps of an action** lead to the board after it, and to none if it is refused. -/
theorem execute_eq (b : Board) (device : Device) (value : Bytes) :
    b.execute device value = b.settle (b.apply device value) := by
  cases device with
  | output pin =>
    unfold execute apply
    dsimp only
    split <;> rfl
  | led index =>
    unfold execute apply
    dsimp only
    split
    · split <;> rfl
    · rfl
  | displayMessage => exact b.displayInPlace_eq value
  | displayBacklight =>
    unfold execute apply
    dsimp only
    split <;> rfl
  | _ => rfl

end Board

end RoomControl
