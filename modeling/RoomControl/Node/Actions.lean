import RoomControl.Node

/-!
# Carrying out actions

An action of the program, or one that a peer asks for, goes to the board or to the radio. A
peripheral that has changed is reported: an item for it is queued on every connected channel.
-/

set_option autoImplicit false

namespace RoomControl

/-- The item that reports a peripheral's new state. -/
def reportItem? (device : Device) (value : Bytes) : Option Item :=
  match device with
  | .output _ => some ⟨.outputs, none⟩
  | .led index => some ⟨.led, some index⟩
  | .displayMessage => some ⟨.displayLine, value.head?⟩
  | .displayClear | .displayReset => some ⟨.displayLine, none⟩
  | _ => none

namespace Station

variable {β : Type}

/-- Shows or hides the node. Hiding drops the Bluetooth peer as well. -/
def triggerConnection (s : Station β) (visible : Bool) : Option NodeError × Station β :=
  let (result, radio, wire) := s.node.radio.setVisible s.radioWire visible
  let (result, radio, wire) :=
    match result, visible with
    | .ok (), false => radio.disconnect wire
    | _, _ => (result, radio, wire)
  let s := { s with node := { s.node with radio }, radioWire := wire }
  match result with
  | .ok () => (none, s)
  | .error e => (some (.radio (.command e)), s)

/-- Applies an action on the board, and reports it on the channels of `connected`. -/
def drive [Peripherals β] (s : Station β) (connected : Channel → Bool) (device : Device)
    (value : Bytes) : Option NodeError × Station β :=
  let (result, board) := Peripherals.execute s.board device value
  let s := { s with board }
  match result with
  | .error e => (some (.peripheral e), s)
  | .ok () =>
    match reportItem? device value with
    | some item => (none, { s with node := s.node.notify connected item })
    | none => (none, s)

/-- Carries out one action: its error, if any, and the station after it. -/
def execute [Peripherals β] (s : Station β) (connected : Channel → Bool) (device : Device)
    (value : Bytes) : Option NodeError × Station β :=
  match device with
  | .connectionEstablished =>
    let node := s.node.notify connected ⟨.identity, none⟩
    (none, { s with node := node.notify connected ⟨.programState, none⟩ })
  | .connectionTrigger =>
    if s.node.radio.isReady then s.triggerConnection (value.headD 0 != 0) else (none, s)
  | _ => if device.isPeripheral then s.drive connected device value else (none, s)

/-- Carries out actions in order, whether or not they fail: the first error and the station after
the last. -/
def executeAll [Peripherals β] (s : Station β) (connected : Channel → Bool) :
    List (Device × Bytes) → Option NodeError × Station β
  | [] => (none, s)
  | (device, value) :: rest =>
    let (error?, s) := s.execute connected device value
    let (later?, s) := s.executeAll connected rest
    (error?.or later?, s)

end Station

end RoomControl
