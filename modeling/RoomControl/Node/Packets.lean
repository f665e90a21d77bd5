import RoomControl.Node

/-!
# The packets that the node builds

What the node tells its peers: about itself, its program, its board and the devices that the radio
module remembers. A list kind has one packet for each element, and the packet of the last element
says so.
-/

set_option autoImplicit false

namespace RoomControl

/-- The version of the controller: major, minor, patch. -/
def controllerVersion : Bytes := [0, 1, 0]

/-- The four bytes of a 32-bit number, the highest first. -/
def levelBytes (levels : UInt32) : Bytes :=
  wordBytes (levels >>> 16).toUInt16 ++ wordBytes levels.toUInt16

/-- The packet of a kind and a body, when the body fits. -/
def Built.ofBody (kind : Kind) (body : Bytes) (last : Bool) : Built :=
  match Message.ofBody kind body with
  | .ok m => .packet m.toBytes last
  | .error _ => .exhausted

namespace Station

variable {β : Type}

/-- The body of the identity packet. -/
def identityBody (s : Station β) : Bytes :=
  controllerVersion ++ s.node.radio.status.toByte :: s.node.radio.bringup.settings.name.bytes

/-- The body of the program-state packet: the status byte and the current state. -/
def programStateBody (s : Station β) : Bytes :=
  [s.memory.readByte 0 |>.toOption.getD statusDisabled, s.node.machine.current.getD noState]

/-- The body of the packet for one display line. -/
def lineBody (line : Nat) (text : String) : Bytes :=
  UInt8.ofNat line :: (utf8 text).take (Message.maxBody - 1)

/-- The packet for an item, with the counters as they were. -/
def packet [Peripherals β] (s : Station β) (counters : Bytes) : PacketSource := fun item cursor =>
  let kind := item.kind
  let element := (item.param.map UInt8.toNat).getD cursor
  let single := fun body => Built.ofBody kind body true
  let listed := fun count body => Built.ofBody kind body (element + 1 ≥ count)
  match kind with
  | .identity => single s.identityBody
  | .consistency =>
    match s.memory.consistency with
    | .ok body => single body
    | .error _ => .exhausted
  | .chunk =>
    match s.memory.readChunk element Message.maxBody with
    | .ok (some body) => listed s.memory.chunkCount body
    | _ => .exhausted
  | .programState => single s.programStateBody
  | .outputs => single (levelBytes (Peripherals.outputs s.board))
  | .led =>
    let count := (Peripherals.ledCount s.board).toNat
    if element ≥ count then .exhausted
    else
      match Peripherals.led? s.board (UInt8.ofNat element) with
      | some colour => listed count (UInt8.ofNat element :: colour.toBytes)
      | none => .exhausted
  | .displayLine =>
    let count := (Peripherals.lineCount s.board).toNat
    if element ≥ count then .exhausted
    else
      match Peripherals.line? s.board (UInt8.ofNat element) with
      | some text => listed count (lineBody element text)
      | none => .exhausted
  | .sensor =>
    match Peripherals.sensor? s.board with
    | some reading => single [reading.humidity, reading.temperature]
    | none => .exhausted
  | .pairedDevice =>
    let paired := s.node.radio.bringup.info.paired
    match paired[element]? with
    | some device => listed paired.length (device.index :: device.address.toList)
    | none => .exhausted
  | .debug => single counters
  | _ => .notHandled

end Station

end RoomControl
