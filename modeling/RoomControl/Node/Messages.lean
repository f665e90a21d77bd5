import RoomControl.Node.Actions

/-!
# Taking bytes from the peers

Bytes from the radio module and from the USB bridge are read into frames, frames into messages, and
messages are answered. Every message but an echo is echoed at once by its additive sum, before
anything else is done; the echo itself is neither queued nor sent again.
-/

set_option autoImplicit false

namespace RoomControl.Station

variable {β : Type}

/-- What received bytes lead to. -/
abbrev Answer (β : Type) := Except NodeError (Option NodeEvent) × Station β

/-- The message that echoes received bytes. -/
def echoOf (bytes : Bytes) : Bytes := Message.packet .echo [additiveSum bytes]

/-- Refuses a message that is too short for its kind. -/
def tooShort (s : Station β) : Answer β := (.error (.message .tooShort), s)

/-- Accepts a message. -/
def accept (s : Station β) (c : Channel) (kind : Kind) : Answer β :=
  (.ok (some (.received c kind)), s)

/-- The station with another node. -/
def withNode (s : Station β) (node : Node) : Station β := { s with node }

/-! ## Messages -/

/-- Queues the kind that a peer asks for. -/
def answerRequest (s : Station β) (c : Channel) : Bytes → Answer β
  | [] => s.tooShort
  | requested :: rest =>
    let param := rest.head?.filter (· != Message.noParameter)
    (s.withNode (s.node.enqueue c ⟨.ofTag requested, param⟩)).accept c .request

/-- Opens an upload of the announced length and stops the program. -/
def beginUpload (s : Station β) (c : Channel) : Bytes → Answer β
  | high :: low :: _ =>
    let (result, upload, memory) :=
      Upload.begin s.node.upload s.memory (word high low).toNat c
    let s := { s with node := { s.node with upload }, memory }
    match result with
    | .error e => (.error (.transfer e), s)
    | .ok () => (s.withNode { s.node with machine := .idle }).accept c .uploadBegin
  | _ => s.tooShort

/-- Starts the program that an upload has just completed. -/
def startUploaded (s : Station β) : Answer β :=
  let (result, machine) := Machine.start s.memory
  let s := s.withNode { s.node with evalElapsed := 0, machine }
  match result with
  | .error e => (.error (.program e), s)
  | .ok () => (.ok (some (.programLoaded s.memory.programLength)), s)

/-- Takes program bytes. When that closes the upload, its sender is told how things stand. -/
def takeChunk (s : Station β) (c : Channel) : Bytes → Answer β
  | high :: low :: count :: rest =>
    if rest.length < count.toNat then (.error (.transfer .invalidLength), s)
    else
      let (result, upload, memory) :=
        Upload.chunk s.node.upload s.memory (word high low).toNat (rest.take count.toNat)
      let closed := s.node.upload.isSome && upload.isNone
      let node := { s.node with upload }
      let node :=
        if closed then (node.enqueue c ⟨.programState, none⟩).enqueue c ⟨.consistency, none⟩
        else node
      let s := { s with node, memory }
      match result with
      | .error e => (.error (.transfer e), s)
      | .ok .stored => s.accept c .chunk
      | .ok .complete => s.startUploaded
  | _ => s.tooShort

/-- Schedules a state of the program. -/
def enterState (s : Station β) (c : Channel) (kind : Kind) : Bytes → Answer β
  | [] => s.tooShort
  | state :: _ => (s.withNode { s.node with machine := s.node.machine.enter state }).accept c kind

/-- Carries out the action that a peer asks for. -/
def act [Peripherals β] (s : Station β) (c : Channel) : Bytes → Answer β
  | [] => s.tooShort
  | byte :: value =>
    let device := Device.ofByte byte
    if device.isFlow then s.enterState c .action value
    else
      match s.execute s.node.isConnected device value with
      | (some e, s) => (.error e, s)
      | (none, s) => s.accept c .action

/-- Notes the sum that a peer echoes. -/
def takeEcho (s : Station β) (c : Channel) (body : Bytes) : Answer β :=
  let transport :=
    match body.head? with
    | some sum => s.node.transport.acknowledge c sum
    | none => s.node.transport
  (s.withNode { s.node with transport }).accept c .echo

/-- Takes a message. -/
def receiveMessage [Peripherals β] (s : Station β) (c : Channel) (bytes : Bytes) : Answer β :=
  match Message.decode bytes with
  | .error e => (.error (.message e), s)
  | .ok ⟨kind, body⟩ =>
    if kind = .echo then s.takeEcho c body.bytes
    else
      let s := s.transmit c (echoOf bytes)
      match kind with
      | .request => s.answerRequest c body.bytes
      | .uploadBegin => s.beginUpload c body.bytes
      | .chunk => s.takeChunk c body.bytes
      | .enter => s.enterState c .enter body.bytes
      | .action => s.act c body.bytes
      | _ => s.accept c kind

/-! ## Bytes -/

/-- The node after one more malformed frame. -/
def countMalformed (s : Station β) : Station β :=
  let stats := { s.node.stats with framerErrors := countUp s.node.stats.framerErrors }
  s.withNode { s.node with stats }

/-- Takes what the radio made of a byte. -/
def takeRadioEvent [Peripherals β] (s : Station β) : RadioEvent → Answer β
  | .data bytes => s.receiveMessage .bluetooth bytes.bytes
  | .disconnected =>
    (.ok (some (.radio .disconnected)), s.withNode (s.node.dropPeer .bluetooth))
  | event => (.ok (some (.radio event)), s)

/-- Takes one byte from the radio module. -/
def receiveRadio [Peripherals β] (s : Station β) (byte : UInt8) : Answer β :=
  let step := s.node.radio.receive s.radioWire byte
  let s := { s with node := { s.node with radio := step.radio }, radioWire := step.wire }
  match step.result with
  | .ok none => (.ok none, s)
  | .ok (some event) => s.takeRadioEvent event
  | .error (.frame e) => (.error (.radio (.frame e)), s.countMalformed)
  | .error e => (.error (.radio e), s)

/-- Takes one byte from the USB bridge, which carries messages in frames of one opcode. Any other
frame is ignored. -/
def receiveUsb [Peripherals β] (s : Station β) (byte : UInt8) : Answer β :=
  let (received, usb) := s.node.usb.feed byte
  let s := s.withNode { s.node with usb }
  match received with
  | .ok none => (.ok none, s)
  | .error e => (.error (.frame e), s.countMalformed)
  | .ok (some frame) =>
    if frame.opcode = Response.dataOpcode then
      (s.withNode { s.node with usbActive := true }).receiveMessage .usb frame.payload.bytes
    else (.ok none, s)

end RoomControl.Station
