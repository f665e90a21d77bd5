import RoomControl.Node.Actions
import RoomControl.Node.Packets

/-!
# The tick

Everything periodic happens on a tick, in this order: the radio goes on with bring-up and with its
commands; each channel waits for an echo, sends again or gives up, and then sends the next packet;
and when it is time the program is checked.
-/

set_option autoImplicit false

namespace RoomControl.Station

variable {β : Type} [Peripherals β]

/-- The tick of the radio. -/
def tickRadio (s : Station β) : Except RadioError (Option RadioEvent) × Station β :=
  let step := s.node.radio.tick s.radioWire
  (step.result, { s with node := { s.node with radio := step.radio }, radioWire := step.wire })

/-- Waits for the echo on a channel. -/
def tickTransport (s : Station β) (c : Channel) : Option Delivery × Station β :=
  let connected := s.node.isConnected c
  let turn := s.node.transport.turn c connected
  let transport := s.node.transport.afterTurn c connected
  let giveUps :=
    if turn.delivery = some .gaveUp then countUp s.node.stats.giveUps else s.node.stats.giveUps
  let node := { s.node with transport, stats := { s.node.stats with giveUps } }
  (turn.delivery, { s with node }.transmit? c turn.resend)

/-- Sends the next packet on a channel, if its peer can be reached. -/
def tickDispatch (s : Station β) (c : Channel) (source : PacketSource) : Dispatched × Station β :=
  if s.node.isConnected c then
    let step := dispatch source c (s.node.queues.get c) s.node.transport
    let queues := s.node.queues.set c step.queue
    let node := { s.node with queues, transport := step.transport }
    (step.dispatched, { s with node }.transmit? c step.transmit)
  else (.idle, s)

/-- The tick of one channel. The packets are the node's own and, for other kinds, those of
`extensions`. -/
def tickChannel (s : Station β) (counters : Bytes) (extensions : PacketSource) (c : Channel) :
    (Option Delivery × Dispatched) × Station β :=
  let (delivery, s) := s.tickTransport c
  let (dispatched, s) := s.tickDispatch c ((s.packet counters).orElse extensions)
  ((delivery, dispatched), s)

/-- The ports that the program sees: the sampled inputs, and the node's flags on the last. -/
def ports (s : Station β) (inputs : Vector UInt8 3) : Ports :=
  inputs.push s.node.inputFlags

/-- Checks the program once. -/
def checkProgram (s : Station β) (inputs : Vector UInt8 3) :
    Except MachineError CheckOutcome × Option NodeError × Station β :=
  let checked := s.node.machine.check s.memory (s.ports inputs)
  let connected := s.node.isConnected
  let loops :=
    match checked.outcome with
    | .error (.loopDetected _ _) => countUp s.node.stats.loops
    | _ => s.node.stats.loops
  let stats := { s.node.stats with loops }
  let node := { s.node with machine := checked.machine, evalElapsed := 0, stats }
  let (error?, s) := { s with node, memory := checked.memory }.executeAll connected checked.calls
  (checked.outcome, error?, s)

/-- Checks the program when it is time. -/
def tickProgram (s : Station β) (inputs : Vector UInt8 3) :
    Option (Except MachineError CheckOutcome) × Option NodeError × Station β :=
  if s.node.machine.IsRunning then
    let evalElapsed := countUp s.node.evalElapsed
    if evalElapsed < s.node.evalInterval then
      (none, none, { s with node := { s.node with evalElapsed } })
    else
      let (outcome, error?, s) := s.checkProgram inputs
      (some outcome, error?, s)
  else (none, none, { s with node := { s.node with evalElapsed := 0 } })

/-- One tick, with the inputs as they are sampled. -/
def tick (s : Station β) (inputs : Vector UInt8 3) (extensions : PacketSource) :
    TickReport × Station β :=
  let (radio, s) := s.tickRadio
  let counters := s.node.debugCounters
  let (onUsb, s) := s.tickChannel counters extensions .usb
  let (onBluetooth, s) := s.tickChannel counters extensions .bluetooth
  let (check, actionError, s) := s.tickProgram inputs
  ({ radio
     deliveries := ⟨onUsb.1, onBluetooth.1⟩
     dispatched := ⟨onUsb.2, onBluetooth.2⟩
     check
     actionError }, s)

end RoomControl.Station
