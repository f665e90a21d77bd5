import RoomControl.Outbound.Dispatch
import RoomControl.Peripherals
import RoomControl.Program.Machine
import RoomControl.Program.Upload
import RoomControl.Radio

/-!
# The node

A `Node` is everything the controller keeps: the radio, the reader of the USB bridge, a queue and an
outstanding message for each channel, the machine that runs the program, and an upload that may be
open. A `Station` is a node together with what it acts on: two wires, the program memory and a
board.

The modules beside this one say what a station does: how it carries out actions, how it takes bytes
from its peers, and what it does on every tick.
-/

set_option autoImplicit false

namespace RoomControl

/-! ## Errors and events -/

/-- Why received bytes led to nothing, or only to part of what they ask for. -/
inductive NodeError where
  | radio (error : RadioError)
  /-- The USB frame is malformed. -/
  | frame (error : FrameError)
  /-- The message is malformed. -/
  | message (error : MessageError)
  | transfer (error : TransferError)
  /-- The stored program could not be started. -/
  | program (error : ProgramError)
  | peripheral (error : PeripheralError)
  deriving DecidableEq, Repr

/-- What received bytes led to. -/
inductive NodeEvent where
  | radio (event : RadioEvent)
  /-- A message was accepted. -/
  | received (channel : Channel) (kind : Kind)
  /-- An upload is finished and its program runs. -/
  | programLoaded (length : Nat)
  deriving DecidableEq, Repr

/-- What one tick did. -/
structure TickReport where
  radio : Except RadioError (Option RadioEvent)
  /-- How messages left the transport. -/
  deliveries : PerChannel (Option Delivery)
  dispatched : PerChannel Dispatched
  /-- The check of the program, when one was due. -/
  check : Option (Except MachineError CheckOutcome)
  /-- The first action of the check that failed. -/
  actionError : Option NodeError

/-! ## The node -/

/-- What the node counts for diagnosis. -/
structure NodeStats where
  /-- Malformed frames on either wire. -/
  framerErrors : Nat := 0
  /-- Messages that were given up. -/
  giveUps : Nat := 0
  /-- Programs that were disabled because they looped. -/
  loops : Nat := 0
  deriving DecidableEq, Repr

/-- Counts one more, up to what 16 bits hold. -/
def countUp (n : Nat) : Nat := min (n + 1) 65535

/-- The state of the controller. -/
structure Node where
  radio : Radio
  /-- The reader of the USB bridge. -/
  usb : FrameReader := .idle
  /-- The USB host has been heard. -/
  usbActive : Bool := false
  transport : Transport
  queues : PerChannel Queue := .ofFn fun _ => {}
  machine : Machine := .idle
  upload : Option Upload := none
  /-- The ticks between two checks of the program. -/
  evalInterval : Nat
  /-- The ticks since the last check. -/
  evalElapsed : Nat := 0
  stats : NodeStats := {}

namespace Node

/-- The node before the first start. -/
def ofConfig (config : NodeConfig) : Node :=
  { radio := .ofConfig config
    transport :=
      { settings :=
          { timeout := config.timing.retryTimeout.toNat
            retries := config.timing.maxRetries.toNat } }
    evalInterval := config.timing.evalInterval.toNat }

/-- The peer on a channel can be reached. -/
def isConnected (n : Node) : Channel → Bool
  | .usb => n.usbActive
  | .bluetooth => n.radio.peer?.isSome

/-- The node after an item was queued on a channel. -/
def enqueue (n : Node) (c : Channel) (item : Item) : Node :=
  { n with queues := n.queues.set c ((n.queues.get c).enqueue item) }

/-- Queues an item on every channel of `connected`. -/
def notify (n : Node) (connected : Channel → Bool) (item : Item) : Node :=
  (Channel.all.filter connected).foldl (fun n c => n.enqueue c item) n

/-- Forgets what a channel's peer left behind: the outstanding message, the queue, and an upload
that it had begun. -/
def dropPeer (n : Node) (c : Channel) : Node :=
  { n with
    transport := n.transport.cancel c
    queues := n.queues.set c (n.queues.get c).clear
    upload := (Upload.abortFrom n.upload c).2 }

/-- Notes that the USB host is there, or gone. -/
def setUsbActive (n : Node) (active : Bool) : Node :=
  { if active then n else n.dropPeer .usb with usbActive := active }

/-! ### What the node reports of itself -/

/-- The input port on which the program sees the node: a connected Bluetooth peer, an active USB
host, and a radio that is up, from the lowest bit on. -/
def inputFlags (n : Node) : UInt8 :=
  (if n.radio.isConnected then 1 else 0) ||| (if n.usbActive then 2 else 0) |||
    (if n.radio.isReady then 4 else 0)

/-- A count in one byte; higher counts show as the highest. -/
def countByte (count : Nat) : UInt8 := UInt8.ofNat (min count 255)

/-- The diagnostic counters: malformed frames, messages given up, items dropped, module resets. -/
def debugCounters (n : Node) : Bytes :=
  let dropped := n.queues.usb.dropped + n.queues.bluetooth.dropped
  [n.stats.framerErrors, n.stats.giveUps, dropped, n.radio.bringup.resets].map countByte

end Node

/-! ## The station -/

/-- A node and what it acts on. -/
structure Station (β : Type) where
  node : Node
  radioWire : Wire := {}
  usbWire : Wire := {}
  memory : ProgramMemory
  board : β

namespace Station

variable {β : Type}

/-- Sends a message to the peer on a channel. The USB wire takes it whether or not a host is there;
the radio only when a Bluetooth peer can be reached. -/
def transmit (s : Station β) (c : Channel) (payload : Bytes) : Station β :=
  match c with
  | .usb =>
    match Frame.ofPayload Response.dataOpcode payload with
    | .ok frame => { s with usbWire := (s.usbWire.send frame.toBytes).2 }
    | .error _ => s
  | .bluetooth => { s with radioWire := (s.node.radio.sendData s.radioWire payload).2 }

/-- Sends a message, if there is one. -/
def transmit? (s : Station β) (c : Channel) : Option Bytes → Station β
  | some payload => s.transmit c payload
  | none => s

/-- Starts bring-up of the radio and the stored program. -/
def start (s : Station β) : Except ProgramError Unit × Station β :=
  let (result, machine) := Machine.start s.memory
  (result, { s with node := { s.node with radio := s.node.radio.start, evalElapsed := 0, machine } })

end Station

end RoomControl
