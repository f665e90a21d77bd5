import RoomControl.Frame.Line
import RoomControl.Radio.Bringup

/-!
# The radio module

A `Radio` reads what the module sends, brings it up, and then serves the node: it tracks the
connection, hands on the peer's data, and writes the commands that the node wants. While a command
is in flight further ones are held back, four at most; while bring-up is under way none are taken.

A command that fails makes the radio ask for the module's status again.
-/

set_option autoImplicit false

namespace RoomControl

/-- A command that the node wants. -/
inductive AppCommand where
  | advertise (visible : Bool)
  | disconnect
  | readStatus
  deriving DecidableEq, Repr

/-- The command as the module takes it. -/
def AppCommand.toCommand : AppCommand → Command
  | advertise visible => .setAdvertisingEnable visible
  | disconnect => .disconnect
  | readStatus => .readStatus

/-- What the radio failed at. -/
inductive RadioError where
  /-- What the module sent is no event. -/
  | frame (error : FrameError)
  | command (error : CommandError)
  | bringup (error : BringupError)
  deriving DecidableEq, Repr

/-- What the rest of the node learns from the radio. -/
inductive RadioEvent where
  | bringup (event : BringupEvent)
  | status (status : ModuleStatus)
  | connected (handle : UInt8)
  | disconnected
  /-- Bytes from the peer. -/
  | data (bytes : Buffer 128)
  | commandFailed (command status : UInt8)
  | testMode (packet : TestPacket)
  deriving DecidableEq, Repr

/-- The state kept for the module. -/
structure Radio where
  line : LineReader := {}
  slot : CommandSlot := .free
  bringup : Bringup
  /-- The commands held back, the next one first. -/
  pending : List AppCommand := []
  /-- The status that the module reported last. -/
  status : ModuleStatus := .idle
  /-- The handle of the connected peer. -/
  connection : Option UInt8 := none
  responseTimeout : Nat
  deriving DecidableEq, Repr

namespace Radio

/-- How many commands are held back at most. -/
def maxPending : Nat := 4

/-- The radio before the first start. -/
def ofConfig (config : NodeConfig) : Radio :=
  { bringup := .ofConfig config.radio config.timing
    responseTimeout := config.timing.responseTimeout.toNat }

/-- Starts bring-up over. The command in flight, the commands held back and the connection are
forgotten. -/
def start (r : Radio) : Radio :=
  { r with
    line := r.line.reset
    slot := .free
    bringup := r.bringup.start
    pending := []
    connection := none }

/-- The module is up. -/
def isReady (r : Radio) : Bool := r.bringup.isComplete

/-- A peer is connected. -/
def isConnected (r : Radio) : Bool := r.connection.isSome

/-- The peer that data can be sent to. -/
def peer? (r : Radio) : Option UInt8 := if r.isReady then r.connection else none

/-! ## Commands of the node -/

/-- Writes a command and waits for it. -/
def send (r : Radio) (wire : Wire) (c : AppCommand) : Except CommandError Unit × Radio × Wire :=
  let (result, slot, wire) := r.slot.send wire c.toCommand
  (result, { r with slot }, wire)

/-- Writes a command now, or holds it back while another is in flight. -/
def request (r : Radio) (wire : Wire) (c : AppCommand) : Except CommandError Unit × Radio × Wire :=
  if r.bringup.isActive then (.error .busy, r, wire)
  else if r.slot.isBusy ∨ r.pending ≠ [] then
    if r.pending.length < maxPending then (.ok (), { r with pending := r.pending ++ [c] }, wire)
    else (.error .busy, r, wire)
  else r.send wire c

/-- Has the module advertise, or stop. -/
def setVisible (r : Radio) (wire : Wire) (visible : Bool) :
    Except CommandError Unit × Radio × Wire :=
  r.request wire (.advertise visible)

/-- Drops the peer, if there is one. -/
def disconnect (r : Radio) (wire : Wire) : Except CommandError Unit × Radio × Wire :=
  if r.isConnected then r.request wire .disconnect else (.ok (), r, wire)

/-- The commands held back that there still is a reason to write: a disconnect at the head is
dropped when nobody is connected. -/
def dropStale (connected : Bool) : List AppCommand → List AppCommand
  | .disconnect :: rest => if connected then .disconnect :: rest else dropStale connected rest
  | pending => pending

/-- Writes the next command that was held back, unless one is in flight. -/
def sendNext (r : Radio) (wire : Wire) : Except CommandError Unit × Radio × Wire :=
  if r.slot.isBusy then (.ok (), r, wire)
  else
    match dropStale r.isConnected r.pending with
    | [] => (.ok (), { r with pending := [] }, wire)
    | c :: rest => { r with pending := rest }.send wire c

/-- Sends data to the peer: whether it was sent. -/
def sendData (r : Radio) (wire : Wire) (data : Bytes) : Bool × Wire :=
  match r.peer? with
  | none => (false, wire)
  | some handle =>
    match (Command.sendTransparentData handle data).write wire with
    | (.ok (), wire) => (true, wire)
    | (.error _, wire) => (false, wire)

/-! ## Events of the module -/

/-- What one input to the radio leaves. -/
structure Step where
  result : Except RadioError (Option RadioEvent)
  radio : Radio
  wire : Wire

/-- The radio after a step of bring-up. -/
def afterBringup (r : Radio) (step : BringupStep) : Step :=
  { result := (step.result.map (Option.map .bringup)).mapError .bringup
    radio := { r with bringup := step.bringup, slot := step.slot }
    wire := step.wire }

/-- Takes a completion once the module is up: the next command goes out, and a failure has the
status read again. -/
def completeRequest (r : Radio) (wire : Wire) (command status : UInt8) (data : Bytes) : Step :=
  match r.sendNext wire with
  | (.error e, r, wire) => ⟨.error (.command e), r, wire⟩
  | (.ok (), r, wire) =>
    if status ≠ Response.success then
      if command ≠ Command.readStatus.opcode ∧ r.pending.length < maxPending then
        match r.request wire .readStatus with
        | (.ok (), r, wire) => ⟨.ok (some (.commandFailed command status)), r, wire⟩
        | (.error e, r, wire) => ⟨.error (.command e), r, wire⟩
      else ⟨.ok (some (.commandFailed command status)), r, wire⟩
    else
      match decide (command = Command.readStatus.opcode), data.head? with
      | true, some byte =>
        let status := ModuleStatus.ofByte byte
        ⟨.ok (some (.status status)), { r with status }, wire⟩
      | _, _ => ⟨.ok none, r, wire⟩

/-- Takes a completion. -/
def complete (r : Radio) (wire : Wire) (command status : UInt8) (data : Bytes) : Step :=
  let (answered, slot) := r.slot.complete command
  let r := { r with slot }
  if r.bringup.isActive = false then r.completeRequest wire command status data
  else if answered = false then ⟨.ok none, r, wire⟩
  else r.afterBringup (r.bringup.answer slot wire command status data)

/-- Takes an event. -/
def react (r : Radio) (wire : Wire) : Response → Step
  | .commandComplete command status data => r.complete wire command status data.bytes
  | .statusReport status => ⟨.ok (some (.status status)), { r with status }, wire⟩
  | .connectionComplete status handle _ =>
    if status = Response.success then
      ⟨.ok (some (.connected handle)), { r with connection := some handle }, wire⟩
    else ⟨.ok none, r, wire⟩
  | .disconnectionComplete _ _ =>
    ⟨.ok (if r.isConnected then some .disconnected else none), { r with connection := none }, wire⟩
  | .transparentData _ data => ⟨.ok (if r.isConnected then some (.data data) else none), r, wire⟩
  | .pairingComplete _ _ | .unknown _ => ⟨.ok none, r, wire⟩

/-- Takes one byte from the module. -/
def receive (r : Radio) (wire : Wire) (byte : UInt8) : Step :=
  let (received, line) := r.line.feed byte
  let r := { r with line }
  match received with
  | .error e => ⟨.error (.frame e), r, wire⟩
  | .ok none => ⟨.ok none, r, wire⟩
  | .ok (some (.testMode packet)) => ⟨.ok (some (.testMode packet)), r, wire⟩
  | .ok (some (.event frame)) =>
    match Response.ofFrame frame with
    | .error e => ⟨.error (.frame e), r, wire⟩
    | .ok response => r.react wire response

/-- One tick: bring-up goes on, or a command that was not answered makes way for the next. -/
def tick (r : Radio) (wire : Wire) : Step :=
  if r.bringup.isActive then r.afterBringup (r.bringup.tick r.slot wire)
  else
    let r := { r with slot := (r.slot.tick r.responseTimeout).2 }
    match r.sendNext wire with
    | (.ok (), r, wire) => ⟨.ok none, r, wire⟩
    | (.error e, r, wire) => ⟨.error (.command e), r, wire⟩

/-- Another mode of the line. -/
def setLineMode (r : Radio) (mode : LineMode) : Radio := { r with line := r.line.setMode mode }

end Radio

end RoomControl
