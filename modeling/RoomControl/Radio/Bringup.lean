import RoomControl.Radio.CommandSlot
import RoomControl.Radio.Response
import RoomControl.Radio.Stage

/-!
# Bringing the radio module up

A `Bringup` issues the command of one stage after another and waits for each to complete. A write
stage is skipped when the module already has the wanted setting. A command that fails, by an error
status, a failed write or no answer in time, is issued again; the third failure in a row resets the
module and starts over, and the seventh gives up.

A failure counts towards the stage. The count is cleared when a stage is done, and a module reset
does not clear it.
-/

set_option autoImplicit false

namespace RoomControl

/-- A peer that the module remembers. -/
structure PairedDevice where
  index : UInt8
  address : Address
  deriving DecidableEq, Repr

/-- What the module has said about itself. -/
structure ModuleInfo where
  /-- The start of the reply to a request for local information. -/
  identity : Buffer 16 := .empty
  name : Buffer 16 := .empty
  pairingMode : Option PairingMode := none
  pin : Buffer 6 := .empty
  paired : List PairedDevice := []
  deriving DecidableEq, Repr

namespace ModuleInfo

/-- The most paired devices that are kept. -/
def maxPaired : Nat := 8

/-- The complete records at the start of `bytes`. -/
def pairedRecords : Bytes → List PairedDevice
  | index :: a :: b :: c :: d :: e :: f :: rest =>
    ⟨index, #v[a, b, c, d, e, f]⟩ :: pairedRecords rest
  | _ => []

/-- The paired devices in a reply, which gives their number first. -/
def readPaired : Bytes → List PairedDevice
  | count :: records => (pairedRecords records).take (min count.toNat maxPaired)
  | [] => []

/-- What is known after a stage was answered with this data. -/
def learn (info : ModuleInfo) (stage : Stage) (data : Bytes) : ModuleInfo :=
  match stage with
  | .readIdentity => { info with identity := .ofPrefix data }
  | .readName => { info with name := .ofPrefix data }
  | .readPairingMode => { info with pairingMode := data.head?.bind PairingMode.ofByte? }
  | .readPin => { info with pin := .ofPrefix data }
  | .readPairedDevices => { info with paired := readPaired data }
  | _ => info

end ModuleInfo

/-- Why bring-up failed. -/
inductive BringupError where
  /-- The stage failed too often. -/
  | attemptsExhausted (stage : Stage)
  /-- The reset could not be written. -/
  | reset (error : CommandError)
  deriving DecidableEq, Repr

/-- What bring-up did. -/
inductive BringupEvent where
  /-- The stage failed and is tried again. -/
  | retrying (stage : Stage) (attempts : Nat)
  /-- The module is reset and bring-up starts over. -/
  | moduleReset (attempts : Nat)
  | advanced (stage : Stage)
  | completed
  deriving DecidableEq, Repr

/-- What bring-up is waiting for. -/
inductive Phase where
  /-- It has not been started, or has given up. -/
  | idle
  /-- The module needs so many more ticks to start. -/
  | settling (left : Nat)
  /-- The next tick issues the command of the stage. -/
  | issue
  /-- The command has so many more ticks to complete. -/
  | awaiting (left : Nat)
  | complete
  deriving DecidableEq, Repr

/-- The state of bring-up. -/
structure Bringup where
  /-- The settings that the module is to have. -/
  settings : RadioSettings
  responseTimeout : Nat
  resetSettle : Nat
  phase : Phase := .idle
  stage : Stage := .readIdentity
  /-- The opcode of the command that was issued last. -/
  command : UInt8 := Stage.readIdentity.opcode
  /-- How often the stage has failed. -/
  attempts : Nat := 0
  info : ModuleInfo := {}
  /-- How often the module was reset. -/
  resets : Nat := 0
  deriving DecidableEq, Repr

/-- What one step of bring-up leaves. -/
structure BringupStep where
  result : Except BringupError (Option BringupEvent)
  bringup : Bringup
  slot : CommandSlot
  wire : Wire

namespace Bringup

/-- The failure that resets the module. -/
def resetAttempt : Nat := 3

/-- The failure that ends bring-up. -/
def maxAttempts : Nat := 7

/-- Where the count of resets stops. -/
def maxResets : Nat := 65535

/-- Bring-up as it is before the first start. -/
def ofConfig (radio : RadioSettings) (timing : TimingSettings) : Bringup :=
  { settings := radio
    responseTimeout := timing.responseTimeout.toNat
    resetSettle := timing.resetSettle.toNat }

/-- Starts from the first stage, once the module has settled. -/
def start (b : Bringup) : Bringup :=
  { b with
    phase := .settling b.resetSettle
    stage := .readIdentity
    command := Stage.readIdentity.opcode
    attempts := 0
    info := {} }

/-- Bring-up is under way. -/
def isActive (b : Bringup) : Bool :=
  match b.phase with
  | .settling _ | .issue | .awaiting _ => true
  | .idle | .complete => false

/-- Every stage is done. -/
def isComplete (b : Bringup) : Bool := b.phase = .complete

/-- A command has been issued and has not completed. -/
def isAwaiting (b : Bringup) : Bool :=
  match b.phase with
  | .awaiting _ => true
  | _ => false

/-- The module already has what the stage would write. -/
def isSettled (b : Bringup) : Stage → Bool
  | .writeName => b.settings.keepName || b.info.name.bytes = b.settings.name.bytes
  | .writePairingMode => b.info.pairingMode = some b.settings.pairingMode
  | .writePin => b.info.pin.bytes = b.settings.pin.bytes
  | _ => false

/-- Goes on to the next stage. -/
def advance (b : Bringup) : BringupEvent × Bringup :=
  match b.stage.next? with
  | some stage =>
    (.advanced stage, { b with attempts := 0, stage, command := stage.opcode, phase := .issue })
  | none => (.completed, { b with attempts := 0, phase := .complete })

/-- Counts a failure and decides what follows. -/
def fail (b : Bringup) (slot : CommandSlot) (wire : Wire) : BringupStep :=
  let attempts := b.attempts + 1
  let b := { b with attempts }
  if attempts ≥ maxAttempts then
    ⟨.error (.attemptsExhausted b.stage), { b with phase := .idle }, slot, wire⟩
  else if attempts = resetAttempt then
    let b :=
      { b with
        stage := .readIdentity
        command := Command.reset.opcode
        phase := .settling b.resetSettle
        resets := min (b.resets + 1) maxResets }
    match Command.reset.write wire with
    | (.ok (), wire) => ⟨.ok (some (.moduleReset attempts)), b, .free, wire⟩
    | (.error e, wire) => ⟨.error (.reset e), b, .free, wire⟩
  else ⟨.ok (some (.retrying b.stage attempts)), { b with phase := .issue }, slot, wire⟩

/-- Issues the command of the stage. -/
def issue (b : Bringup) (slot : CommandSlot) (wire : Wire) : BringupStep :=
  let command := b.stage.command b.settings
  let b := { b with command := command.opcode, phase := .awaiting b.responseTimeout }
  match slot.send wire command with
  | (.ok (), slot, wire) => ⟨.ok none, b, slot, wire⟩
  | (.error _, slot, wire) => b.fail slot wire

/-- Issues the command of the first stage that is not settled, from the current one on. A settled
stage is never followed by another, nor is it the last. -/
def issueNext (b : Bringup) (slot : CommandSlot) (wire : Wire) : BringupStep :=
  if b.isSettled b.stage then b.advance.2.issue slot wire else b.issue slot wire

/-- One tick: counts down, and issues the next command when it is due. -/
def tick (b : Bringup) (slot : CommandSlot) (wire : Wire) : BringupStep :=
  match b.phase with
  | .idle | .complete => ⟨.ok none, b, slot, wire⟩
  | .settling 0 | .issue => b.issueNext slot wire
  | .settling (left + 1) => ⟨.ok none, { b with phase := .settling left }, slot, wire⟩
  | .awaiting 0 => b.fail .free wire
  | .awaiting (left + 1) => ⟨.ok none, { b with phase := .awaiting left }, slot, wire⟩

/-- Takes the completion of a command that was in flight. -/
def answer (b : Bringup) (slot : CommandSlot) (wire : Wire) (command status : UInt8)
    (data : Bytes) : BringupStep :=
  if b.isAwaiting = false ∨ command ≠ b.command then ⟨.ok none, b, slot, wire⟩
  else if status ≠ Response.success then b.fail slot wire
  else
    let (event, b) := { b with info := b.info.learn b.stage data }.advance
    ⟨.ok (some event), b, slot, wire⟩

end Bringup

end RoomControl
