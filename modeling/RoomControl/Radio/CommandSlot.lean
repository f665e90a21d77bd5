import RoomControl.Radio.Command
import RoomControl.Wire

/-!
# The command in flight

The radio module takes one command at a time. A `CommandSlot` remembers the opcode of the command
that was written last and how long it has waited, so that the completion which answers it can be
told from one that answers nothing.
-/

set_option autoImplicit false

namespace RoomControl

/-- Why a command is not issued. -/
inductive CommandError where
  /-- Its parameters do not fit a frame. -/
  | encode (error : FrameError)
  /-- The wire failed. -/
  | uart
  /-- Another command is in flight, and no more can be held back. -/
  | busy
  deriving DecidableEq, Repr

/-- Writes a command to a wire. -/
def Command.write (c : Command) (wire : Wire) : Except CommandError Unit × Wire :=
  match c.toBytes with
  | .error e => (.error (.encode e), wire)
  | .ok packet =>
    let (sent, wire) := wire.send packet
    (if sent then .ok () else .error .uart, wire)

/-- The command in flight, if there is one. -/
inductive CommandSlot where
  | free
  /-- The command with this opcode has waited for so many ticks. -/
  | waiting (opcode : UInt8) (elapsed : Nat)
  deriving DecidableEq, Repr

namespace CommandSlot

/-- Where the count of waited ticks stops. -/
def maxElapsed : Nat := 65535

/-- The opcode of the command in flight. -/
def outstanding : CommandSlot → Option UInt8
  | free => none
  | waiting opcode _ => some opcode

/-- A command is in flight. -/
def isBusy (s : CommandSlot) : Bool := s.outstanding.isSome

/-- Writes a command, which is then in flight. A command that cannot be written changes nothing. -/
def send (s : CommandSlot) (wire : Wire) (c : Command) :
    Except CommandError Unit × CommandSlot × Wire :=
  match c.write wire with
  | (.ok (), wire) => (.ok (), waiting c.opcode 0, wire)
  | (.error e, wire) => (.error e, s, wire)

/-- Takes a completion: whether it answers the command in flight, and the slot after it. -/
def complete (s : CommandSlot) (opcode : UInt8) : Bool × CommandSlot :=
  if s.outstanding = some opcode then (true, free) else (false, s)

/-- Waits one tick: the opcode of a command that has waited longer than `timeout`, and the slot
after it. -/
def tick (s : CommandSlot) (timeout : Nat) : Option UInt8 × CommandSlot :=
  match s with
  | free => (none, free)
  | waiting opcode elapsed =>
    let elapsed := min (elapsed + 1) maxElapsed
    if elapsed > timeout then (some opcode, free) else (none, waiting opcode elapsed)

end CommandSlot

end RoomControl
