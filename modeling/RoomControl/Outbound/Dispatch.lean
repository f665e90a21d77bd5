import RoomControl.Outbound.Queue
import RoomControl.Outbound.Transport

/-!
# From a queued item to a packet

A `PacketSource` builds the packet for an item. Sources are tried in order: the first that knows the
kind decides. One step of `dispatch` sends at most one packet: it takes the head item of a free
channel, has its packet built and commits it. An item that stands for a whole list stays at the head
until the source says that the packet was its last.
-/

set_option autoImplicit false

namespace RoomControl

/-- What a source makes of an item. -/
inductive Built where
  /-- The source does not know the kind. -/
  | notHandled
  /-- There is nothing to send. -/
  | exhausted
  /-- A packet, and whether it is the last of its list. -/
  | packet (bytes : Bytes) (last : Bool)
  deriving DecidableEq, Repr

/-- Builds the packet for an item; the number counts the elements already sent. -/
abbrev PacketSource := Item → Nat → Built

namespace PacketSource

/-- The source that knows no kind. -/
def none : PacketSource := fun _ _ => .notHandled

/-- Tries the second source with what the first does not know. -/
def orElse (first second : PacketSource) : PacketSource := fun item cursor =>
  match first item cursor with
  | .notHandled => second item cursor
  | built => built

end PacketSource

/-- What one step of dispatch did. -/
inductive Dispatched where
  /-- The channel is busy or the queue empty. -/
  | idle
  | sent (kind : Kind)
  /-- There was nothing to send for the item. -/
  | skipped (kind : Kind)
  /-- No source knows the kind. -/
  | unhandled (kind : Kind)
  /-- The packet was not accepted. -/
  | failed (kind : Kind) (error : TransportError)
  deriving DecidableEq, Repr

/-- What one step of dispatch leaves. -/
structure DispatchStep where
  dispatched : Dispatched
  /-- The packet to send. -/
  transmit : Option Bytes := none
  queue : Queue
  transport : Transport

/-- Sends at most one packet on a channel. -/
def dispatch (source : PacketSource) (c : Channel) (queue : Queue) (transport : Transport) :
    DispatchStep :=
  match transport.isFree c, queue.head? with
  | true, some item =>
    match source item queue.cursor with
    | .notHandled => { dispatched := .unhandled item.kind, queue := queue.pop, transport }
    | .exhausted => { dispatched := .skipped item.kind, queue := queue.pop, transport }
    | .packet bytes last =>
      let packet := bytes.take Message.maxSize
      match transport.commit c packet with
      | .ok transport =>
        let queue := if last ∨ item.param.isSome then queue.pop else queue.advance
        { dispatched := .sent item.kind, transmit := some packet, queue, transport }
      | .error e => { dispatched := .failed item.kind e, queue := queue.pop, transport }
  | _, _ => { dispatched := .idle, queue, transport }

/-! ## Tables -/

/-- The packets of one kind, given as a table. -/
structure PacketRow where
  kind : Kind
  /-- The bodies of the list elements. -/
  bodies : List Bytes
  /-- The length of every packet, where it is not that of its message. -/
  length : Option Nat

/-- The packet of a row for an element. A length beyond the message shows the zeros after it. -/
def PacketRow.build (row : PacketRow) (element : Nat) : Built :=
  match row.bodies[element]? with
  | none => .exhausted
  | some body =>
    match Message.encodeInto row.kind body (List.replicate Message.maxSize 0) with
    | .error _ => .exhausted
    | .ok (count, buffer) =>
      .packet (buffer.take (row.length.getD count)) (element + 1 = row.bodies.length)

/-- The source that looks kinds up in a table. -/
def PacketSource.ofTable (rows : List PacketRow) : PacketSource := fun item cursor =>
  match rows.find? fun row => row.kind = item.kind with
  | some row => row.build ((item.param.map UInt8.toNat).getD cursor)
  | Option.none => .notHandled

end RoomControl
