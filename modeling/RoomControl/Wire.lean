import RoomControl.Bytes

/-!
# Serial wires

The radio module and the USB bridge each hang on a serial wire. A packet is written as a whole and
then flushed. What becomes of each packet is the wire's fate, which a `Wire` carries as a function
of the packet's number: it may be sent, it may be refused before anything is sent, and it may be
sent although the flush reports a failure.
-/

set_option autoImplicit false

namespace RoomControl

/-- What becomes of a packet. -/
inductive Fate where
  | delivered
  /-- The write fails and nothing is sent. -/
  | refused
  /-- The packet is sent, and the flush after it fails. -/
  | unconfirmed
  deriving DecidableEq, Repr

/-- The sending end of a serial wire. -/
structure Wire where
  /-- What becomes of the packet with this number. -/
  fate : Nat → Fate := fun _ => .delivered
  /-- How many packets have been tried. -/
  tried : Nat := 0
  /-- The packets on the wire, in order. -/
  sent : List Bytes := []

namespace Wire

/-- Sends a packet: whether it succeeded, and the wire after it. -/
def send (w : Wire) (packet : Bytes) : Bool × Wire :=
  let next := { w with tried := w.tried + 1 }
  match w.fate w.tried with
  | .delivered => (true, { next with sent := w.sent ++ [packet] })
  | .refused => (false, next)
  | .unconfirmed => (false, { next with sent := w.sent ++ [packet] })

/-- The wire on which every packet from now on has the same fate. -/
def withFate (w : Wire) (fate : Fate) : Wire := { w with fate := fun _ => fate }

/-- The packets on the wire, and the wire without them. -/
def take (w : Wire) : List Bytes × Wire := (w.sent, { w with sent := [] })

/-- The rates, in bits per second, of the radio wire, the USB wire and a wire of no known use. -/
def baudRates : List Nat := [115200, 115200, 115200]

end Wire

end RoomControl
