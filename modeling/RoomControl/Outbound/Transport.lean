import RoomControl.Bytes.Buffer
import RoomControl.Channel

/-!
# Delivering messages

At most one message is outstanding on a channel. It is sent when it is committed, and sent again
whenever the wait for the peer's echo runs out, until the echo arrives, the retries are used up or
the peer is gone. A peer echoes the additive sum of what it received.

The functions here decide what is to be sent and answer it; they send nothing themselves. Whether a
sent message got through makes no difference to them, since one that is lost is sent again.
-/

set_option autoImplicit false

namespace RoomControl

/-- Why a message is not accepted. -/
inductive TransportError where
  /-- A message is outstanding on the channel. -/
  | busy
  /-- The message is empty or too long. -/
  | invalidLength
  deriving DecidableEq, Repr

/-- How a message left the transport. -/
inductive Delivery where
  /-- The peer echoed its sum. -/
  | confirmed
  /-- The retries are used up. -/
  | gaveUp
  /-- The peer is gone. -/
  | cancelled
  deriving DecidableEq, Repr

/-- How long and how often to try. -/
structure RetrySettings where
  /-- The ticks to wait for an echo. -/
  timeout : Nat := 20
  /-- How often a message is sent again. -/
  retries : Nat := 3
  deriving DecidableEq, Repr

/-- A message that waits for its echo. -/
structure Outstanding where
  payload : Buffer 32
  /-- The last sum that the peer echoed. -/
  echoed : Option UInt8 := none
  /-- The ticks left to wait. -/
  wait : Nat
  /-- How often the message may still be sent again. -/
  retries : Nat
  deriving DecidableEq, Repr

namespace Outstanding

/-- The sum that the peer must echo. -/
def expected (o : Outstanding) : UInt8 := additiveSum o.payload.bytes

/-- The peer has echoed the message. -/
def IsEchoed (o : Outstanding) : Prop := o.echoed = some o.expected

instance (o : Outstanding) : Decidable o.IsEchoed := inferInstanceAs (Decidable (_ = _))

end Outstanding

/-- What one tick did on a channel. -/
structure Turn where
  /-- How the outstanding message left, if it did. -/
  delivery : Option Delivery := none
  /-- What is sent again. -/
  resend : Option Bytes := none
  /-- What is outstanding after it. -/
  slot : Option Outstanding := none
  deriving DecidableEq, Repr

/-- One tick on a channel with this message outstanding. -/
def Outstanding.turn (o : Outstanding) (settings : RetrySettings) (connected : Bool) : Turn :=
  if connected = false then { delivery := some .cancelled }
  else if o.IsEchoed then { delivery := some .confirmed }
  else if o.wait > 0 then { slot := some { o with wait := o.wait - 1 } }
  else if o.retries = 0 then { delivery := some .gaveUp }
  else
    { resend := some o.payload.bytes
      slot := some { o with wait := settings.timeout, retries := o.retries - 1 } }

/-- The outstanding messages of all channels. -/
structure Transport where
  settings : RetrySettings := {}
  slots : PerChannel (Option Outstanding) := .ofFn fun _ => none
  deriving DecidableEq, Repr

namespace Transport

/-- What is outstanding on a channel. -/
def outstanding (t : Transport) (c : Channel) : Option Outstanding := t.slots.get c

/-- The channel can take a message. -/
def isFree (t : Transport) (c : Channel) : Bool := (t.outstanding c).isNone

/-- The transport with something else outstanding on a channel. -/
def withSlot (t : Transport) (c : Channel) (slot : Option Outstanding) : Transport :=
  { t with slots := t.slots.set c slot }

/-- Takes a message, which is then to be sent. -/
def commit (t : Transport) (c : Channel) (payload : Bytes) : Except TransportError Transport :=
  if t.isFree c = false then .error .busy
  else if payload = [] then .error .invalidLength
  else
    match Buffer.ofBytes? payload with
    | none => .error .invalidLength
    | some held =>
      .ok (t.withSlot c (some
        { payload := held, wait := t.settings.timeout, retries := t.settings.retries }))

/-- Notes the sum that the peer echoed. -/
def acknowledge (t : Transport) (c : Channel) (sum : UInt8) : Transport :=
  t.withSlot c ((t.outstanding c).map fun o => { o with echoed := some sum })

/-- One tick on a channel. -/
def turn (t : Transport) (c : Channel) (connected : Bool) : Turn :=
  match t.outstanding c with
  | none => {}
  | some o => o.turn t.settings connected

/-- The transport after one tick on a channel. -/
def afterTurn (t : Transport) (c : Channel) (connected : Bool) : Transport :=
  t.withSlot c (t.turn c connected).slot

/-- Drops what is outstanding on a channel. -/
def cancel (t : Transport) (c : Channel) : Transport := t.withSlot c none

theorem outstanding_withSlot_self (t : Transport) (c : Channel) (slot : Option Outstanding) :
    (t.withSlot c slot).outstanding c = slot := by
  simp [outstanding, withSlot]

/-- What happens on one channel leaves the other as it was. -/
theorem outstanding_withSlot_of_ne (t : Transport) {c d : Channel} (slot : Option Outstanding)
    (h : d ≠ c) : (t.withSlot c slot).outstanding d = t.outstanding d :=
  PerChannel.get_set_of_ne t.slots slot h

end Transport

end RoomControl
