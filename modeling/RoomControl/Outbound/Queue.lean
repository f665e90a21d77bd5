import RoomControl.Message

/-!
# The queue of a channel

What is still to be sent on a channel, as items that name a kind and perhaps one element of a list.
A packet is built only when an item reaches the head, so it always shows the state of that moment;
for the same reason an item that is queued already is not queued again. Items that find the queue
full are dropped and counted.

The cursor counts how many elements of the head item have been sent.
-/

set_option autoImplicit false

namespace RoomControl

/-- Something to send. -/
structure Item where
  kind : Kind
  /-- The element of a list kind; without one all elements are sent. -/
  param : Option UInt8
  deriving DecidableEq, Repr

/-- Sending `old` sends `new` as well: the kinds are the same, and `new` asks for no element or for
the same one. -/
def Item.RepeatOf (new old : Item) : Prop :=
  old.kind = new.kind ∧ (new.param = none ∨ old.param = new.param)

instance (new old : Item) : Decidable (new.RepeatOf old) := inferInstanceAs (Decidable (_ ∧ _))

/-- The items of a channel, the next one first. -/
structure Queue where
  items : List Item := []
  /-- The next element of the head item. -/
  cursor : Nat := 0
  /-- How many items found the queue full. -/
  dropped : Nat := 0
  deriving DecidableEq, Repr

namespace Queue

/-- The most items a queue holds. -/
def depth : Nat := 10

/-- Where the cursor stops counting. -/
def maxCursor : Nat := 255

/-- Where the count of dropped items stops. -/
def maxDropped : Nat := 65535

/-- Queues an item, unless a queued one repeats it. -/
def enqueue (q : Queue) (item : Item) : Queue :=
  if ∃ old ∈ q.items, item.RepeatOf old then q
  else if q.items.length < depth then { q with items := q.items ++ [item] }
  else { q with dropped := min (q.dropped + 1) maxDropped }

/-- The item at the head. -/
def head? (q : Queue) : Option Item := q.items.head?

/-- Goes on to the next element of the head item. -/
def advance (q : Queue) : Queue := { q with cursor := min (q.cursor + 1) maxCursor }

/-- Removes the head item. -/
def pop (q : Queue) : Queue := { q with items := q.items.tail, cursor := 0 }

/-- Removes every item. -/
def clear (q : Queue) : Queue := { q with items := [], cursor := 0 }

theorem length_enqueue_le {q : Queue} (h : q.items.length ≤ depth) (item : Item) :
    (q.enqueue item).items.length ≤ depth := by
  unfold enqueue
  split
  · exact h
  · split
    · simpa using by omega
    · exact h

end Queue

end RoomControl
