import RoomControl.Outbound.Queue

/-!
# What a queue holds, and what leaves it

Items are queued, popped and cleared in any order. An item that repeats no queued one is accepted
when there is room for it, and refused when there is none. What leaves the queue is logged with the
way in which it leaves.

`queue_law` says what holds after any operations. No item repeats one before it, though an item may
repeat one behind it: a whole list stands before single elements of it, never the other way round.
The items accepted are those that have left, in the order in which they left, and behind them those
that are still there. So the popped ones are the accepted ones but for what was cleared.
-/

set_option autoImplicit false

namespace RoomControl

/-- The later item does not repeat the earlier: of the same kind, it has a parameter of its own. -/
def Item.Apart (earlier later : Item) : Prop :=
  earlier.kind = later.kind → later.param.isSome ∧ earlier.param ≠ later.param

instance (earlier later : Item) : Decidable (earlier.Apart later) :=
  inferInstanceAs (Decidable (_ → _))

theorem Item.not_repeatOf_iff {earlier later : Item} :
    ¬ later.RepeatOf earlier ↔ earlier.Apart later := by
  rw [RepeatOf, not_and, not_or, ← ne_eq, Option.ne_none_iff_isSome]
  rfl

namespace Queue

/-! ## Operations -/

/-- What is done to a queue. -/
inductive Operation where
  | enqueue (item : Item)
  | advance
  | pop
  | clear
  deriving DecidableEq, Repr

def apply (q : Queue) : Operation → Queue
  | .enqueue item => q.enqueue item
  | .advance => q.advance
  | .pop => q.pop
  | .clear => q.clear

/-- The queue after operations, one after the other. -/
def after (q : Queue) (operations : List Operation) : Queue := operations.foldl apply q

/-- The item repeats nothing in the queue. -/
def IsNew (q : Queue) (item : Item) : Prop := ∀ old ∈ q.items, old.Apart item

instance (q : Queue) (item : Item) : Decidable (q.IsNew item) :=
  inferInstanceAs (Decidable (∀ old ∈ q.items, _))

/-- **What becomes of an item** that is queued. -/
theorem enqueue_cases (q : Queue) (item : Item) :
    ¬ q.IsNew item ∧ q.enqueue item = q ∨
      q.IsNew item ∧ q.items.length < depth ∧
        q.enqueue item = { q with items := q.items ++ [item] } ∨
      q.IsNew item ∧ depth ≤ q.items.length ∧
        q.enqueue item = { q with dropped := min (q.dropped + 1) maxDropped } := by
  have hnew : q.IsNew item ↔ ¬ ∃ old ∈ q.items, item.RepeatOf old := by
    simp only [IsNew, ← Item.not_repeatOf_iff, not_exists, not_and]
  rw [hnew]
  unfold enqueue
  split
  next hrepeats => exact .inl ⟨not_not_intro hrepeats, rfl⟩
  next hapart =>
    split
    next hroom => exact .inr (.inl ⟨hapart, hroom, rfl⟩)
    next hfull => exact .inr (.inr ⟨hapart, Nat.le_of_not_lt hfull, rfl⟩)

/-! ## What is seen of them -/

/-- How an item leaves a queue. -/
inductive Leaving where
  | popped
  | cleared
  deriving DecidableEq, Repr

/-- What is seen of each operation, over all of them. -/
def during {α : Type} (seen : Queue → Operation → List α) (q : Queue) : List Operation → List α
  | [] => []
  | operation :: rest => seen q operation ++ during seen (q.apply operation) rest

/-- The item that is accepted: it is new, and there is room for it. -/
def accepted (q : Queue) : Operation → List Item
  | .enqueue item => if q.IsNew item ∧ q.items.length < depth then [item] else []
  | .advance | .pop | .clear => []

/-- The item that is refused: it is new, and the queue is full. -/
def refused (q : Queue) : Operation → List Item
  | .enqueue item => if q.IsNew item ∧ depth ≤ q.items.length then [item] else []
  | .advance | .pop | .clear => []

/-- The item that a pop answers. -/
def popped (q : Queue) : Operation → List Item
  | .pop => q.head?.toList
  | .enqueue _ | .advance | .clear => []

/-- The items that leave, in order. -/
def leaving (q : Queue) : Operation → List (Item × Leaving)
  | .pop => q.head?.toList.map (·, .popped)
  | .clear => q.items.map (·, .cleared)
  | .enqueue _ | .advance => []

/-! ## What each operation keeps -/

theorem length_apply_le {q : Queue} (h : q.items.length ≤ depth) (operation : Operation) :
    (q.apply operation).items.length ≤ depth := by
  cases operation with
  | enqueue item => exact length_enqueue_le h item
  | advance => exact h
  | pop => exact Nat.le_trans (by simp [apply, pop]) h
  | clear => exact Nat.zero_le _

theorem apart_apply {q : Queue} (h : q.items.Pairwise Item.Apart) (operation : Operation) :
    (q.apply operation).items.Pairwise Item.Apart := by
  cases operation with
  | enqueue item =>
    rw [apply]
    rcases q.enqueue_cases item with ⟨-, hq⟩ | ⟨hnew, -, hq⟩ | ⟨-, -, hq⟩
    · rwa [hq]
    · rw [hq]
      refine List.pairwise_append.mpr ⟨h, List.pairwise_singleton _ _, fun old hold other hother => ?_⟩
      rw [List.mem_singleton.mp hother]
      exact hnew old hold
    · rwa [hq]
  | advance => exact h
  | pop => exact h.sublist (List.tail_sublist _)
  | clear => exact .nil

/-- **Nothing is lost in an operation**: what was there and what comes is what leaves and what is
there then. -/
theorem items_apply (q : Queue) (operation : Operation) :
    q.items ++ q.accepted operation =
      (q.leaving operation).map Prod.fst ++ (q.apply operation).items := by
  cases operation with
  | enqueue item =>
    show q.items ++ _ = (q.enqueue item).items
    rw [accepted]
    rcases q.enqueue_cases item with ⟨hold, hq⟩ | ⟨hnew, hroom, hq⟩ | ⟨-, hfull, hq⟩
    · rw [hq, if_neg fun h => hold h.1, List.append_nil]
    · rw [hq, if_pos ⟨hnew, hroom⟩]
    · rw [hq, if_neg fun h => Nat.not_lt_of_le hfull h.2, List.append_nil]
  | advance => exact List.append_nil _
  | pop => cases hitems : q.items <;> simp [accepted, leaving, apply, pop, head?, hitems]
  | clear => simp [accepted, leaving, apply, clear, Function.comp_def]

theorem popped_eq (q : Queue) (operation : Operation) :
    q.popped operation = ((q.leaving operation).filter (·.2 = .popped)).map Prod.fst := by
  cases operation with
  | pop => cases hitems : q.items <;> simp [popped, leaving, head?, hitems]
  | clear => simp [popped, leaving, List.filter_map, Function.comp_def]
  | enqueue item => rfl
  | advance => rfl

theorem dropped_apply (q : Queue) (h : q.dropped ≤ maxDropped) (operation : Operation) :
    (q.apply operation).dropped = min (q.dropped + (q.refused operation).length) maxDropped := by
  have hsame : q.dropped = min (q.dropped + 0) maxDropped := (Nat.min_eq_left h).symm
  cases operation with
  | enqueue item =>
    rw [apply, refused]
    rcases q.enqueue_cases item with ⟨hold, hq⟩ | ⟨-, hroom, hq⟩ | ⟨hnew, hfull, hq⟩
    · rw [hq, if_neg fun h => hold h.1]
      exact hsame
    · rw [hq, if_neg fun h => Nat.not_lt_of_le h.2 hroom]
      exact hsame
    · rw [hq, if_pos ⟨hnew, hfull⟩]
      rfl
  | _ => exact hsame

/-! ## A whole run -/

/-- **What each operation keeps, a run keeps.** -/
theorem kept_after {P : Queue → Prop} (keeps : ∀ q operation, P q → P (q.apply operation))
    {q : Queue} (h : P q) (operations : List Operation) : P (q.after operations) := by
  induction operations generalizing q with
  | nil => exact h
  | cons operation rest ih => exact ih (keeps q operation h)

theorem items_after (q : Queue) (operations : List Operation) :
    q.items ++ during accepted q operations =
      (during leaving q operations).map Prod.fst ++ (q.after operations).items := by
  induction operations generalizing q with
  | nil => exact List.append_nil _
  | cons operation rest ih =>
    calc q.items ++ (q.accepted operation ++ during accepted (q.apply operation) rest)
        = (q.leaving operation).map Prod.fst ++
            ((q.apply operation).items ++ during accepted (q.apply operation) rest) := by
          rw [← List.append_assoc, items_apply, List.append_assoc]
      _ = (during leaving q (operation :: rest)).map Prod.fst ++ ((q.apply operation).after rest).items := by
          rw [ih, during, List.map_append, List.append_assoc]

theorem popped_during (q : Queue) (operations : List Operation) :
    during popped q operations =
      ((during leaving q operations).filter (·.2 = .popped)).map Prod.fst := by
  induction operations generalizing q with
  | nil => rfl
  | cons operation rest ih =>
    rw [during, during, List.filter_append, List.map_append, ← popped_eq, ih]

theorem dropped_after (q : Queue) (h : q.dropped ≤ maxDropped) (operations : List Operation) :
    (q.after operations).dropped =
      min (q.dropped + (during refused q operations).length) maxDropped := by
  induction operations generalizing q with
  | nil => exact (Nat.min_eq_left h).symm
  | cons operation rest ih =>
    have hnext := q.dropped_apply h operation
    show ((q.apply operation).after rest).dropped = _
    rw [ih _ (hnext ▸ Nat.min_le_right ..), hnext, during, List.length_append]
    omega

/-- **The law of a queue.** After any operations on a new queue it holds at most ten items, none of
which repeats one before it. An item is appended, whenever it is queued, if and only if it repeats
nothing that is there and fewer than ten items are; else the items stay, and the cursor stays always.
The items refused are counted up to 65535. The items accepted are, in this order, those that have
left and those that are still there, and the popped ones are those that have left but for what was
cleared. -/
theorem queue_law (operations : List Operation) :
    let q := after {} operations
    q.items.length ≤ 10 ∧
      q.items.Pairwise (fun earlier later => earlier.kind = later.kind →
        later.param.isSome ∧ earlier.param ≠ later.param) ∧
      (∀ item,
        ((q.enqueue item).items = q.items ++ [item] ↔
          (∀ old ∈ q.items, old.kind = item.kind → item.param.isSome ∧ old.param ≠ item.param) ∧
            q.items.length < 10) ∧
        ((q.enqueue item).items = q.items ++ [item] ∨ (q.enqueue item).items = q.items) ∧
        (q.enqueue item).cursor = q.cursor) ∧
      q.dropped = min (during refused {} operations).length 65535 ∧
      during accepted {} operations =
        (during leaving {} operations).map Prod.fst ++ q.items ∧
      during popped {} operations =
        ((during leaving {} operations).filter (·.2 = .popped)).map Prod.fst := by
  intro q
  have hlength := kept_after (P := fun q => q.items.length ≤ depth)
    (fun _ operation h => length_apply_le h operation) (q := {}) (Nat.zero_le _) operations
  have hapart := kept_after (P := fun q => q.items.Pairwise Item.Apart)
    (fun _ operation h => apart_apply h operation) (q := {}) .nil operations
  have hdropped := dropped_after {} (Nat.zero_le _) operations
  rw [Nat.zero_add] at hdropped
  refine ⟨hlength, hapart, fun item => ?_, hdropped, items_after {} operations,
    popped_during {} operations⟩
  have hlonger : q.items ≠ q.items ++ [item] := by simp
  rcases q.enqueue_cases item with ⟨hold, hq⟩ | ⟨hnew, hroom, hq⟩ | ⟨-, hfull, hq⟩
  · rw [hq]
    exact ⟨⟨fun h => absurd h hlonger, fun h => absurd h.1 hold⟩, .inr rfl, rfl⟩
  · rw [hq]
    exact ⟨⟨fun _ => ⟨hnew, hroom⟩, fun _ => rfl⟩, .inl rfl, rfl⟩
  · rw [hq]
    exact ⟨⟨fun h => absurd h hlonger, fun h => absurd h.2 (Nat.not_lt_of_le hfull)⟩, .inr rfl, rfl⟩

/-- A list is queued, then two of its elements, one of them twice. The list is popped and the rest is
cleared. -/
example :
    let led (param : Option UInt8) : Item := ⟨.led, param⟩
    let operations : List Operation := [.enqueue (led none), .enqueue (led (some 1)),
      .enqueue (led (some 2)), .enqueue (led (some 1)), .pop, .clear]
    during accepted {} operations = [led none, led (some 1), led (some 2)] ∧
      during leaving {} operations =
        [(led none, .popped), (led (some 1), .cleared), (led (some 2), .cleared)] := by
  decide

end Queue

end RoomControl
