import RoomControl.Proofs.Outbound.Sending

/-!
# A list is sent element by element

An item that stands for a whole list stays at the head of its queue while its elements go out, one
for each time that the channel becomes free. Meanwhile the message that is outstanding may be
confirmed, sent again, given up or cancelled, and items may be queued behind.

`Listing` says how far a list has come: the cursor of the queue is the number of elements sent. A
call that finds the channel free sends the next one, and no other call sends anything
(`Listing.serve`). So the elements are sent in order, each once, with nothing between them
(`list_sent_once`). The cursor stops at 255; a list of 256 elements ends there, since its last element
removes the item.
-/

set_option autoImplicit false

namespace RoomControl

/-- The kind is a list of so many elements: each has a packet that can be sent, and the packet of the
last one alone says that it is the last. -/
def PacketSource.Lists (source : PacketSource) (kind : Kind) (count : Nat) : Prop :=
  ∀ i < count, ∃ packet : Bytes, source ⟨kind, Option.none⟩ i = .packet packet (i + 1 = count) ∧
    1 ≤ packet.length ∧ packet.length ≤ Message.maxSize

/-- The queue of a channel and the transport that it feeds. -/
structure Outbox where
  queue : Queue
  transport : Transport

namespace Outbox

/-! ## Calls -/

/-- What is asked of an outbox. -/
inductive Call where
  /-- A step of dispatch, with what this source then builds. -/
  | dispatch (source : PacketSource)
  | acknowledge (sum : UInt8)
  | tick (connected : Bool)
  | enqueue (item : Item)

/-- A packet that was committed, with the source that built it. -/
abbrev Commit := PacketSource × Bytes

/-- Serves a call on a channel: what is committed, and the outbox after it. -/
def serve (b : Outbox) (c : Channel) : Call → List Commit × Outbox
  | .dispatch source =>
    let step := RoomControl.dispatch source c b.queue b.transport
    (step.transmit.toList.map (source, ·), ⟨step.queue, step.transport⟩)
  | .acknowledge sum => ([], { b with transport := b.transport.acknowledge c sum })
  | .tick connected => ([], { b with transport := b.transport.afterTurn c connected })
  | .enqueue item => ([], { b with queue := b.queue.enqueue item })

/-- The outbox after calls, one after the other. -/
def after (b : Outbox) (c : Channel) (calls : List Call) : Outbox :=
  calls.foldl (fun b call => (b.serve c call).2) b

/-- What is committed during calls, in order. -/
def commits (b : Outbox) (c : Channel) : List Call → List Commit
  | [] => []
  | call :: rest => (b.serve c call).1 ++ (b.serve c call).2.commits c rest

/-- The call finds the channel free. -/
def opens (b : Outbox) (c : Channel) : Call → Bool
  | .dispatch _ => b.transport.isFree c
  | .acknowledge _ | .tick _ | .enqueue _ => false

/-- How many calls find the channel free. -/
def openings (b : Outbox) (c : Channel) : List Call → Nat
  | [] => 0
  | call :: rest => (b.opens c call).toNat + (b.serve c call).2.openings c rest

/-! ## The list at the head -/

/-- What was committed is the packet of this element. -/
def Commit.IsElement (commit : Commit) (kind : Kind) (count i : Nat) : Prop :=
  commit.1 ⟨kind, none⟩ i = .packet commit.2 (i + 1 = count)

/-- So many elements of the list at the head are sent; behind it are these items and later ones. -/
structure Listing (kind : Kind) (behind : List Item) (b : Outbox) (sent : Nat) : Prop where
  items : ∃ more, b.queue.items = ⟨kind, none⟩ :: (behind ++ more)
  cursor : b.queue.cursor = sent

/-- The list is sent, and its item gone. -/
structure Done (behind : List Item) (b : Outbox) : Prop where
  items : ∃ more, b.queue.items = behind ++ more
  cursor : b.queue.cursor = 0

variable {c : Channel} {b : Outbox} {kind : Kind} {behind : List Item} {count sent : Nat}

theorem Listing.enqueue (h : Listing kind behind b sent) (item : Item) :
    Listing kind behind { b with queue := b.queue.enqueue item } sent := by
  obtain ⟨⟨more, hitems⟩, hcursor⟩ := h
  unfold Queue.enqueue
  split
  · exact ⟨⟨more, hitems⟩, hcursor⟩
  · split
    · refine ⟨⟨more ++ [item], ?_⟩, hcursor⟩
      rw [hitems, List.cons_append, List.append_assoc]
    · exact ⟨⟨more, hitems⟩, hcursor⟩

/-- **A call that finds the channel free sends the next element**, and the last one ends the list. -/
theorem Listing.serve_of_opens (h : Listing kind behind b sent) (hsent : sent < count)
    (hcount : count ≤ Queue.maxCursor + 1) {call : Call} (hopens : b.opens c call = true)
    (hlists : ∀ source, call = .dispatch source → source.Lists kind count) :
    ∃ commit : Commit, (b.serve c call).1 = [commit] ∧ commit.IsElement kind count sent ∧
      (sent + 1 < count → Listing kind behind (b.serve c call).2 (sent + 1)) ∧
      (sent + 1 = count → Done behind (b.serve c call).2) := by
  obtain ⟨⟨more, hitems⟩, hcursor⟩ := h
  cases call with
  | dispatch source =>
    obtain ⟨packet, hpacket, hpos, hmax⟩ := hlists source rfl sent hsent
    have hfree : b.transport.outstanding c = none := Option.isNone_iff_eq_none.mp hopens
    rw [← hcursor] at hpacket
    obtain ⟨_, -, -, hqueue, -, htransmit⟩ :=
      (dispatch_cases source c b.queue b.transport).sends_packet hfree hitems hpacket hpos hmax
    rw [hcursor] at hpacket hqueue
    refine ⟨(source, packet), ?_, hpacket, fun hmany => ?_, fun hlast => ?_⟩
    · rw [serve, htransmit]
      rfl
    · have hadvance : b.queue.afterPacket ⟨kind, none⟩ (sent + 1 = count) = b.queue.advance := by
        rw [Queue.afterPacket, if_neg]
        simp [Nat.ne_of_lt hmany]
      rw [hadvance] at hqueue
      refine ⟨⟨more, ?_⟩, ?_⟩
      · rw [serve, hqueue]
        exact hitems
      · rw [serve, hqueue]
        show min (b.queue.cursor + 1) Queue.maxCursor = _
        omega
    · have hpop : b.queue.afterPacket ⟨kind, none⟩ (sent + 1 = count) = b.queue.pop := by
        rw [Queue.afterPacket, if_pos]
        simp [hlast]
      rw [hpop] at hqueue
      refine ⟨⟨more, ?_⟩, ?_⟩
      · rw [serve, hqueue]
        show b.queue.items.tail = _
        rw [hitems, List.tail_cons]
      · rw [serve, hqueue]
        rfl
  | _ => cases hopens

/-- **Any other call sends nothing** and leaves the list where it is. -/
theorem Listing.serve_of_not_opens (h : Listing kind behind b sent) {call : Call}
    (hopens : b.opens c call = false) :
    (b.serve c call).1 = [] ∧ Listing kind behind (b.serve c call).2 sent := by
  cases call with
  | dispatch source =>
    have hbusy : (b.transport.outstanding c).isSome := by
      rw [← Option.not_isNone, show (b.transport.outstanding c).isNone = false from hopens]
      rfl
    rw [serve, (dispatch_cases source c b.queue b.transport).eq_of_busy hbusy]
    exact ⟨rfl, h⟩
  | acknowledge sum => exact ⟨rfl, h.items, h.cursor⟩
  | tick connected => exact ⟨rfl, h.items, h.cursor⟩
  | enqueue item => exact ⟨rfl, h.enqueue item⟩

/-! ## A whole run -/

/-- A run sends elements for as long as there are any. -/
structure Sends (b : Outbox) (c : Channel) (kind : Kind) (behind : List Item) (count sent : Nat)
    (calls : List Call) : Prop where
  elements : ∀ i commit, (b.commits c calls)[i]? = some commit → sent + i < count →
    commit.IsElement kind count (sent + i)
  going : sent + b.openings c calls < count →
    (b.commits c calls).length = b.openings c calls ∧
      Listing kind behind (b.after c calls) (sent + b.openings c calls)
  ended : count ≤ sent + b.openings c calls → count ≤ sent + (b.commits c calls).length ∧
    ∃ first rest, calls = first ++ rest ∧
      b.commits c first = (b.commits c calls).take (count - sent) ∧ Done behind (b.after c first)

theorem Listing.sends (h : Listing kind behind b sent) (hsent : sent < count)
    (hcount : count ≤ Queue.maxCursor + 1) (calls : List Call)
    (hlists : ∀ source, .dispatch source ∈ calls → source.Lists kind count) :
    Sends b c kind behind count sent calls := by
  induction calls generalizing b sent with
  | nil => exact ⟨nofun, fun _ => ⟨rfl, h⟩, fun hnone => absurd hsent (Nat.not_lt_of_le hnone)⟩
  | cons call rest ih =>
    have hrest := fun source hmem => hlists source (List.mem_cons_of_mem call hmem)
    cases hopens : b.opens c call with
    | false =>
      obtain ⟨hnone, hkept⟩ := h.serve_of_not_opens hopens
      obtain ⟨helements, hgoing, hended⟩ := ih hkept hsent hrest
      have hcommits (calls : List Call) :
          b.commits c (call :: calls) = (b.serve c call).2.commits c calls := by
        rw [commits, hnone, List.nil_append]
      have hopenings : b.openings c (call :: rest) = (b.serve c call).2.openings c rest := by
        rw [openings, hopens, Bool.toNat_false, Nat.zero_add]
      refine ⟨?_, ?_, ?_⟩
      · rw [hcommits]
        exact helements
      · rw [hcommits, hopenings]
        exact hgoing
      · rw [hcommits, hopenings]
        intro henough
        obtain ⟨hlength, first, later, rfl, hfirst, hdone⟩ := hended henough
        exact ⟨hlength, call :: first, later, rfl, by rw [hcommits, hfirst], hdone⟩
    | true =>
      obtain ⟨commit, hone, helement, hmany, hlast⟩ := h.serve_of_opens hsent hcount hopens
        fun source hcall => hlists source (hcall ▸ List.mem_cons_self)
      have hcommits (calls : List Call) :
          b.commits c (call :: calls) = commit :: (b.serve c call).2.commits c calls := by
        rw [commits, hone, List.singleton_append]
      have hopenings : b.openings c (call :: rest) = (b.serve c call).2.openings c rest + 1 := by
        rw [openings, hopens, Bool.toNat_true, Nat.add_comm]
      by_cases hmore : sent + 1 < count
      · obtain ⟨helements, hgoing, hended⟩ := ih (hmany hmore) hmore hrest
        refine ⟨fun i later hget hlt => ?_, fun hfew => ?_, fun henough => ?_⟩
        · rw [hcommits] at hget
          cases i with
          | zero =>
            cases hget
            exact helement
          | succ i =>
            rw [← Nat.succ_eq_add_one, ← Nat.succ_add_eq_add_succ]
            exact helements i later hget (by omega)
        · rw [hopenings] at hfew ⊢
          obtain ⟨hlength, hlisting⟩ := hgoing (by omega)
          rw [hcommits, List.length_cons, hlength]
          rw [Nat.add_right_comm] at hlisting
          exact ⟨rfl, hlisting⟩
        · rw [hopenings] at henough
          obtain ⟨hlength, first, later, rfl, hfirst, hdone⟩ := hended (by omega)
          rw [hcommits, List.length_cons]
          refine ⟨by omega, call :: first, later, rfl, ?_, hdone⟩
          rw [hcommits, hfirst, show count - sent = count - (sent + 1) + 1 by omega,
            List.take_succ_cons]
      · have hcount : sent + 1 = count := Nat.le_antisymm hsent (Nat.le_of_not_lt hmore)
        refine ⟨fun i later hget hlt => ?_, fun hfew => ?_, fun _ => ⟨?_, [call], rest, rfl, ?_, ?_⟩⟩
        · obtain rfl : i = 0 := by omega
          rw [hcommits] at hget
          cases hget
          exact helement
        · omega
        · rw [hcommits, List.length_cons]
          omega
        · rw [hcommits, hcommits, show count - sent = 1 by omega]
          rfl
        · exact hlast hcount

/-- **A list is sent element by element.** A kind without parameter is a list of 1 to 256 elements for
every source that is used, and its item is at the head with the cursor at 0. Then in every run of
calls the first packets that are committed are those of the elements 0, 1, 2 and so on, with nothing
between them. Each call that finds the channel free commits one. While these calls are fewer than the
elements, the item stays at the head and the cursor counts them; with the last element the item is
gone, what was behind it is at the head, and the cursor is 0. -/
theorem list_sent_once {c : Channel} {b : Outbox} {kind : Kind} {behind : List Item} {count : Nat}
    (hpos : 1 ≤ count) (hmax : count ≤ 256) (hitems : b.queue.items = ⟨kind, none⟩ :: behind)
    (hcursor : b.queue.cursor = 0) (calls : List Call)
    (hlists : ∀ source, .dispatch source ∈ calls → source.Lists kind count) :
    let sent := b.commits c calls
    (∀ i < count, ∀ commit, sent[i]? = some commit →
      commit.1 ⟨kind, none⟩ i = .packet commit.2 (i + 1 = count)) ∧
    (b.openings c calls < count → sent.length = b.openings c calls ∧
      ∃ more, (b.after c calls).queue.items = ⟨kind, none⟩ :: (behind ++ more) ∧
        (b.after c calls).queue.cursor = b.openings c calls) ∧
    (count ≤ b.openings c calls → count ≤ sent.length ∧
      ∃ first rest more, calls = first ++ rest ∧ b.commits c first = sent.take count ∧
        (b.after c first).queue.items = behind ++ more ∧ (b.after c first).queue.cursor = 0) := by
  intro sent
  have hstart : Listing kind behind b 0 := ⟨⟨[], by rw [hitems, List.append_nil]⟩, hcursor⟩
  obtain ⟨helements, hgoing, hended⟩ := hstart.sends hpos hmax calls hlists
  simp only [Nat.zero_add, Nat.sub_zero] at helements hgoing hended
  refine ⟨fun i hi commit hget => helements i commit hget hi, fun hfew => ?_, fun henough => ?_⟩
  · obtain ⟨hlength, ⟨more, hmore⟩, hcount⟩ := hgoing hfew
    exact ⟨hlength, more, hmore, hcount⟩
  · obtain ⟨hlength, first, rest, hcalls, hfirst, ⟨more, hmore⟩, hzero⟩ := hended henough
    exact ⟨hlength, first, rest, more, hcalls, hfirst, hmore, hzero⟩

/-- Three LEDs. -/
def ledTable : PacketSource := .ofTable [⟨.led, [[0], [1], [2]], none⟩]

/-- The first packet is confirmed and the second is cancelled; meanwhile one of the LEDs is queued on
its own. -/
def ledCalls : List Call :=
  [.dispatch ledTable, .dispatch ledTable, .enqueue ⟨.led, some 1⟩, .acknowledge 0x11, .tick true,
    .dispatch ledTable, .tick false, .dispatch ledTable]

theorem lists_ledTable : ledTable.Lists .led 3 := by
  intro i hi
  have hcases : i = 0 ∨ i = 1 ∨ i = 2 := by omega
  rcases hcases with rfl | rfl | rfl
  · exact ⟨_, rfl, by decide, by decide⟩
  · exact ⟨_, rfl, by decide, by decide⟩
  · exact ⟨_, rfl, by decide, by decide⟩

/-- The LEDs go out one after the other, and the item behind them is next. -/
theorem three_leds_sent :
    let b : Outbox := ⟨{ items := [⟨.led, none⟩, ⟨.outputs, none⟩] }, {}⟩
    (∀ source, .dispatch source ∈ ledCalls → source.Lists .led 3) ∧
      b.openings .usb ledCalls = 3 ∧
      (b.commits .usb ledCalls).map Prod.snd = [[0x11, 0, 0], [0x11, 1, 1], [0x11, 2, 2]] ∧
      ∃ first rest more, ledCalls = first ++ rest ∧
        b.commits .usb first = (b.commits .usb ledCalls).take 3 ∧
        (b.after .usb first).queue.items = [⟨.outputs, none⟩] ++ more ∧
        (b.after .usb first).queue.cursor = 0 := by
  intro b
  have hlists : ∀ source, .dispatch source ∈ ledCalls → source.Lists .led 3 := by
    intro source hmem
    obtain rfl : source = ledTable := by simpa [ledCalls] using hmem
    exact lists_ledTable
  have hopenings : b.openings .usb ledCalls = 3 := by decide
  have hsent := list_sent_once (c := .usb) (b := b) (show 1 ≤ 3 by decide) (show 3 ≤ 256 by decide)
    rfl rfl ledCalls hlists
  exact ⟨hlists, hopenings, by decide, (hsent.2.2 (Nat.le_of_eq hopenings.symm)).2⟩

end Outbox

end RoomControl
