import RoomControl.Outbound.Dispatch
import RoomControl.Proofs.Outbound.Lives

/-!
# What one step of dispatch does

`dispatch_cases` takes a step apart. The channel was busy or its queue empty; or the head item went
without a packet; or its packet is outstanding now and is to be sent, and the item stays at the head
only when more of its list is to come. A packet without bytes is the only one that a free channel
does not accept.
-/

set_option autoImplicit false

namespace RoomControl

/-- The queue after the packet of its head item was sent. -/
def Queue.afterPacket (q : Queue) (item : Item) (last : Bool) : Queue :=
  if last ∨ item.param.isSome then q.pop else q.advance

/-- What is outstanding right after a commit. -/
def Transport.fresh (t : Transport) (payload : Buffer 32) : Outstanding :=
  { payload, wait := t.settings.timeout, retries := t.settings.retries }

inductive DispatchCase (source : PacketSource) (c : Channel) (q : Queue) (t : Transport) :
    DispatchStep → Prop
  | idle : t.isFree c = false ∨ q.items = [] →
      DispatchCase source c q t { dispatched := .idle, queue := q, transport := t }
  | unhandled {item : Item} {rest : List Item} : t.isFree c = true → q.items = item :: rest →
      source item q.cursor = .notHandled →
      DispatchCase source c q t
        { dispatched := .unhandled item.kind, queue := q.pop, transport := t }
  | skipped {item : Item} {rest : List Item} : t.isFree c = true → q.items = item :: rest →
      source item q.cursor = .exhausted →
      DispatchCase source c q t { dispatched := .skipped item.kind, queue := q.pop, transport := t }
  | sent {item : Item} {rest : List Item} {bytes : Bytes} {last : Bool} {held : Buffer 32} :
      t.isFree c = true → q.items = item :: rest → source item q.cursor = .packet bytes last →
      held.bytes = bytes.take Message.maxSize →
      DispatchCase source c q t
        { dispatched := .sent item.kind
          transmit := some held.bytes
          queue := q.afterPacket item last
          transport := t.withSlot c (some (t.fresh held)) }
  | failed {item : Item} {rest : List Item} {last : Bool} {e : TransportError} :
      t.isFree c = true → q.items = item :: rest → source item q.cursor = .packet [] last →
      DispatchCase source c q t
        { dispatched := .failed item.kind e, queue := q.pop, transport := t }

theorem dispatch_cases (source : PacketSource) (c : Channel) (q : Queue) (t : Transport) :
    DispatchCase source c q t (dispatch source c q t) := by
  unfold dispatch
  split
  · rename_i item hfree hhead
    obtain ⟨rest, hitems⟩ : ∃ rest, q.items = item :: rest := List.head?_eq_some_iff.mp hhead
    split
    · rename_i hbuilt
      exact .unhandled hfree hitems hbuilt
    · rename_i hbuilt
      exact .skipped hfree hitems hbuilt
    · rename_i bytes last hbuilt
      dsimp only
      split
      · rename_i next hcommit
        obtain ⟨_, _, held, hheld, rfl⟩ := Transport.eq_of_commit hcommit
        rw [← hheld]
        exact .sent hfree hitems hbuilt hheld
      · rename_i e hcommit
        -- a free channel accepts whatever has between one and 32 bytes
        cases bytes with
        | nil => exact .failed hfree hitems hbuilt
        | cons byte more =>
          have hmax : ((byte :: more).take Message.maxSize).length ≤ 32 := List.length_take_le ..
          have hpos : 1 ≤ ((byte :: more).take Message.maxSize).length := by
            simp [Message.maxSize]
          rw [Transport.commit_of_free (Option.isNone_iff_eq_none.mp hfree) hpos hmax] at hcommit
          cases hcommit
  · rename_i hnone
    refine .idle ?_
    cases hfree : t.isFree c with
    | false => exact .inl rfl
    | true =>
      cases hitems : q.items with
      | nil => exact .inr rfl
      | cons item rest =>
        exact (hnone item hfree (by rw [Queue.head?, hitems]; rfl)).elim

namespace DispatchCase

variable {source : PacketSource} {c : Channel} {q : Queue} {t : Transport} {step : DispatchStep}

/-- Nothing is sent while a message is outstanding. -/
theorem eq_of_busy (h : DispatchCase source c q t step) (hbusy : (t.outstanding c).isSome) :
    step = { dispatched := .idle, queue := q, transport := t } := by
  have hnot : t.isFree c ≠ true := by
    rw [Transport.isFree, ← Option.not_isSome, hbusy]
    exact Bool.false_ne_true
  cases h with
  | idle => rfl
  | unhandled hfree => exact absurd hfree hnot
  | skipped hfree => exact absurd hfree hnot
  | sent hfree => exact absurd hfree hnot
  | failed hfree => exact absurd hfree hnot

/-- **A packet of the right size is sent** when the channel is free. -/
theorem sends_packet (h : DispatchCase source c q t step) (hfree : t.outstanding c = none)
    {item : Item} {rest : List Item} (hitems : q.items = item :: rest) {bytes : Bytes} {last : Bool}
    (hpacket : source item q.cursor = .packet bytes last) (hpos : 1 ≤ bytes.length)
    (hmax : bytes.length ≤ Message.maxSize) :
    ∃ held : Buffer 32, held.bytes = bytes ∧ step.dispatched = .sent item.kind ∧
      step.queue = q.afterPacket item last ∧
      step.transport = t.withSlot c (some (t.fresh held)) ∧ step.transmit = some bytes := by
  cases h with
  | idle hidle =>
    rcases hidle with hbusy | hnil
    · simp [Transport.isFree, hfree] at hbusy
    · rw [hitems] at hnil
      cases hnil
  | unhandled _ hhead hbuilt =>
    cases hitems.symm.trans hhead
    cases hpacket.symm.trans hbuilt
  | skipped _ hhead hbuilt =>
    cases hitems.symm.trans hhead
    cases hpacket.symm.trans hbuilt
  | failed _ hhead hbuilt =>
    cases hitems.symm.trans hhead
    cases hpacket.symm.trans hbuilt
    exact absurd hpos (by decide)
  | @sent _ _ _ _ held _ hhead hbuilt hheld =>
    cases hitems.symm.trans hhead
    cases hpacket.symm.trans hbuilt
    have hbytes : held.bytes = bytes := hheld.trans (List.take_of_length_le hmax)
    exact ⟨held, hbytes, rfl, rfl, rfl, congrArg some hbytes⟩

/-- Dispatch queues nothing. -/
theorem mem_items (h : DispatchCase source c q t step) {item : Item}
    (hmem : item ∈ step.queue.items) : item ∈ q.items := by
  cases h with
  | idle => exact hmem
  | @sent _ _ _ last _ _ _ _ _ =>
    dsimp only [Queue.afterPacket] at hmem
    split at hmem
    · exact List.mem_of_mem_tail hmem
    · exact hmem
  | _ => exact List.mem_of_mem_tail hmem

/-- What is sent was queued. -/
theorem exists_of_sent (h : DispatchCase source c q t step) {kind : Kind}
    (hsent : step.dispatched = .sent kind) : ∃ item ∈ q.items, item.kind = kind := by
  cases h with
  | @sent item rest _ _ _ _ hitems _ _ =>
    cases hsent
    exact ⟨item, by rw [hitems]; exact List.mem_cons_self, rfl⟩
  | _ => cases hsent

end DispatchCase

/-- What was sent in one step of dispatch, with the kind of its item. -/
def sentOf (dispatched : Dispatched) (outstanding : Option Outstanding) : List (Kind × Bytes) :=
  match dispatched with
  | .sent kind => outstanding.toList.map fun o => (kind, o.payload.bytes)
  | _ => []

end RoomControl
