import RoomControl.Proofs.Node.Programming
import RoomControl.Proofs.Outbound.Sending
import RoomControl.Proofs.Radio.Writing

/-!
# A station seen from one channel

Most of what a station does concerns neither the board nor the radio, and touches a channel only by
queueing items behind those already there. `Station.Inside` says so of a stretch of work. It holds
of every message that asks for no action; `received_receiveMessage` takes a message apart into the
echo and what follows it.

On a tick each channel has its turn. `turned_tick` gives the turn of one channel on its own: the
other channel and the radio leave its queue and its outstanding message alone.
-/

set_option autoImplicit false

namespace RoomControl

/-! ## Queues -/

/-- Items with this property were queued behind those already there. -/
def Queue.GrowsBy (P : Item → Prop) (q q' : Queue) : Prop :=
  q'.cursor = q.cursor ∧ ∃ more, q'.items = q.items ++ more ∧ ∀ item ∈ more, P item

/-- Items were queued behind those already there. -/
abbrev Queue.Grows (q q' : Queue) : Prop := q.GrowsBy (fun _ => True) q'

namespace Queue

theorem GrowsBy.refl {P : Item → Prop} (q : Queue) : q.GrowsBy P q :=
  ⟨rfl, [], (List.append_nil _).symm, nofun⟩

theorem GrowsBy.trans {P : Item → Prop} {a b c : Queue} (first : a.GrowsBy P b)
    (second : b.GrowsBy P c) : a.GrowsBy P c := by
  obtain ⟨hcursor, more, hmore, hall⟩ := first
  obtain ⟨hcursor', more', hmore', hall'⟩ := second
  refine ⟨hcursor'.trans hcursor, more ++ more', ?_, fun item hmem => ?_⟩
  · rw [hmore', hmore, List.append_assoc]
  · exact (List.mem_append.mp hmem).elim (hall item) (hall' item)

theorem GrowsBy.grows {P : Item → Prop} {q q' : Queue} (h : q.GrowsBy P q') : q.Grows q' := by
  obtain ⟨hcursor, more, hmore, -⟩ := h
  exact ⟨hcursor, more, hmore, fun _ _ => trivial⟩

theorem growsBy_enqueue {P : Item → Prop} (q : Queue) {item : Item} (h : P item) :
    q.GrowsBy P (q.enqueue item) := by
  unfold enqueue
  split
  · exact .refl q
  · split
    · exact ⟨rfl, [item], rfl, fun other hmem => List.mem_singleton.mp hmem ▸ h⟩
    · exact ⟨rfl, [], (List.append_nil _).symm, nofun⟩

end Queue

/-! ## Items for every channel -/

namespace Node

/-- What is queued for each connected channel, all at once. -/
theorem notify_eq (n : Node) (connected : Channel → Bool) (item : Item) :
    n.notify connected item =
      { n with
        queues := .ofFn fun c =>
          if connected c then (n.queues.get c).enqueue item else n.queues.get c } := by
  unfold notify Channel.all
  cases husb : connected .usb with
  | true =>
    cases hbluetooth : connected .bluetooth with
    | true => simp [husb, hbluetooth, enqueue, PerChannel.ofFn, PerChannel.get, PerChannel.set]
    | false => simp [husb, hbluetooth, enqueue, PerChannel.ofFn, PerChannel.get, PerChannel.set]
  | false =>
    cases hbluetooth : connected .bluetooth with
    | true => simp [husb, hbluetooth, enqueue, PerChannel.ofFn, PerChannel.get, PerChannel.set]
    | false => simp [husb, hbluetooth, PerChannel.ofFn, PerChannel.get]

theorem growsBy_notify {P : Item → Prop} (n : Node) (connected : Channel → Bool) {item : Item}
    (h : P item) (c : Channel) :
    (n.queues.get c).GrowsBy P ((n.notify connected item).queues.get c) := by
  rw [notify_eq, PerChannel.get_ofFn]
  split
  · exact Queue.growsBy_enqueue _ h
  · exact .refl _

theorem grows_enqueue (n : Node) (c d : Channel) (item : Item) :
    (n.queues.get d).Grows ((n.enqueue c item).queues.get d) := by
  by_cases h : d = c
  · subst h
    rw [enqueue, PerChannel.get_set_self]
    exact Queue.growsBy_enqueue _ trivial
  · rw [enqueue, PerChannel.get_set_of_ne _ _ h]
    exact .refl _

end Node

/-! ## Work inside the node -/

namespace Transport

/-- What is outstanding in `t'` was outstanding in `t`, on the same channel. -/
def Retains (t t' : Transport) : Prop :=
  t'.settings = t.settings ∧
    ∀ c o', t'.outstanding c = some o' → ∃ o, t.outstanding c = some o ∧ o'.payload = o.payload

theorem Retains.refl (t : Transport) : t.Retains t := ⟨rfl, fun _ o h => ⟨o, h, rfl⟩⟩

theorem Retains.trans {a b c : Transport} (first : a.Retains b) (second : b.Retains c) :
    a.Retains c := by
  refine ⟨second.1.trans first.1, fun d o'' h => ?_⟩
  obtain ⟨o', h', heq'⟩ := second.2 d o'' h
  obtain ⟨o, h, heq⟩ := first.2 d o' h'
  exact ⟨o, h, heq'.trans heq⟩

theorem retains_withSlot {t : Transport} {c : Channel} {slot : Option Outstanding}
    (h : ∀ o', slot = some o' → ∃ o, t.outstanding c = some o ∧ o'.payload = o.payload) :
    t.Retains (t.withSlot c slot) := by
  refine ⟨rfl, fun d o' ho => ?_⟩
  by_cases hd : d = c
  · subst hd
    rw [outstanding_withSlot_self] at ho
    exact h o' ho
  · rw [outstanding_withSlot_of_ne t slot hd] at ho
    exact ⟨o', ho, rfl⟩

theorem retains_acknowledge (t : Transport) (c : Channel) (sum : UInt8) :
    t.Retains (t.acknowledge c sum) := by
  refine retains_withSlot fun o' h => ?_
  obtain ⟨o, ho, rfl⟩ := Option.map_eq_some_iff.mp h
  exact ⟨o, ho, rfl⟩

theorem retains_cancel (t : Transport) (c : Channel) : t.Retains (t.cancel c) :=
  retains_withSlot nofun

theorem retains_afterTurn (t : Transport) (c : Channel) (connected : Bool) :
    t.Retains (t.afterTurn c connected) := by
  refine retains_withSlot fun o' h => ?_
  unfold turn at h
  split at h
  · cases h
  · rename_i o ho
    refine ⟨o, ho, ?_⟩
    unfold Outstanding.turn at h
    repeat' split at h
    all_goals cases h
    · rfl
    · rfl

/-- What is sent again was outstanding. -/
theorem resend_of_turn {t : Transport} {c : Channel} {connected : Bool} {payload : Bytes}
    (h : (t.turn c connected).resend = some payload) :
    ∃ o, t.outstanding c = some o ∧ payload = o.payload.bytes := by
  unfold turn at h
  split at h
  · cases h
  · rename_i o ho
    refine ⟨o, ho, ?_⟩
    unfold Outstanding.turn at h
    repeat' split at h
    all_goals cases h
    rfl

end Transport

namespace Station

variable {β : Type}

/-- Between two states a station worked on its own: it wrote nothing, left the radio and the board
alone, and did no more to its channels than to queue items and to note echoes. -/
structure Inside (s t : Station β) : Prop where
  radio : t.node.radio = s.node.radio
  usbActive : t.node.usbActive = s.node.usbActive
  radioWire : t.radioWire = s.radioWire
  usbWire : t.usbWire = s.usbWire
  board : t.board = s.board
  queues : ∀ c, (s.node.queues.get c).Grows (t.node.queues.get c)
  transport : s.node.transport.Retains t.node.transport

theorem Inside.refl (s : Station β) : Inside s s :=
  ⟨rfl, rfl, rfl, rfl, rfl, fun _ => .refl _, .refl _⟩

theorem Inside.isConnected {s t : Station β} (h : Inside s t) (c : Channel) :
    t.node.isConnected c = s.node.isConnected c := by
  cases c with
  | usb => exact h.usbActive
  | bluetooth => rw [Node.isConnected, Node.isConnected, h.radio]

/-! ### Messages -/

theorem inside_answerRequest (s : Station β) (c : Channel) (body : Bytes) :
    Inside s (s.answerRequest c body).2 := by
  cases body with
  | nil => exact .refl s
  | cons requested rest => exact { Inside.refl s with queues := fun d => s.node.grows_enqueue .. }

theorem inside_beginUpload (s : Station β) (c : Channel) (body : Bytes) :
    Inside s (s.beginUpload c body).2 := by
  unfold beginUpload
  split
  · dsimp only
    split
    · exact { Inside.refl s with }
    · exact { Inside.refl s with }
  · exact .refl s

theorem inside_startUploaded (s : Station β) : Inside s s.startUploaded.2 := by
  unfold startUploaded
  dsimp only
  split
  · exact { Inside.refl s with }
  · exact { Inside.refl s with }

theorem inside_takeChunk (s : Station β) (c : Channel) (body : Bytes) :
    Inside s (s.takeChunk c body).2 := by
  unfold takeChunk
  split
  · rename_i high low count rest
    split
    · exact .refl s
    · dsimp only
      generalize Upload.chunk s.node.upload s.memory (word high low).toNat
        (rest.take count.toNat) = taken
      obtain ⟨result, upload, memory⟩ := taken
      dsimp only
      generalize hnode :
        (if (s.node.upload.isSome && upload.isNone) = true then
          ({ s.node with upload }.enqueue c ⟨.programState, none⟩).enqueue c ⟨.consistency, none⟩
        else { s.node with upload }) = node
      have hinside : Inside s { s with node, memory } := by
        subst hnode
        split
        · refine { Inside.refl s with queues := fun d => ?_ }
          exact (Node.grows_enqueue { s.node with upload } c d _).trans (Node.grows_enqueue ..)
        · exact { Inside.refl s with }
      cases result with
      | error e => exact hinside
      | ok outcome =>
        cases outcome with
        | stored => exact hinside
        | complete =>
          have hstart := inside_startUploaded { s with node, memory }
          exact ⟨hstart.radio.trans hinside.radio, hstart.usbActive.trans hinside.usbActive,
            hstart.radioWire, hstart.usbWire, hstart.board,
            fun d => (hinside.queues d).trans (hstart.queues d),
            hinside.transport.trans hstart.transport⟩
  · exact .refl s

theorem inside_enterState (s : Station β) (c : Channel) (kind : Kind) (body : Bytes) :
    Inside s (s.enterState c kind body).2 := by
  cases body with
  | nil => exact .refl s
  | cons state rest => exact { Inside.refl s with }

theorem inside_takeEcho (s : Station β) (c : Channel) (body : Bytes) :
    Inside s (s.takeEcho c body).2 := by
  refine { Inside.refl s with transport := ?_ }
  unfold takeEcho
  dsimp only
  split
  · exact Transport.retains_acknowledge ..
  · exact .refl _

end Station

/-- The action that a message asks for, if it is one that drives a device. -/
def Message.action? (bytes : Bytes) : Option (Device × Bytes) :=
  match Message.decode bytes with
  | .ok ⟨.action, body⟩ =>
    match body.bytes with
    | [] => none
    | byte :: value =>
      if (Device.ofByte byte).isFlow then none else some (Device.ofByte byte, value)
  | _ => none

namespace Station

variable {β : Type} [Peripherals β]

/-- What a message led to. -/
inductive Received (s : Station β) (c : Channel) (bytes : Bytes) : Answer β → Prop
  /-- The message was an echo, or none at all. -/
  | unanswered {answer : Answer β} : Message.action? bytes = none → Inside s answer.2 →
      (∀ e, answer.1 ≠ .error (.radio e)) → Received s c bytes answer
  | answered {answer : Answer β} : Message.action? bytes = none →
      Inside (s.transmit c (echoOf bytes)) answer.2 → (∀ e, answer.1 ≠ .error (.radio e)) →
      Received s c bytes answer
  | acted {device : Device} {value : Bytes} {answer : Answer β} :
      Message.action? bytes = some (device, value) →
      answer.2 = ((s.transmit c (echoOf bytes)).execute
        (s.transmit c (echoOf bytes)).node.isConnected device value).2 →
      (∀ e, answer.1 = .error e → ((s.transmit c (echoOf bytes)).execute
        (s.transmit c (echoOf bytes)).node.isConnected device value).1 = some e) →
      Received s c bytes answer

omit [Peripherals β] in
/-- A message that is too short, or accepted, is not the radio's fault. -/
theorem not_radio_of_takeChunk (s : Station β) (c : Channel) (body : Bytes) (e : RadioError) :
    (s.takeChunk c body).1 ≠ .error (.radio e) := by
  unfold takeChunk startUploaded tooShort accept
  dsimp only
  repeat' split
  all_goals nofun

theorem received_receiveMessage (s : Station β) (c : Channel) (bytes : Bytes) :
    Received s c bytes (s.receiveMessage c bytes) := by
  unfold receiveMessage
  split
  · rename_i e hdecode
    exact .unanswered (by simp only [Message.action?, hdecode]) (.refl s) nofun
  · rename_i kind body hdecode
    split
    · rename_i hecho
      subst hecho
      exact .unanswered (by simp only [Message.action?, hdecode]) (inside_takeEcho ..) nofun
    · dsimp only
      split
      · refine .answered (by simp only [Message.action?, hdecode]) (inside_answerRequest ..) ?_
        unfold answerRequest
        split <;> nofun
      · refine .answered (by simp only [Message.action?, hdecode]) (inside_beginUpload ..) ?_
        unfold beginUpload
        repeat' split
        all_goals nofun
      · exact .answered (by simp only [Message.action?, hdecode]) (inside_takeChunk ..)
          (not_radio_of_takeChunk _ c _)
      · refine .answered (by simp only [Message.action?, hdecode]) (inside_enterState ..) ?_
        unfold enterState
        split <;> nofun
      · unfold act
        split
        · rename_i hbody
          exact .answered (by simp only [Message.action?, hdecode, hbody]) (.refl _) nofun
        · rename_i byte value hbody
          dsimp only
          split
          · rename_i hflow
            refine .answered (by simp only [Message.action?, hdecode, hbody, hflow, if_true])
              (inside_enterState ..) ?_
            unfold enterState
            split <;> nofun
          · rename_i hflow
            have haction : Message.action? bytes = some (Device.ofByte byte, value) := by
              simp only [Message.action?, hdecode, hbody, if_neg hflow]
            split
            · rename_i e s' hexec
              refine .acted haction (by rw [hexec]) (fun e' he => ?_)
              cases he
              rw [hexec]
            · rename_i s' hexec
              exact .acted haction (by rw [hexec]; rfl) nofun
      · rename_i hrequest hbegin hchunk henter haction
        refine .answered ?_ (.refl _) nofun
        rw [Message.action?, hdecode]
        split
        · rename_i hok
          cases hok
          exact (haction rfl).elim
        · rfl

end Station

/-! ## Actions -/

/-- The error says that the parameters of a command do not fit a frame. -/
def NodeError.IsEncode : NodeError → Prop
  | .radio e => e.IsEncode
  | _ => False

namespace Station

variable {β : Type}

/-- Between two states a station carried out actions: the peer stays, nothing was sent to it, and
the channels only got more items. -/
structure Driven (s t : Station β) : Prop where
  radio : s.node.radio.Quiet s.radioWire t.node.radio t.radioWire
  usb : t.node.usb = s.node.usb
  usbActive : t.node.usbActive = s.node.usbActive
  usbWire : t.usbWire = s.usbWire
  transport : t.node.transport = s.node.transport
  /-- No action asks for the program. -/
  queues : ∀ c, (s.node.queues.get c).GrowsBy (fun item => item.kind ≠ .chunk) (t.node.queues.get c)

theorem Driven.refl (s : Station β) : Driven s s :=
  ⟨.refl _ _, rfl, rfl, rfl, rfl, fun _ => .refl _⟩

theorem Driven.trans {s t u : Station β} (first : Driven s t) (second : Driven t u) :
    Driven s u :=
  ⟨first.radio.trans second.radio, second.usb.trans first.usb,
    second.usbActive.trans first.usbActive,
    second.usbWire.trans first.usbWire, second.transport.trans first.transport,
    fun c => (first.queues c).trans (second.queues c)⟩

theorem Driven.isConnected {s t : Station β} (h : Driven s t) (c : Channel) :
    t.node.isConnected c = s.node.isConnected c := by
  cases c with
  | usb => exact h.usbActive
  | bluetooth => rw [Node.isConnected, Node.isConnected, h.radio.peer?_eq]

theorem driven_notify (s : Station β) (connected : Channel → Bool) {item : Item}
    (hkind : item.kind ≠ .chunk) :
    Driven s { s with node := s.node.notify connected item } := by
  refine ⟨?_, ?_, ?_, rfl, ?_, s.node.growsBy_notify connected hkind⟩
  · rw [Node.notify_eq]
    exact .refl _ _
  · rw [Node.notify_eq]
  · rw [Node.notify_eq]
  · rw [Node.notify_eq]

theorem driven_triggerConnection (s : Station β) (visible : Bool) :
    Driven s (s.triggerConnection visible).2 ∧
      ∀ e, (s.triggerConnection visible).1 = some e → ¬ e.IsEncode := by
  -- what the node keeps of a quiet request
  have hkeeps : ∀ asked : Radio.Asked, s.node.radio.QuietAsked s.radioWire asked →
      Driven s { s with node := { s.node with radio := asked.2.1 }, radioWire := asked.2.2 } :=
    fun asked h => ⟨h.1, rfl, rfl, rfl, rfl, fun _ => .refl _⟩
  have hshow : s.node.radio.QuietAsked s.radioWire (s.node.radio.setVisible s.radioWire visible) :=
    Radio.quiet_request ..
  unfold triggerConnection
  generalize s.node.radio.setVisible s.radioWire visible = asked at hshow
  obtain ⟨result, radio, wire⟩ := asked
  cases result with
  | error e =>
    refine ⟨hkeeps _ hshow, fun e' h => ?_⟩
    cases h
    exact hshow.2 e rfl
  | ok _ =>
    cases visible with
    | true => exact ⟨hkeeps _ hshow, nofun⟩
    | false =>
      have hdrop := Radio.quiet_disconnect radio wire
      dsimp only
      generalize radio.disconnect wire = asked at hdrop
      obtain ⟨result, radio', wire'⟩ := asked
      have hboth : s.node.radio.QuietAsked s.radioWire (result, radio', wire') :=
        ⟨hshow.1.trans hdrop.1, hdrop.2⟩
      cases result with
      | ok _ => exact ⟨hkeeps _ hboth, nofun⟩
      | error e =>
        refine ⟨hkeeps _ hboth, fun e' h => ?_⟩
        cases h
        exact hdrop.2 e rfl

/-- Reports are about the board. -/
theorem not_chunk_of_reportItem {device : Device} {value : Bytes} {item : Item}
    (h : reportItem? device value = some item) : item.kind ≠ .chunk := by
  cases device <;> cases h <;> nofun

variable [Peripherals β]

theorem driven_drive (s : Station β) (connected : Channel → Bool) (device : Device)
    (value : Bytes) :
    Driven s (s.drive connected device value).2 ∧
      ∀ e, (s.drive connected device value).1 = some e → ¬ e.IsEncode := by
  unfold drive
  generalize Peripherals.execute s.board device value = executed
  obtain ⟨result, board⟩ := executed
  have hboard : Driven s { s with board } := { Driven.refl s with }
  cases result with
  | error e =>
    refine ⟨hboard, fun e' h => ?_⟩
    cases h
    exact id
  | ok _ =>
    dsimp only
    split
    · rename_i item hitem
      have hkind := not_chunk_of_reportItem hitem
      exact ⟨hboard.trans (driven_notify { s with board } connected hkind), nofun⟩
    · exact ⟨hboard, nofun⟩

/-- **An action sends nothing to a peer**, and no command of it is refused for its parameters. -/
theorem driven_execute (s : Station β) (connected : Channel → Bool) (device : Device)
    (value : Bytes) :
    Driven s (s.execute connected device value).2 ∧
      ∀ e, (s.execute connected device value).1 = some e → ¬ e.IsEncode := by
  unfold execute
  split
  · have hidentity : (⟨.identity, none⟩ : Item).kind ≠ .chunk := nofun
    refine ⟨(driven_notify s connected hidentity).trans ?_, nofun⟩
    exact driven_notify { s with node := s.node.notify connected ⟨.identity, none⟩ } connected nofun
  · split
    · exact driven_triggerConnection ..
    · exact ⟨.refl s, nofun⟩
  · split
    · exact driven_drive ..
    · exact ⟨.refl s, nofun⟩

theorem driven_executeAll (s : Station β) (connected : Channel → Bool)
    (calls : List (Device × Bytes)) :
    Driven s (s.executeAll connected calls).2 ∧
      ∀ e, (s.executeAll connected calls).1 = some e → ¬ e.IsEncode := by
  induction calls generalizing s with
  | nil => exact ⟨.refl s, nofun⟩
  | cons call rest ih =>
    have hfirst := s.driven_execute connected call.1 call.2
    have hrest := ih (s.execute connected call.1 call.2).2
    refine ⟨hfirst.1.trans hrest.1, fun e h => ?_⟩
    rcases Option.or_eq_some_iff.mp h with h | ⟨-, h⟩
    · exact hfirst.2 e h
    · exact hrest.2 e h

end Station

theorem ofBody_of_le {kind : Kind} {body : Bytes} (h : body.length ≤ Message.maxBody)
    (last : Bool) : Built.ofBody kind body last = .packet (Message.packet kind body) last := by
  have hheld : Buffer.ofBytes? body = some (⟨body, h⟩ : Buffer 30) := Buffer.ofBytes?_of_le h
  simp only [Built.ofBody, Message.ofBody, hheld, Message.toBytes]

/-! ## Ticks -/

/-- What a station keeps for a channel. -/
structure Lane where
  queue : Queue
  outstanding : Option Outstanding
  settings : RetrySettings
  connected : Bool

namespace Station

variable {β : Type}

def lane (s : Station β) (c : Channel) : Lane :=
  ⟨s.node.queues.get c, s.node.transport.outstanding c, s.node.transport.settings,
    s.node.isConnected c⟩

/-- Sending changes a wire alone. -/
theorem transmit_eq (s : Station β) (c : Channel) (payload : Bytes) :
    ∃ radioWire usbWire, s.transmit c payload = { s with radioWire, usbWire } := by
  unfold transmit
  cases c with
  | usb =>
    dsimp only
    split
    · exact ⟨_, _, rfl⟩
    · exact ⟨_, _, rfl⟩
  | bluetooth => exact ⟨_, _, rfl⟩

theorem transmit?_eq (s : Station β) (c : Channel) (payload : Option Bytes) :
    ∃ radioWire usbWire, s.transmit? c payload = { s with radioWire, usbWire } := by
  cases payload with
  | none => exact ⟨_, _, rfl⟩
  | some bytes => exact s.transmit_eq c bytes

variable [Peripherals β]

/-- The packets depend on the program, the board and the radio. -/
theorem packet_congr {s t : Station β} (hradio : t.node.radio = s.node.radio)
    (hmachine : t.node.machine = s.node.machine) (hmemory : t.memory = s.memory)
    (hboard : t.board = s.board) (counters : Bytes) : t.packet counters = s.packet counters := by
  unfold packet identityBody programStateBody
  simp only [hradio, hmachine, hmemory, hboard]

omit [Peripherals β] in
theorem tickTransport_eq (s : Station β) (c : Channel) :
    (s.tickTransport c).1 = (s.node.transport.turn c (s.node.isConnected c)).delivery ∧
      ∃ radioWire usbWire stats, (s.tickTransport c).2 =
        { s with
          node :=
            { s.node with
              transport := s.node.transport.afterTurn c (s.node.isConnected c), stats }
          radioWire, usbWire } := by
  refine ⟨rfl, ?_⟩
  unfold tickTransport
  dsimp only
  obtain ⟨radioWire, usbWire, hsent⟩ := transmit?_eq _ c _
  rw [hsent]
  exact ⟨radioWire, usbWire, _, rfl⟩

omit [Peripherals β] in
theorem tickDispatch_eq (s : Station β) (c : Channel) (source : PacketSource)
    (hconnected : s.node.isConnected c = true) :
    (s.tickDispatch c source).1 =
        (dispatch source c (s.node.queues.get c) s.node.transport).dispatched ∧
      ∃ radioWire usbWire, (s.tickDispatch c source).2 =
        { s with
          node :=
            { s.node with
              queues := s.node.queues.set c
                (dispatch source c (s.node.queues.get c) s.node.transport).queue
              transport := (dispatch source c (s.node.queues.get c) s.node.transport).transport }
          radioWire, usbWire } := by
  unfold tickDispatch
  rw [if_pos hconnected]
  refine ⟨rfl, ?_⟩
  dsimp only
  obtain ⟨radioWire, usbWire, hsent⟩ := transmit?_eq _ c _
  rw [hsent]
  exact ⟨radioWire, usbWire, rfl⟩

omit [Peripherals β] in
theorem tickDispatch_of_disconnected (s : Station β) (c : Channel) (source : PacketSource)
    (hconnected : s.node.isConnected c = false) : s.tickDispatch c source = (.idle, s) := by
  rw [tickDispatch, if_neg (Bool.not_eq_true _ ▸ hconnected)]

end Station

/-- Dispatch on one channel leaves the others alone. -/
theorem dispatch_frame (source : PacketSource) (c : Channel) (q : Queue) (t : Transport) :
    (dispatch source c q t).transport.settings = t.settings ∧
      ∀ d, d ≠ c → (dispatch source c q t).transport.outstanding d = t.outstanding d := by
  have hcases := dispatch_cases source c q t
  generalize dispatch source c q t = step at hcases
  cases hcases with
  | sent => exact ⟨rfl, fun d hd => Transport.outstanding_withSlot_of_ne t _ hd⟩
  | _ => exact ⟨rfl, fun _ _ => rfl⟩

/-- One tick on the message that is outstanding. -/
def Lane.turn (l : Lane) : RoomControl.Turn :=
  match l.outstanding with
  | none => {}
  | some o => o.turn l.settings l.connected

namespace Station

variable {β : Type} [Peripherals β]

/-- The channels have their turns independently. -/
theorem lane_tickChannel_of_ne (s : Station β) (counters : Bytes) (extensions : PacketSource)
    {c d : Channel} (h : d ≠ c) :
    (s.tickChannel counters extensions c).2.lane d = s.lane d := by
  obtain ⟨-, radioWire, usbWire, stats, hwait⟩ := s.tickTransport_eq c
  have hslot := Transport.outstanding_withSlot_of_ne s.node.transport
    (s.node.transport.turn c (s.node.isConnected c)).slot h
  unfold tickChannel
  dsimp only
  rw [hwait]
  generalize hu : ({ s with node := _, radioWire := _, usbWire := _ } : Station β) = u
  generalize (u.packet counters).orElse extensions = source
  have hlane : u.lane d = s.lane d := by
    subst hu
    simp only [lane, Transport.afterTurn, hslot]
    cases d <;> rfl
  rw [← hlane]
  cases hconnected : u.node.isConnected c with
  | false => rw [tickDispatch_of_disconnected u c source hconnected]
  | true =>
    obtain ⟨-, radioWire, usbWire, hsend⟩ := u.tickDispatch_eq c source hconnected
    have hframe := dispatch_frame source c (u.node.queues.get c) u.node.transport
    rw [hsend]
    simp only [lane, hframe.1, hframe.2 d h, PerChannel.get_set_of_ne _ _ h]
    cases d <;> rfl

/-- The turn of a channel whose peer can be reached: what is outstanding waits for its echo, and
then a step of dispatch takes its packet from `source`. -/
structure Turned (before : Lane) (c : Channel) (source : PacketSource) (delivery : Option Delivery)
    (dispatched : Dispatched) (after : Lane) : Prop where
  delivery_eq : delivery = before.turn.delivery
  step : ∃ t step, t.outstanding c = before.turn.slot ∧ t.settings = before.settings ∧
    DispatchCase source c before.queue t step ∧ dispatched = step.dispatched ∧
    after = ⟨step.queue, step.transport.outstanding c, before.settings, true⟩

theorem turned_tickChannel (s : Station β) (counters : Bytes) (extensions : PacketSource)
    (c : Channel) (hconnected : s.node.isConnected c = true) :
    Turned (s.lane c) c ((s.packet counters).orElse extensions)
      (s.tickChannel counters extensions c).1.1 (s.tickChannel counters extensions c).1.2
      ((s.tickChannel counters extensions c).2.lane c) := by
  have hturn : s.node.transport.turn c (s.node.isConnected c) = (s.lane c).turn := rfl
  obtain ⟨hdelivery, radioWire, usbWire, stats, hwait⟩ := s.tickTransport_eq c
  unfold tickChannel
  dsimp only
  rw [hdelivery, hwait, hturn]
  generalize hu : ({ s with node := _, radioWire := _, usbWire := _ } : Station β) = u
  have hpacket : u.packet counters = s.packet counters := by
    subst hu
    exact packet_congr rfl rfl rfl rfl counters
  have hreach : u.node.isConnected c = true := by
    subst hu
    cases c <;> exact hconnected
  have hslot : u.node.transport.outstanding c = (s.lane c).turn.slot := by
    subst hu
    rw [← hturn]
    exact Transport.outstanding_withSlot_self ..
  have hsettings : u.node.transport.settings = (s.lane c).settings := by
    subst hu
    rfl
  have hqueue : u.node.queues.get c = (s.lane c).queue := by
    subst hu
    rfl
  rw [hpacket]
  obtain ⟨hdispatched, radioWire, usbWire, hsend⟩ :=
    u.tickDispatch_eq c ((s.packet counters).orElse extensions) hreach
  refine ⟨rfl, u.node.transport, _, hslot, hsettings, dispatch_cases _ c _ _, ?_, ?_⟩
  · rw [hdispatched, hqueue]
  · have hframe := dispatch_frame ((s.packet counters).orElse extensions) c
      (u.node.queues.get c) u.node.transport
    rw [hsend, lane]
    dsimp only
    rw [PerChannel.get_set_self, hframe.1, hsettings, hqueue]
    cases c <;> exact congrArg _ hreach

/-- The turn of a channel concerns neither the board nor the USB reader. -/
theorem frame_tickChannel (s : Station β) (counters : Bytes) (extensions : PacketSource)
    (c : Channel) :
    (s.tickChannel counters extensions c).2.board = s.board ∧
      (s.tickChannel counters extensions c).2.node.usb = s.node.usb ∧
      (s.tickChannel counters extensions c).2.node.usbActive = s.node.usbActive := by
  obtain ⟨-, radioWire, usbWire, stats, hwait⟩ := s.tickTransport_eq c
  unfold tickChannel
  dsimp only
  rw [hwait]
  generalize hu : ({ s with node := _, radioWire := _, usbWire := _ } : Station β) = u
  have hkept : u.board = s.board ∧ u.node.usb = s.node.usb ∧
      u.node.usbActive = s.node.usbActive := by
    subst hu
    exact ⟨rfl, rfl, rfl⟩
  rw [← hkept.1, ← hkept.2.1, ← hkept.2.2]
  cases hconnected : u.node.isConnected c with
  | false =>
    rw [tickDispatch_of_disconnected u c _ hconnected]
    exact ⟨rfl, rfl, rfl⟩
  | true =>
    obtain ⟨-, radioWire, usbWire, hsend⟩ := u.tickDispatch_eq c _ hconnected
    rw [hsend]
    exact ⟨rfl, rfl, rfl⟩

theorem memory_tickChannel (s : Station β) (counters : Bytes) (extensions : PacketSource)
    (c : Channel) : (s.tickChannel counters extensions c).2.memory = s.memory :=
  congrArg Programming.memory (programming_tickChannel s counters extensions c)

omit [Peripherals β] in
theorem lane_tickRadio (s : Station β) (c : Channel) : s.tickRadio.2.lane c = s.lane c := by
  have hpeer := (s.node.radio.quiet_tick s.radioWire).1.peer?_eq
  cases c with
  | usb => rfl
  | bluetooth =>
    show Lane.mk _ _ _ (Option.isSome _) = Lane.mk _ _ _ (Option.isSome _)
    exact congrArg (fun peer? => Lane.mk _ _ _ (Option.isSome peer?)) hpeer

/-- **On a tick every channel has its turn**, over the board and the memory as they were. -/
theorem turned_tick (s : Station β) (inputs : Vector UInt8 3) (extensions : PacketSource)
    (c : Channel) (hconnected : s.node.isConnected c = true) :
    ∃ (u : Station β) (counters : Bytes), u.board = s.board ∧ u.memory = s.memory ∧
      Turned (s.lane c) c ((u.packet counters).orElse extensions)
        ((s.tick inputs extensions).1.deliveries.get c)
        ((s.tick inputs extensions).1.dispatched.get c) ((s.beforeProgram extensions).lane c) := by
  have hlane := s.lane_tickRadio c
  have hreach : s.tickRadio.2.node.isConnected c = true :=
    (congrArg Lane.connected hlane).trans hconnected
  let counters := s.tickRadio.2.node.debugCounters
  cases c with
  | usb =>
    refine ⟨s.tickRadio.2, counters, rfl, rfl, ?_⟩
    have hturned := s.tickRadio.2.turned_tickChannel counters extensions .usb hreach
    rw [hlane] at hturned
    have hother : Channel.usb ≠ .bluetooth := by decide
    rw [beforeProgram, lane_tickChannel_of_ne _ _ _ hother]
    exact hturned
  | bluetooth =>
    let u := (s.tickRadio.2.tickChannel counters extensions .usb).2
    have hother : u.lane .bluetooth = s.lane .bluetooth :=
      (lane_tickChannel_of_ne _ _ _ (by decide)).trans hlane
    refine ⟨u, counters, (frame_tickChannel ..).1, memory_tickChannel .., ?_⟩
    have hturned := u.turned_tickChannel counters extensions .bluetooth
      ((congrArg Lane.connected hother).trans hconnected)
    rw [hother] at hturned
    exact hturned

theorem frame_beforeProgram (s : Station β) (extensions : PacketSource) :
    (s.beforeProgram extensions).board = s.board ∧
      (s.beforeProgram extensions).node.usb = s.node.usb ∧
      (s.beforeProgram extensions).node.usbActive = s.node.usbActive := by
  have husb := s.tickRadio.2.frame_tickChannel s.tickRadio.2.node.debugCounters extensions .usb
  have hbluetooth := (s.tickRadio.2.tickChannel s.tickRadio.2.node.debugCounters extensions
    .usb).2.frame_tickChannel s.tickRadio.2.node.debugCounters extensions .bluetooth
  exact ⟨hbluetooth.1.trans husb.1, hbluetooth.2.1.trans husb.2.1, hbluetooth.2.2.trans husb.2.2⟩

end Station

end RoomControl
