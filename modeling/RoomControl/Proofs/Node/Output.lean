import RoomControl.Proofs.Message.Encoding
import RoomControl.Proofs.Node.Lanes

/-!
# What a station writes

On the USB wire a station writes frames of one opcode, each with a message that a peer accepts. On
the radio wire it writes commands, and data only to a peer that it has at that moment.
`writes_well_formed` says so of every run, over any board, whatever becomes of the packets, and
although the memory may hold anything at any time. No packet fails to be committed in it and no
command fails to fit a frame.

The argument follows the payloads. A packet that the node builds is accepted by a peer, so whatever
is outstanding is, and so is whatever is sent again; the only other data are echoes. The kinds that
a board adds are not the subject here.
-/

set_option autoImplicit false

namespace RoomControl

/-! ## Well-formed packets -/

/-- A peer that receives these bytes reads a message from them. -/
def Message.Accepted (bytes : Bytes) : Prop := ∃ m, decode bytes = .ok m

namespace Message

theorem accepted_packet (kind : Kind) {body : Bytes} (h : body.length ≤ maxBody) :
    Accepted (packet kind body) := by
  obtain ⟨m, hm⟩ := exists_ofBody (.ofTag kind.tag) h
  exact ⟨m, (decode_packet kind body).trans hm⟩

theorem length_le_of_accepted {bytes : Bytes} (h : Accepted bytes) :
    2 ≤ bytes.length ∧ bytes.length ≤ maxSize := by
  obtain ⟨hheader, hsize, -⟩ := exists_decode_iff.mp h
  exact ⟨hheader, hsize⟩

end Message

def UsbPacket (packet : Bytes) : Prop :=
  ∃ f : Frame, packet = f.toBytes ∧ f.opcode = Response.dataOpcode ∧
    Message.Accepted f.payload.bytes

/-- The packet is that of a command, and if the command carries data then it is a message for a
handle that can be reached. -/
def RadioPacket (Reachable : UInt8 → Prop) (packet : Bytes) : Prop :=
  (∃ c : Command, c.toBytes = .ok packet) ∧
    ∀ handle data, (Command.sendTransparentData handle data).toBytes = .ok packet →
      Reachable handle ∧ Message.Accepted data

theorem RadioPacket.of_control {Reachable : UInt8 → Prop} {packet : Bytes}
    (h : ControlPacket packet) : RadioPacket Reachable packet := by
  obtain ⟨c, hcontrol, hpacket⟩ := h
  exact ⟨⟨c, hpacket⟩, fun handle data hdata =>
    absurd (Command.eq_of_toBytes hpacket hdata) (hcontrol handle data)⟩

theorem RadioPacket.of_data {Reachable : UInt8 → Prop} {handle : UInt8} {data packet : Bytes}
    (hpacket : (Command.sendTransparentData handle data).toBytes = .ok packet)
    (hreach : Reachable handle) (haccepted : Message.Accepted data) :
    RadioPacket Reachable packet := by
  refine ⟨⟨_, hpacket⟩, fun handle' data' hdata => ?_⟩
  cases Command.eq_of_toBytes hpacket hdata
  exact ⟨hreach, haccepted⟩

theorem RadioPacket.mono {P Q : UInt8 → Prop} (weaker : ∀ handle, P handle → Q handle)
    {packet : Bytes} (h : RadioPacket P packet) : RadioPacket Q packet :=
  ⟨h.1, fun handle data hdata => (h.2 handle data hdata).imp_left (weaker handle)⟩

/-- The module is up, and the peer with this handle is connected. -/
def Radio.Reaches (r : Radio) (handle : UInt8) : Prop :=
  r.isReady = true ∧ r.connection = some handle

theorem Radio.reaches_of_peer? {r : Radio} {handle : UInt8} (h : r.peer? = some handle) :
    r.Reaches handle := by
  unfold peer? at h
  split at h
  · rename_i hready
    exact ⟨hready, h⟩
  · cases h

theorem Radio.Quiet.reaches_eq {r r' : Radio} {wire wire' : Wire} (h : Quiet r wire r' wire') :
    r'.Reaches = r.Reaches := by
  funext handle
  rw [Reaches, Reaches, h.ready, h.connection]

/-! ## Outstanding messages -/

/-- Whatever is outstanding is a message that a peer accepts. -/
def Transport.HoldsAccepted (t : Transport) : Prop :=
  ∀ c o, t.outstanding c = some o → Message.Accepted o.payload.bytes

theorem Transport.Retains.holdsAccepted {t t' : Transport} (h : t.Retains t')
    (ht : t.HoldsAccepted) : t'.HoldsAccepted := by
  intro c o' ho'
  obtain ⟨o, ho, hsame⟩ := h.2 c o' ho'
  rw [hsame]
  exact ht c o ho

theorem accepted_of_ofBody {kind : Kind} {body bytes : Bytes} {last last' : Bool}
    (h : Built.ofBody kind body last = .packet bytes last') : Message.Accepted bytes := by
  unfold Built.ofBody at h
  split at h
  · rename_i m _
    cases h
    exact Message.accepted_packet m.kind m.body.fits
  · cases h

namespace Station

variable {β : Type} [Peripherals β] {s : Station β} {counters bytes : Bytes} {item : Item}
  {cursor : Nat} {last : Bool}

/-- **Every packet that the node builds is a message.** -/
theorem accepted_of_packet (h : s.packet counters item cursor = .packet bytes last) :
    Message.Accepted bytes := by
  unfold packet at h
  dsimp only at h
  repeat' split at h
  all_goals first
    | exact accepted_of_ofBody h
    | cases h

theorem accepted_of_orElse_none
    (h : ((s.packet counters).orElse .none) item cursor = .packet bytes last) :
    Message.Accepted bytes := by
  unfold PacketSource.orElse at h
  split at h
  · cases h
  · exact accepted_of_packet h

end Station

/-! ## Emissions -/

namespace Station

variable {β : Type}

/-- Between two states a station wrote only well-formed packets; the peer stays as it was, and what
is outstanding can be sent again. -/
structure Emits (s t : Station β) : Prop where
  peer : t.node.radio.Reaches = s.node.radio.Reaches
  usb : s.usbWire.Gains UsbPacket t.usbWire
  radio : s.radioWire.Gains (RadioPacket s.node.radio.Reaches) t.radioWire
  outstanding : t.node.transport.HoldsAccepted

theorem Emits.trans {s t u : Station β} (first : Emits s t) (second : Emits t u) : Emits s u := by
  refine ⟨second.peer.trans first.peer, first.usb.trans second.usb, first.radio.trans ?_,
    second.outstanding⟩
  rw [← first.peer]
  exact second.radio

theorem emits_of_inside {s t : Station β} (h : Inside s t)
    (hs : s.node.transport.HoldsAccepted) : Emits s t := by
  refine ⟨by rw [h.radio], ?_, ?_, h.transport.holdsAccepted hs⟩
  · rw [h.usbWire]
    exact .refl _ _
  · rw [h.radioWire]
    exact .refl _ _

theorem emits_of_driven {s t : Station β} (h : Driven s t)
    (hs : s.node.transport.HoldsAccepted) : Emits s t := by
  refine ⟨h.radio.reaches_eq, ?_, h.radio.writes.mono fun _ => .of_control, ?_⟩
  · rw [h.usbWire]
    exact .refl _ _
  · rw [h.transport]
    exact hs

/-- **A message goes out well-formed**, and on the radio only to the peer. -/
theorem emits_transmit {s : Station β} (hs : s.node.transport.HoldsAccepted) (c : Channel)
    {payload : Bytes} (h : Message.Accepted payload) : Emits s (s.transmit c payload) := by
  have hmax := (Message.length_le_of_accepted h).2
  cases c with
  | usb =>
    unfold transmit
    dsimp only
    split
    · rename_i frame hframe
      obtain ⟨hopcode, hpayload⟩ := Frame.ofPayload_eq_ok_iff.mp hframe
      have hpacket : UsbPacket frame.toBytes := by
        refine ⟨frame, rfl, hopcode, ?_⟩
        rw [hpayload]
        exact h
      exact ⟨rfl, Wire.gains_send _ hpacket, .refl _ _, hs⟩
    · exact ⟨rfl, .refl _ _, .refl _ _, hs⟩
  | bluetooth =>
    refine ⟨rfl, .refl _ _, ?_, hs⟩
    show s.radioWire.Gains _ (s.node.radio.sendData s.radioWire payload).2
    unfold Radio.sendData
    split
    · exact .refl _ _
    · rename_i handle hpeer
      obtain ⟨packet, hpacket⟩ : (Command.sendTransparentData handle payload).Encodes :=
        Command.encodes_data handle (Nat.lt_of_le_of_lt hmax (by decide))
      have hgains : s.radioWire.Gains (RadioPacket s.node.radio.Reaches)
          ((Command.sendTransparentData handle payload).write s.radioWire).2 := by
        simp only [Command.write, hpacket]
        exact Wire.gains_send _ (.of_data hpacket (Radio.reaches_of_peer? hpeer) h)
      generalize (Command.sendTransparentData handle payload).write s.radioWire = written at hgains
      obtain ⟨result, wire⟩ := written
      cases result with
      | ok _ => exact hgains
      | error e => exact hgains

theorem emits_transmit? {s : Station β} (hs : s.node.transport.HoldsAccepted) (c : Channel)
    {payload? : Option Bytes} (h : ∀ payload, payload? = some payload → Message.Accepted payload) :
    Emits s (s.transmit? c payload?) := by
  cases payload? with
  | none => exact emits_of_inside (.refl s) hs
  | some payload => exact emits_transmit hs c (h payload rfl)

variable [Peripherals β]

theorem emits_receiveMessage {s : Station β} (hs : s.node.transport.HoldsAccepted) (c : Channel)
    (bytes : Bytes) :
    Emits s (s.receiveMessage c bytes).2 ∧
      ∀ e, (s.receiveMessage c bytes).1 = .error e → ¬ e.IsEncode := by
  have hecho : Emits s (s.transmit c (echoOf bytes)) :=
    emits_transmit hs c (Message.accepted_packet .echo (by simp [Message.maxBody]))
  have hblame : ∀ {answer : Answer β}, (∀ e, answer.1 ≠ .error (.radio e)) →
      ∀ e, answer.1 = .error e → ¬ e.IsEncode := by
    intro answer h e he
    cases e with
    | radio e => exact absurd he (h e)
    | _ => exact id
  have hreceived := s.received_receiveMessage c bytes
  generalize s.receiveMessage c bytes = answer at hreceived
  cases hreceived with
  | unanswered _ hinside hradio => exact ⟨emits_of_inside hinside hs, hblame hradio⟩
  | answered _ hinside hradio =>
    exact ⟨hecho.trans (emits_of_inside hinside hecho.outstanding), hblame hradio⟩
  | @acted device value _ _ hstation herror =>
    have hdriven := (s.transmit c (echoOf bytes)).driven_execute
      (s.transmit c (echoOf bytes)).node.isConnected device value
    rw [hstation]
    exact ⟨hecho.trans (emits_of_driven hdriven.1 hecho.outstanding),
      fun e he => hdriven.2 e (herror e he)⟩

/-! ### Ticks -/

omit [Peripherals β] in
theorem emits_tickTransport {s : Station β} (hs : s.node.transport.HoldsAccepted) (c : Channel) :
    Emits s (s.tickTransport c).2 := by
  have hretains := s.node.transport.retains_afterTurn c (s.node.isConnected c)
  unfold tickTransport
  dsimp only
  generalize hu : ({ s with node := _ } : Station β) = u
  have hinside : Emits s u := by
    subst hu
    exact ⟨rfl, .refl _ _, .refl _ _, hretains.holdsAccepted hs⟩
  refine hinside.trans (emits_transmit? hinside.outstanding c fun payload h => ?_)
  obtain ⟨o, ho, rfl⟩ := Transport.resend_of_turn h
  exact hs c o ho

theorem emits_tickDispatch {s u : Station β} (hs : s.node.transport.HoldsAccepted) (c : Channel)
    (counters : Bytes) :
    Emits s (s.tickDispatch c ((u.packet counters).orElse .none)).2 ∧
      ∀ kind e, (s.tickDispatch c ((u.packet counters).orElse .none)).1 ≠ .failed kind e := by
  unfold tickDispatch
  split
  · have hcases := dispatch_cases ((u.packet counters).orElse .none) c (s.node.queues.get c)
      s.node.transport
    dsimp only
    generalize dispatch ((u.packet counters).orElse .none) c (s.node.queues.get c)
      s.node.transport = step at hcases
    cases hcases with
    | idle => exact ⟨⟨rfl, .refl _ _, .refl _ _, hs⟩, nofun⟩
    | unhandled => exact ⟨⟨rfl, .refl _ _, .refl _ _, hs⟩, nofun⟩
    | skipped => exact ⟨⟨rfl, .refl _ _, .refl _ _, hs⟩, nofun⟩
    | failed _ _ hbuilt =>
      have := (Message.length_le_of_accepted (accepted_of_orElse_none hbuilt)).1
      simp at this
    | @sent item rest bytes last held _ _ hbuilt hheld =>
      have haccepted := accepted_of_orElse_none hbuilt
      rw [List.take_of_length_le (Message.length_le_of_accepted haccepted).2] at hheld
      rw [← hheld] at haccepted
      refine ⟨?_, nofun⟩
      generalize hu : ({ s with node := _ } : Station β) = u
      have hcommitted : Emits s u := by
        subst hu
        refine ⟨rfl, .refl _ _, .refl _ _, fun d o ho => ?_⟩
        by_cases hd : d = c
        · subst hd
          rw [Transport.outstanding_withSlot_self] at ho
          cases ho
          exact haccepted
        · rw [Transport.outstanding_withSlot_of_ne _ _ hd] at ho
          exact hs d o ho
      exact hcommitted.trans (emits_transmit hcommitted.outstanding c haccepted)
  · exact ⟨emits_of_inside (.refl s) hs, nofun⟩

theorem emits_tickChannel {s : Station β} (hs : s.node.transport.HoldsAccepted)
    (counters : Bytes) (c : Channel) :
    Emits s (s.tickChannel counters .none c).2 ∧
      ∀ kind e, (s.tickChannel counters .none c).1.2 ≠ .failed kind e := by
  have hwait := emits_tickTransport hs c
  have hsend := emits_tickDispatch (u := (s.tickTransport c).2) hwait.outstanding c counters
  exact ⟨hwait.trans hsend.1, hsend.2⟩

theorem emits_tick {s : Station β} (hs : s.node.transport.HoldsAccepted)
    (inputs : Vector UInt8 3) :
    Emits s (s.tick inputs .none).2 ∧
      (∀ e, (s.tick inputs .none).1.radio = .error e → ¬ e.IsEncode) ∧
      (∀ e, (s.tick inputs .none).1.actionError = some e → ¬ e.IsEncode) ∧
      ∀ kind e, .failed kind e ∉ (s.tick inputs .none).1.dispatched.toList := by
  have hradio := s.node.radio.quiet_tick s.radioWire
  have hfirst : Emits s s.tickRadio.2 :=
    emits_of_driven ⟨hradio.1, rfl, rfl, rfl, rfl, fun _ => .refl _⟩ hs
  have husb := emits_tickChannel hfirst.outstanding s.tickRadio.2.node.debugCounters .usb
  have hbluetooth :=
    emits_tickChannel husb.1.outstanding s.tickRadio.2.node.debugCounters .bluetooth
  have hbefore : Emits s (s.beforeProgram .none) := hfirst.trans (husb.1.trans hbluetooth.1)
  have hprogram : Emits (s.beforeProgram .none) ((s.beforeProgram .none).tickProgram inputs).2.2 ∧
      ∀ e, ((s.beforeProgram .none).tickProgram inputs).2.1 = some e → ¬ e.IsEncode := by
    generalize s.beforeProgram .none = t at hbefore
    unfold tickProgram
    split
    · dsimp only
      split
      · exact ⟨⟨rfl, .refl _ _, .refl _ _, hbefore.outstanding⟩, nofun⟩
      · unfold checkProgram
        dsimp only
        generalize hu : ({ t with node := _, memory := _ } : Station β) = u
        have hchecked : Emits t u := by
          subst hu
          exact ⟨rfl, .refl _ _, .refl _ _, hbefore.outstanding⟩
        have hdriven := u.driven_executeAll t.node.isConnected
          (t.node.machine.check t.memory (t.ports inputs)).calls
        exact ⟨hchecked.trans (emits_of_driven hdriven.1 hchecked.outstanding), hdriven.2⟩
    · exact ⟨⟨rfl, .refl _ _, .refl _ _, hbefore.outstanding⟩, nofun⟩
  refine ⟨hbefore.trans hprogram.1, hradio.2, hprogram.2, fun kind e hmem => ?_⟩
  rcases List.mem_cons.mp hmem with h | h
  · exact husb.2 kind e h.symm
  · exact hbluetooth.2 kind e (List.mem_singleton.mp h).symm

end Station

/-! ## Calls and runs -/

/-- A call of the node. No board adds kinds of its own. -/
inductive Call where
  | start
  | radio (byte : UInt8)
  | usb (byte : UInt8)
  | usbActive (active : Bool)
  | tick (inputs : Vector UInt8 3)

/-- A call, and the memory and the board that it finds. -/
structure Occasion (β : Type) where
  call : Call
  memory : ProgramMemory
  board : β

/-- What a call reports of failures and of packets. -/
structure Reply where
  errors : List NodeError := []
  dispatched : List Dispatched := []

/-- The error of a result, if it is one. -/
def errorIn {ε α : Type} : Except ε α → List ε
  | .error e => [e]
  | .ok _ => []

theorem mem_errorIn {ε α : Type} {result : Except ε α} {e : ε} :
    e ∈ errorIn result ↔ result = .error e := by
  cases result with
  | error cause => simp [errorIn, eq_comm]
  | ok a => simp [errorIn]

namespace Station

variable {β : Type} [Peripherals β]

/-- The reply to a call, and the station after it. -/
def answer (s : Station β) : Call → Reply × Station β
  | .start => ({ errors := (errorIn s.start.1).map .program }, s.start.2)
  | .radio byte => ({ errors := errorIn (s.receiveRadio byte).1 }, (s.receiveRadio byte).2)
  | .usb byte => ({ errors := errorIn (s.receiveUsb byte).1 }, (s.receiveUsb byte).2)
  | .usbActive active => ({}, s.withNode (s.node.setUsbActive active))
  | .tick inputs =>
    let (report, next) := s.tick inputs .none
    ({ errors := (errorIn report.radio).map .radio ++ report.actionError.toList
       dispatched := report.dispatched.toList }, next)

/-- What happens on an occasion. -/
def respond (s : Station β) (o : Occasion β) : Reply × Station β :=
  { s with memory := o.memory, board := o.board }.answer o.call

/-- The station after a run. -/
def through (s : Station β) (run : List (Occasion β)) : Station β :=
  run.foldl (fun s o => (s.respond o).2) s

/-- A call is well-behaved: what it writes is well-formed, data goes to the peer that is there
before and after the call, and no packet or command fails for its size. -/
structure Tidy (s : Station β) (reply : Reply) (t : Station β) : Prop where
  usb : s.usbWire.Gains UsbPacket t.usbWire
  radio : s.radioWire.Gains
    (RadioPacket fun handle => s.node.radio.Reaches handle ∧ t.node.radio.Reaches handle)
    t.radioWire
  encoded : ∀ e ∈ reply.errors, ¬ e.IsEncode
  committed : ∀ kind e, .failed kind e ∉ reply.dispatched

omit [Peripherals β] in
theorem Emits.tidy {s t : Station β} (h : Emits s t) {reply : Reply}
    (encoded : ∀ e ∈ reply.errors, ¬ e.IsEncode)
    (committed : ∀ kind e, .failed kind e ∉ reply.dispatched) : Tidy s reply t := by
  refine ⟨h.usb, h.radio.mono fun _ hpacket => hpacket.mono fun handle hreach => ⟨hreach, ?_⟩,
    encoded, committed⟩
  rw [h.peer]
  exact hreach

theorem tidy_receiveRadio {s : Station β} (hs : s.node.transport.HoldsAccepted) (byte : UInt8) :
    Tidy s { errors := errorIn (s.receiveRadio byte).1 } (s.receiveRadio byte).2 ∧
      (s.receiveRadio byte).2.node.transport.HoldsAccepted := by
  have hheard := s.node.radio.heard_receive s.radioWire byte
  unfold receiveRadio
  dsimp only
  generalize s.node.radio.receive s.radioWire byte = step at hheard
  cases hheard with
  | @data bytes line =>
    -- data of the peer is a message, and the radio stays as it was
    let u : Station β := { s with node := { s.node with radio := { s.node.radio with line } } }
    have hline : Emits s u := ⟨rfl, .refl _ _, .refl _ _, hs⟩
    have hmessage := emits_receiveMessage hline.outstanding .bluetooth bytes.bytes
    have hemits := hline.trans hmessage.1
    exact ⟨hemits.tidy (fun e he => hmessage.2 e (mem_errorIn.mp he)) (fun _ _ => List.not_mem_nil),
      hemits.outstanding⟩
  | other hnodata _ hwrites hfits =>
    have htidy : ∀ (reply : Reply) (node : Node), (∀ e ∈ reply.errors, ¬ e.IsEncode) →
        reply.dispatched = [] →
        Tidy s reply { s with node, radioWire := step.wire } := by
      intro reply node hencoded hnone
      refine ⟨.refl _ _, hwrites.mono fun _ => .of_control, hencoded, fun kind e => ?_⟩
      rw [hnone]
      exact List.not_mem_nil
    obtain ⟨result, radio, wire⟩ := step
    match result with
    | .ok none => exact ⟨htidy _ _ (fun e he => absurd he List.not_mem_nil) rfl, hs⟩
    | .ok (some event) =>
      cases event with
      | data bytes => exact absurd rfl (hnodata bytes)
      | disconnected =>
        exact ⟨htidy _ _ (fun e he => absurd he List.not_mem_nil) rfl,
          (Transport.retains_cancel _ _).holdsAccepted hs⟩
      | _ => exact ⟨htidy _ _ (fun e he => absurd he List.not_mem_nil) rfl, hs⟩
    | .error e =>
      have hblame : ∀ e' ∈ [NodeError.radio e], ¬ e'.IsEncode := by
        intro e' he
        cases List.mem_singleton.mp he
        exact hfits e rfl
      cases e with
      | _ => exact ⟨htidy _ _ hblame rfl, hs⟩

theorem tidy_receiveUsb {s : Station β} (hs : s.node.transport.HoldsAccepted) (byte : UInt8) :
    Tidy s { errors := errorIn (s.receiveUsb byte).1 } (s.receiveUsb byte).2 ∧
      (s.receiveUsb byte).2.node.transport.HoldsAccepted := by
  have hquiet : ∀ (reply : Reply) (node : Node), node.radio = s.node.radio →
      node.transport = s.node.transport → (∀ e ∈ reply.errors, ¬ e.IsEncode) →
      reply.dispatched = [] →
      Tidy s reply (s.withNode node) ∧ (s.withNode node).node.transport.HoldsAccepted := by
    intro reply node hradio htransport hencoded hnone
    have hholds : (s.withNode node).node.transport.HoldsAccepted := by
      show node.transport.HoldsAccepted
      rw [htransport]
      exact hs
    have hemits : Emits s (s.withNode node) :=
      ⟨congrArg Radio.Reaches hradio, .refl _ _, .refl _ _, hholds⟩
    refine ⟨hemits.tidy hencoded fun kind e => ?_, hholds⟩
    rw [hnone]
    exact List.not_mem_nil
  unfold receiveUsb
  dsimp only
  split
  · exact hquiet _ _ rfl rfl (fun e he => absurd he List.not_mem_nil) rfl
  · refine hquiet _ _ rfl rfl (fun e he => ?_) rfl
    cases List.mem_singleton.mp he
    exact id
  · rename_i frame _
    split
    · let u := s.withNode { s.node with usb := (s.node.usb.feed byte).2, usbActive := true }
      have hheard : Emits s u := ⟨rfl, .refl _ _, .refl _ _, hs⟩
      have hmessage := emits_receiveMessage hheard.outstanding .usb frame.payload.bytes
      have hemits := hheard.trans hmessage.1
      exact ⟨hemits.tidy (fun e he => hmessage.2 e (mem_errorIn.mp he))
        (fun _ _ => List.not_mem_nil), hemits.outstanding⟩
    · exact hquiet _ _ rfl rfl (fun e he => absurd he List.not_mem_nil) rfl

/-- **Every call is well-behaved**, and what it leaves outstanding can be sent again. -/
theorem tidy_respond {s : Station β} (hs : s.node.transport.HoldsAccepted) (o : Occasion β) :
    Tidy s (s.respond o).1 (s.respond o).2 ∧ (s.respond o).2.node.transport.HoldsAccepted := by
  obtain ⟨call, memory, board⟩ := o
  -- the memory and the board at hand are not written and not sent to
  let u : Station β := { s with memory, board }
  have hu : u.node.transport.HoldsAccepted := hs
  have hsame : ∀ (reply : Reply) (t : Station β), Tidy u reply t → Tidy s reply t :=
    fun reply t h => ⟨h.usb, h.radio, h.encoded, h.committed⟩
  have hresult : Tidy u (u.answer call).1 (u.answer call).2 ∧
      (u.answer call).2.node.transport.HoldsAccepted := by
    cases call with
    | start =>
      refine ⟨⟨.refl _ _, .refl _ _, fun e he => ?_, fun _ _ => List.not_mem_nil⟩, hu⟩
      obtain ⟨cause, -, rfl⟩ := List.mem_map.mp he
      exact id
    | radio byte => exact tidy_receiveRadio hu byte
    | usb byte => exact tidy_receiveUsb hu byte
    | usbActive active =>
      cases active with
      | true => exact ⟨⟨.refl _ _, .refl _ _, fun _ h => absurd h List.not_mem_nil,
          fun _ _ => List.not_mem_nil⟩, hu⟩
      | false => exact ⟨⟨.refl _ _, .refl _ _, fun _ h => absurd h List.not_mem_nil,
          fun _ _ => List.not_mem_nil⟩, (Transport.retains_cancel _ _).holdsAccepted hu⟩
    | tick inputs =>
      obtain ⟨hemits, hradio, haction, hcommitted⟩ := emits_tick hu inputs
      refine ⟨hemits.tidy (fun e he => ?_) hcommitted, hemits.outstanding⟩
      rcases List.mem_append.mp he with he | he
      · obtain ⟨cause, hcause, rfl⟩ := List.mem_map.mp he
        exact hradio cause (mem_errorIn.mp hcause)
      · exact haction e (Option.mem_toList.mp he)
  exact ⟨hsame _ _ hresult.1, hresult.2⟩

/-- A station that has written nothing yet. Its wires may do with a packet what they like. -/
def silent (config : NodeConfig) (memory : ProgramMemory) (board : β)
    (radioFate usbFate : Nat → Fate) : Station β :=
  { node := .ofConfig config
    radioWire := { fate := radioFate }
    usbWire := { fate := usbFate }
    memory, board }

/-- The commands that the node comes to write: those of bring-up, those that it wants of the module,
and messages. -/
inductive MayWrite (n : Node) : Command → Prop
  | reset : MayWrite n .reset
  | stage (stage : Stage) : MayWrite n (stage.command n.radio.bringup.settings)
  | app (c : AppCommand) : MayWrite n c.toCommand
  | data {handle : UInt8} {data : Bytes} : Message.Accepted data →
      MayWrite n (.sendTransparentData handle data)

theorem encodes_of_mayWrite {n : Node} {c : Command} (h : MayWrite n c) : c.Encodes := by
  cases h with
  | reset => exact Command.encodes_reset
  | stage stage => exact Command.encodes_stage _ stage
  | app c => exact Command.encodes_app c
  | data haccepted =>
    exact Command.encodes_data _
      (Nat.lt_of_le_of_lt (Message.length_le_of_accepted haccepted).2 (by decide))

/-- What every occasion keeps, and with it a run. -/
theorem holds_through (run : List (Occasion β)) {s : Station β}
    (hs : s.node.transport.HoldsAccepted) (husb : ∀ packet ∈ s.usbWire.sent, UsbPacket packet)
    (hradio : ∀ packet ∈ s.radioWire.sent, ∃ c : Command, c.toBytes = .ok packet) :
    (s.through run).node.transport.HoldsAccepted ∧
      (∀ packet ∈ (s.through run).usbWire.sent, UsbPacket packet) ∧
      ∀ packet ∈ (s.through run).radioWire.sent, ∃ c : Command, c.toBytes = .ok packet := by
  induction run generalizing s with
  | nil => exact ⟨hs, husb, hradio⟩
  | cons o rest ih =>
    obtain ⟨htidy, hholds⟩ := tidy_respond hs o
    exact ih hholds (htidy.usb.all_sent husb)
      ((htidy.radio.mono fun _ hpacket => hpacket.1).all_sent hradio)

/-- **A station writes well-formed packets in every run.** All of the USB wire is messages in
frames, all of the radio wire is commands, and the next call, whatever it is, writes data only to
the peer, and fails for the size of no packet and of no command. Nor is there a command to write
that does not fit, where the failure would go unreported. -/
theorem writes_well_formed (config : NodeConfig) (memory : ProgramMemory) (board : β)
    (radioFate usbFate : Nat → Fate) (run : List (Occasion β)) :
    let s := (silent config memory board radioFate usbFate).through run
    (∀ packet ∈ s.usbWire.sent, UsbPacket packet) ∧
      (∀ packet ∈ s.radioWire.sent, ∃ c : Command, c.toBytes = .ok packet) ∧
      (∀ o : Occasion β, Tidy s (s.respond o).1 (s.respond o).2) ∧
      ∀ c, MayWrite s.node c → c.Encodes := by
  have hfree : (silent config memory board radioFate usbFate).node.transport.HoldsAccepted := by
    intro c o ho
    cases c <;> cases ho
  obtain ⟨hholds, husb, hradio⟩ := holds_through run hfree
    (fun _ h => absurd h List.not_mem_nil) (fun _ h => absurd h List.not_mem_nil)
  exact ⟨husb, hradio, fun o => (tidy_respond hholds o).1, fun _ => encodes_of_mayWrite⟩

end Station

end RoomControl
