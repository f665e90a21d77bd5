import RoomControl.Proofs.Node.Inbound
import RoomControl.Proofs.Node.Leftovers

/-!
# Which messages are echoed

A message other than an echo is to be answered with an echo, in front of everything else that it
leads to. On USB that is so. On Bluetooth a message is taken as soon as a peer is connected, but data
go out only when bring-up is complete as well: a message that comes in between is carried out and not
echoed (`echoed_iff_ready`, `upload_begins_unechoed`).

Beside the echo a message has at most commands written to the radio module, and those when it asks
for the node to be shown or hidden (`Orders`).
-/

set_option autoImplicit false

namespace RoomControl

theorem Wire.sent_send {w : Wire} (delivered : w.fate w.tried = .delivered) (packet : Bytes) :
    (w.send packet).2.sent = w.sent ++ [packet] := by
  simp only [send, delivered]

namespace Station

variable {β : Type}

/-- The wire of a channel. -/
def wire (s : Station β) : Channel → Wire
  | .usb => s.usbWire
  | .bluetooth => s.radioWire

/-- The packet is this message, for the peer of a channel. -/
def Conveys (s : Station β) (message packet : Bytes) : Channel → Prop
  | .usb => ∃ f : Frame, f.opcode = Response.dataOpcode ∧ f.payload.bytes = message ∧
      packet = f.toBytes
  | .bluetooth => ∃ handle, s.node.radio.connection = some handle ∧
      (Command.sendTransparentData handle message).toBytes = .ok packet

/-- Between two states one message was written: an echo of these bytes, on the wire of the channel
and in front of everything else there. All else are commands to the radio module. -/
structure Echoes (s t : Station β) (c : Channel) (bytes : Bytes) : Prop where
  own : ∃ packet rest, (t.wire c).sent = (s.wire c).sent ++ packet :: rest ∧
    s.Conveys (echoOf bytes) packet c ∧ ∀ p ∈ rest, c = .bluetooth ∧ ControlPacket p
  other : ∀ d, d ≠ c → (s.wire d).Gains (fun p => d = .bluetooth ∧ ControlPacket p) (t.wire d)

/-- Between two states nothing was written. -/
def Silent (s t : Station β) : Prop := ∀ c, t.wire c = s.wire c

/-! ## What follows the echo -/

/-- Between two states at most commands were written, and none while bring-up is not complete. -/
structure Orders (s t : Station β) : Prop where
  usb : t.usbWire = s.usbWire
  radio : s.radioWire.Gains ControlPacket t.radioWire
  unready : s.node.radio.isReady = false → t.radioWire = s.radioWire

theorem orders_of_inside {s t : Station β} (h : Inside s t) : Orders s t := by
  refine ⟨h.usbWire, ?_, fun _ => h.radioWire⟩
  rw [h.radioWire]
  exact .refl _ _

variable [Peripherals β]

/-- Only a module that is up is shown and hidden. -/
theorem orders_execute (s : Station β) (connected : Channel → Bool) (device : Device)
    (value : Bytes) : Orders s (s.execute connected device value).2 := by
  have driven := (s.driven_execute connected device value).1
  refine ⟨driven.usbWire, driven.radio.writes, fun hunready => ?_⟩
  unfold execute
  split
  · rfl
  · rw [hunready, if_neg Bool.false_ne_true]
  · split
    · unfold drive
      dsimp only
      split
      · rfl
      · split
        · rfl
        · rfl
    · rfl

theorem orders_act (s : Station β) (c : Channel) (body : Bytes) : Orders s (s.act c body).2 := by
  cases body with
  | nil => exact orders_of_inside (.refl s)
  | cons byte value =>
    unfold act
    dsimp only
    split
    · exact orders_of_inside (inside_enterState ..)
    · have horders := s.orders_execute s.node.isConnected (Device.ofByte byte) value
      split
      · rename_i hexec
        rw [hexec] at horders
        exact horders
      · rename_i hexec
        rw [hexec] at horders
        exact horders

/-- **What a message leads to after its echo** sends nothing to a peer. -/
theorem orders_follow (s : Station β) (c : Channel) (m : Message) : Orders s (s.follow c m).2 := by
  unfold follow
  split
  · exact orders_of_inside (inside_answerRequest ..)
  · exact orders_of_inside (inside_beginUpload ..)
  · exact orders_of_inside (inside_takeChunk ..)
  · exact orders_of_inside (inside_enterState ..)
  · exact orders_act ..
  · exact orders_of_inside (.refl s)

/-! ## The echo -/

section Echo

variable {s : Station β} {c : Channel} {bytes : Bytes} {m : Message}

omit [Peripherals β] in
/-- Sending writes one packet, on the wire of the channel. -/
theorem transmit_conveys (delivered : (s.wire c).fate (s.wire c).tried = .delivered)
    (connected : c = .bluetooth → s.node.radio.isConnected = true)
    (ready : c = .usb ∨ s.node.radio.isReady = true) {message : Bytes}
    (hlength : message.length < Frame.maxPayload) :
    (∃ packet, ((s.transmit c message).wire c).sent = (s.wire c).sent ++ [packet] ∧
        s.Conveys message packet c) ∧
      ∀ d, d ≠ c → (s.transmit c message).wire d = s.wire d := by
  cases c with
  | usb =>
    have hframe : Frame.ofPayload Response.dataOpcode message =
        .ok ⟨Response.dataOpcode, ⟨message, Nat.le_of_lt hlength⟩⟩ :=
      Frame.ofPayload_eq_ok_iff.mpr ⟨rfl, rfl⟩
    simp only [transmit, hframe]
    refine ⟨⟨_, Wire.sent_send delivered _, _, rfl, rfl, rfl⟩, ?_⟩
    intro d hd
    cases d with
    | usb => exact absurd rfl hd
    | bluetooth => rfl
  | bluetooth =>
    obtain ⟨handle, hhandle⟩ := Option.isSome_iff_exists.mp (connected rfl)
    have hready : s.node.radio.isReady = true := ready.resolve_left fun hc => by cases hc
    have hpeer : s.node.radio.peer? = some handle := by
      rw [Radio.peer?, if_pos hready, hhandle]
    obtain ⟨packet, hpacket⟩ : (Command.sendTransparentData handle message).Encodes :=
      Command.encodes_data handle hlength
    have hsent : (s.transmit .bluetooth message).radioWire = (s.radioWire.send packet).2 := by
      simp only [transmit, Radio.sendData, hpeer, Command.write, hpacket]
      split
      · rename_i heq
        exact (congrArg Prod.snd heq).symm
      · rename_i heq
        exact (congrArg Prod.snd heq).symm
    refine ⟨⟨packet, ?_, handle, hhandle, hpacket⟩, ?_⟩
    · show (s.transmit .bluetooth message).radioWire.sent = _
      rw [hsent]
      exact Wire.sent_send delivered packet
    · intro d hd
      cases d with
      | usb => rfl
      | bluetooth => exact absurd rfl hd

omit [Peripherals β] in
/-- To a peer that cannot be reached nothing is sent. -/
theorem transmit_unready (hunready : s.node.radio.isReady = false) (message : Bytes) :
    s.transmit .bluetooth message = s := by
  have hpeer : s.node.radio.peer? = none := by
    rw [Radio.peer?, hunready, if_neg Bool.false_ne_true]
  simp only [transmit, Radio.sendData, hpeer]

/-- A message that can be answered is echoed. -/
theorem echoes_follow (delivered : (s.wire c).fate (s.wire c).tried = .delivered)
    (connected : c = .bluetooth → s.node.radio.isConnected = true)
    (ready : c = .usb ∨ s.node.radio.isReady = true) :
    Echoes s ((s.transmit c (echoOf bytes)).follow c m).2 c bytes := by
  have hlength : (echoOf bytes).length < Frame.maxPayload := by
    simp [echoOf, Message.packet, Frame.maxPayload]
  obtain ⟨⟨packet, hown, hconveys⟩, hother⟩ := transmit_conveys delivered connected ready hlength
  have horders := orders_follow (s.transmit c (echoOf bytes)) c m
  generalize s.transmit c (echoOf bytes) = u at hown hother horders
  obtain ⟨packets, hpackets, hcontrol⟩ := horders.radio
  refine ⟨?_, ?_⟩
  · cases c with
    | usb =>
      refine ⟨packet, [], ?_, hconveys, fun p hp => absurd hp List.not_mem_nil⟩
      show (u.follow .usb m).2.usbWire.sent = _
      rw [horders.usb]
      exact hown
    | bluetooth =>
      refine ⟨packet, packets, ?_, hconveys, fun p hp => ⟨rfl, hcontrol p hp⟩⟩
      show (u.follow .bluetooth m).2.radioWire.sent = _
      rw [hpackets]
      show (u.wire .bluetooth).sent ++ packets = _
      rw [hown, List.append_assoc]
      rfl
  · intro d hd
    rw [← hother d hd]
    cases d with
    | usb =>
      show u.usbWire.Gains _ (u.follow c m).2.usbWire
      rw [horders.usb]
      exact .refl _ _
    | bluetooth => exact horders.radio.mono fun p hp => ⟨rfl, hp⟩

/-- A message that cannot be answered has nothing written. -/
theorem silent_follow (hunready : s.node.radio.isReady = false) :
    Silent s ((s.transmit .bluetooth (echoOf bytes)).follow .bluetooth m).2 := by
  rw [transmit_unready hunready]
  have horders := orders_follow s .bluetooth m
  intro d
  cases d with
  | usb => exact horders.usb
  | bluetooth => exact horders.unready hunready

end Echo

/-! ## Messages -/

omit [Peripherals β] in
/-- Taking a message concerns neither wire. -/
theorem wire_receiver (s : Station β) (c d : Channel) : (s.receiver c).wire d = s.wire d := by
  cases c <;> cases d <;> rfl

omit [Peripherals β] in
theorem echoes_of_receiver {s t : Station β} {c : Channel} {bytes : Bytes}
    (h : Echoes (s.receiver c) t c bytes) : Echoes s t c bytes := by
  cases c with
  | usb =>
    refine ⟨h.own, fun d hd => ?_⟩
    rw [← wire_receiver s .usb d]
    exact h.other d hd
  | bluetooth =>
    refine ⟨h.own, fun d hd => ?_⟩
    rw [← wire_receiver s .bluetooth d]
    exact h.other d hd

omit [Peripherals β] in
/-- One message is something. -/
theorem Echoes.not_silent {s t : Station β} {c : Channel} {bytes : Bytes} (h : Echoes s t c bytes) :
    ¬ Silent s t := by
  intro silent
  obtain ⟨packet, rest, hsent, -, -⟩ := h.own
  rw [silent c] at hsent
  exact List.cons_ne_nil packet rest (List.self_eq_append_right.mp hsent)

/-- **A message is echoed when its sender can be reached.** The wire of the channel takes the packet.
Then a message of any kind but an echo is echoed, once and first of all, exactly when it comes on USB
or bring-up is complete; else it is carried out all the same and nothing is written. For an echo, and
for bytes that are no message, nothing is written either. -/
theorem echoed_iff_ready {s : Station β} {c : Channel} {byte : UInt8} {bytes : Bytes}
    (arrives : s.Arrives c byte bytes) (delivered : (s.wire c).fate (s.wire c).tried = .delivered) :
    let t := s.react (.byteOn c byte)
    (∀ m, Message.decode bytes = .ok m → m.kind ≠ .echo →
      t = (((s.receiver c).transmit c (echoOf bytes)).follow c m).2 ∧
        (Echoes s t c bytes ↔ c = .usb ∨ s.node.radio.isReady = true) ∧
        (¬ Echoes s t c bytes → Silent s t)) ∧
    ((∀ m, Message.decode bytes = .ok m → m.kind = .echo) → Silent s t) ∧
    echoOf bytes = [0, additiveSum bytes, additiveSum bytes] := by
  intro t
  have htaken : t = ((s.receiver c).receiveMessage c bytes).2 := by
    show s.react (.byteOn c byte) = _
    rw [react_byteOn, receiveOn_of_arrives arrives]
  have hready : (s.receiver c).node.radio.isReady = s.node.radio.isReady := by
    cases c <;> rfl
  have hconnected := arrives.listens.connected
  refine ⟨fun m hm hkind => ?_, fun hecho => ?_, ?_⟩
  · rw [receiveMessage_of_kind _ c hm hkind] at htaken
    have hreach : c = .usb ∨ s.node.radio.isReady = true → Echoes s t c bytes := by
      intro hanswers
      rw [← hready] at hanswers
      rw [← wire_receiver s c c] at delivered
      rw [htaken]
      exact echoes_of_receiver (echoes_follow delivered hconnected hanswers)
    have hsilent : ¬ (c = .usb ∨ s.node.radio.isReady = true) → Silent s t := by
      intro hunready
      rw [not_or, Bool.not_eq_true, ← hready] at hunready
      cases c with
      | usb => exact absurd rfl hunready.1
      | bluetooth =>
        rw [htaken]
        intro d
        rw [silent_follow hunready.2 d, wire_receiver]
    refine ⟨htaken, ⟨fun hechoes => ?_, hreach⟩, fun hnot => hsilent (mt hreach hnot)⟩
    by_cases hanswers : c = .usb ∨ s.node.radio.isReady = true
    · exact hanswers
    · exact absurd (hsilent hanswers) hechoes.not_silent
  · rw [htaken]
    intro d
    rw [← wire_receiver s c d]
    cases hm : Message.decode bytes with
    | error e =>
      simp only [receiveMessage_eq, hm]
    | ok m =>
      rw [receiveMessage_of_echo _ c hm (hecho m hm)]
      cases d <;> rfl
  · simp [echoOf, Message.packet, Kind.tag, additiveSum]

/-- The peer that the module calls 0x20 announces a program of nine bytes. -/
def announcement : Frame :=
  ⟨Response.dataOpcode, .ofPrefix (0x20 :: Message.packet .uploadBegin [0, 9])⟩

/-- The frame has come up to its checksum. -/
def announcing (s : Station Board) : Station Board :=
  s.after (announcement.toBytes.dropLast.map (.byteOn .bluetooth))

theorem arrives_announcement {s : Station Board} (framed : s.node.radio.line.mode = .event)
    (connected : s.node.radio.isConnected = true)
    (position : s.node.radio.line.frames =
      .checksum announcement.lengthField announcement.opcode announcement.payload) :
    s.Arrives .bluetooth announcement.checksum (Message.packet .uploadBegin [0, 9]) := by
  refine ⟨framed, fun _ => connected, announcement, ?_, 0x20,
    .ofPrefix (Message.packet .uploadBegin [0, 9]), rfl, rfl⟩
  rw [reader, position]
  exact FrameReader.feed_checksum announcement

/-- After bring-up the peer gets its echo. -/
theorem announcement_echoed :
    Echoes (announcing visited) ((announcing visited).react (.byteOn .bluetooth announcement.checksum))
      .bluetooth (Message.packet .uploadBegin [0, 9]) := by
  have arrives : (announcing visited).Arrives .bluetooth announcement.checksum
      (Message.packet .uploadBegin [0, 9]) :=
    arrives_announcement (by decide +kernel) (by decide +kernel) (by decide +kernel)
  have delivered : ((announcing visited).wire .bluetooth).fate
      ((announcing visited).wire .bluetooth).tried = .delivered := by decide +kernel
  have hecho := (echoed_iff_ready arrives delivered).1 _ rfl nofun
  exact hecho.2.1.mpr (.inr (by decide +kernel))

/-- A peer has connected before bring-up has issued its first command. -/
def early : Station Board :=
  announcing ((boot Radio.hasty (.replicate 64 0xFF) {} {} {}).after (.start :: connects 0x20))

/-- **A message may be carried out and not echoed.** An upload announced during bring-up is opened,
and nothing is written on either wire. -/
theorem upload_begins_unechoed :
    early.Arrives .bluetooth announcement.checksum (Message.packet .uploadBegin [0, 9]) ∧
      (early.wire .bluetooth).fate (early.wire .bluetooth).tried = .delivered ∧
      (∃ m, Message.decode (Message.packet .uploadBegin [0, 9]) = .ok m ∧ m.kind = .uploadBegin) ∧
      early.node.upload = none ∧
      (early.react (.byteOn .bluetooth announcement.checksum)).node.upload.isSome = true ∧
      ¬ Echoes early (early.react (.byteOn .bluetooth announcement.checksum)) .bluetooth
        (Message.packet .uploadBegin [0, 9]) := by
  have arrives : early.Arrives .bluetooth announcement.checksum
      (Message.packet .uploadBegin [0, 9]) :=
    arrives_announcement (by decide +kernel) (by decide +kernel) (by decide +kernel)
  refine ⟨arrives, by decide +kernel, ⟨_, rfl, rfl⟩, by decide +kernel, by decide +kernel, ?_⟩
  intro hechoes
  obtain ⟨packet, rest, hsent, -, -⟩ := hechoes.own
  have hnothing : ((early.react (.byteOn .bluetooth announcement.checksum)).wire .bluetooth).sent =
      [] := by decide +kernel
  rw [hnothing] at hsent
  exact List.append_ne_nil_of_right_ne_nil _ (List.cons_ne_nil packet rest) hsent.symm

end Station

end RoomControl
