import RoomControl.Proofs.Node.History
import RoomControl.Proofs.Radio.Line

/-!
# How a message comes in

On either channel a message comes as the payload of a frame, byte by byte. The bytes up to the
checksum move the channel's reader alone (`after_feeds_on`); the byte that completes the frame has
the message taken (`receiveOn_of_arrives`), and nothing else has (`arrives_of_taking`). A message
other than an echo is echoed first, and what it asks for comes after that: `receiveMessage_eq` tells
the two apart, with `follow` for the second.

The USB host counts as present from its first message on. The radio line hands on what a connected
peer sends, whether or not bring-up is complete.
-/

set_option autoImplicit false

namespace RoomControl

variable {β : Type}

/-- A byte comes on a channel. -/
def Stimulus.byteOn : Channel → UInt8 → Stimulus β
  | .usb, byte => .usb byte
  | .bluetooth, byte => .radio byte

/-- A frame with these bytes of the peer. The radio module puts the handle of the peer in front. -/
def Frame.Carries (f : Frame) (bytes : Bytes) : Channel → Prop
  | .usb => f.opcode = Response.dataOpcode ∧ f.payload.bytes = bytes
  | .bluetooth =>
    ∃ handle data, Response.ofFrame f = .ok (.transparentData handle data) ∧ data.bytes = bytes

namespace Station

/-! ## Readers -/

/-- The position of a channel inside a frame. -/
def reader (s : Station β) : Channel → FrameReader
  | .usb => s.node.usb
  | .bluetooth => s.node.radio.line.frames

def withReader (s : Station β) (c : Channel) (reader : FrameReader) : Station β :=
  match c with
  | .usb => s.withNode { s.node with usb := reader }
  | .bluetooth =>
    let line := { s.node.radio.line with frames := reader }
    s.withNode { s.node with radio := { s.node.radio with line } }

/-- The line of a channel carries frames. That of the radio module may carry test packets instead. -/
def Framed (s : Station β) : Channel → Prop
  | .usb => True
  | .bluetooth => s.node.radio.line.mode = .event

/-- The station with the peer of a channel noted as present. -/
def noticing (s : Station β) : Channel → Station β
  | .usb => s.withNode { s.node with usbActive := true }
  | .bluetooth => s

/-- The station that takes a message of a channel. -/
def receiver (s : Station β) (c : Channel) : Station β := (s.withReader c .idle).noticing c

/-- The next frame with bytes of a channel's peer is taken. -/
structure Listens (s : Station β) (c : Channel) : Prop where
  framed : s.Framed c
  between : s.reader c = .idle
  connected : c = .bluetooth → s.node.radio.isConnected = true

/-- This byte of a channel completes a frame with bytes of its peer. -/
structure Arrives (s : Station β) (c : Channel) (byte : UInt8) (bytes : Bytes) : Prop where
  framed : s.Framed c
  connected : c = .bluetooth → s.node.radio.isConnected = true
  completes : ∃ f : Frame, (s.reader c).feed byte = (.ok (some f), .idle) ∧ f.Carries bytes c

@[simp] theorem withReader_reader (s : Station β) (c : Channel) : s.withReader c (s.reader c) = s := by
  cases c <;> rfl

@[simp] theorem programming_receiver (s : Station β) (c : Channel) :
    (s.receiver c).programming = s.programming := by
  cases c <;> rfl

/-- After a message the channel listens for the next. -/
theorem Arrives.listens {s : Station β} {c : Channel} {byte : UInt8} {bytes : Bytes}
    (h : s.Arrives c byte bytes) : (s.receiver c).Listens c := by
  cases c with
  | usb => exact ⟨trivial, rfl, nofun⟩
  | bluetooth => exact ⟨h.framed, rfl, h.connected⟩

/-- **What completes a message** is a byte of the channel that the message comes on. -/
theorem arrives_of_taking {s v : Station β} {stimulus : Stimulus β} {c : Channel} {bytes : Bytes}
    (h : s.taking stimulus = some (v, c, bytes)) :
    ∃ byte, stimulus = .byteOn c byte ∧ s.Arrives c byte bytes ∧ v = s.receiver c := by
  cases stimulus with
  | usb byte =>
    generalize hfed : s.node.usb.feed byte = fed at h
    obtain ⟨received, usb⟩ := fed
    simp only [taking, hfed] at h
    split at h
    · rename_i f
      split at h
      · rename_i hopcode
        cases h
        obtain rfl := FrameReader.feed_frame hfed
        exact ⟨byte, rfl, ⟨trivial, (fun hc => by cases hc), f, hfed, hopcode, rfl⟩, rfl⟩
      · cases h
    · cases h
  | radio byte =>
    simp only [taking] at h
    split at h
    · rename_i data hresult
      cases h
      obtain ⟨hmode, hconnected, ⟨f, handle, hframe, hresponse⟩, hstep⟩ :=
        Radio.receive_of_data hresult
      rw [hstep]
      exact ⟨byte, rfl, ⟨hmode, fun _ => hconnected, f, hframe, handle, data, hresponse, rfl⟩, rfl⟩
    · cases h
  | _ => cases h

variable [Peripherals β]

/-! ## Messages -/

/-- What is done about a message once it is echoed. -/
def follow (s : Station β) (c : Channel) (m : Message) : Answer β :=
  match m.kind with
  | .request => s.answerRequest c m.body.bytes
  | .uploadBegin => s.beginUpload c m.body.bytes
  | .chunk => s.takeChunk c m.body.bytes
  | .enter => s.enterState c .enter m.body.bytes
  | .action => s.act c m.body.bytes
  | _ => s.accept c m.kind

/-- **First the echo, then the rest.** -/
theorem receiveMessage_eq (s : Station β) (c : Channel) (bytes : Bytes) :
    s.receiveMessage c bytes =
      match Message.decode bytes with
      | .error e => (.error (.message e), s)
      | .ok m =>
        if m.kind = .echo then s.takeEcho c m.body.bytes
        else (s.transmit c (echoOf bytes)).follow c m := by
  unfold receiveMessage
  cases Message.decode bytes with
  | error e => rfl
  | ok m => rfl

theorem receiveMessage_of_echo (s : Station β) (c : Channel) {bytes : Bytes} {m : Message}
    (hm : Message.decode bytes = .ok m) (hkind : m.kind = .echo) :
    s.receiveMessage c bytes = s.takeEcho c m.body.bytes := by
  simp only [receiveMessage_eq, hm, if_pos hkind]

theorem receiveMessage_of_kind (s : Station β) (c : Channel) {bytes : Bytes} {m : Message}
    (hm : Message.decode bytes = .ok m) (hkind : m.kind ≠ .echo) :
    s.receiveMessage c bytes = (s.transmit c (echoOf bytes)).follow c m := by
  simp only [receiveMessage_eq, hm, if_neg hkind]

/-! ## Bytes -/

/-- Takes one byte of a channel. -/
def receiveOn (s : Station β) : Channel → UInt8 → Answer β
  | .usb, byte => s.receiveUsb byte
  | .bluetooth, byte => s.receiveRadio byte

theorem react_byteOn (s : Station β) (c : Channel) (byte : UInt8) :
    s.react (.byteOn c byte) = (s.receiveOn c byte).2 := by
  cases c <;> rfl

/-- A byte that completes nothing moves the reader. -/
theorem receiveOn_of_none {s : Station β} {c : Channel} (framed : s.Framed c) {byte : UInt8}
    {next : FrameReader} (h : (s.reader c).feed byte = (.ok none, next)) :
    s.receiveOn c byte = (.ok none, s.withReader c next) := by
  cases c with
  | usb =>
    simp only [reader] at h
    simp only [receiveOn, receiveUsb, h]
    rfl
  | bluetooth =>
    have hmode : s.node.radio.line.mode = .event := framed
    simp only [reader] at h
    simp only [receiveOn, receiveRadio, Radio.receive, LineReader.feed_of_event hmode, h,
      Except.map, Option.map_none]
    rfl

/-- **Bytes that complete nothing move the reader alone.** -/
theorem after_feeds_on {s : Station β} {c : Channel} (framed : s.Framed c) {bytes : Bytes}
    {next : FrameReader} (h : (s.reader c).Feeds bytes next) :
    s.after (bytes.map (.byteOn c)) = s.withReader c next := by
  generalize hfirst : s.reader c = first at h
  induction h generalizing s with
  | nil first =>
    subst hfirst
    exact (s.withReader_reader c).symm
  | @cons first second last byte rest hfeed _ ih =>
    subst hfirst
    have hreact : s.react (.byteOn c byte) = s.withReader c second := by
      rw [react_byteOn, receiveOn_of_none framed hfeed]
    have hsecond : (s.withReader c second).reader c = second := by
      cases c <;> rfl
    have hframed : (s.withReader c second).Framed c := by
      cases c with
      | usb => trivial
      | bluetooth => exact framed
    rw [List.map_cons, after, List.foldl_cons, hreact]
    refine (ih hframed hsecond).trans ?_
    cases c <;> rfl

/-- **The byte that completes a message** has it taken. -/
theorem receiveOn_of_arrives {s : Station β} {c : Channel} {byte : UInt8} {bytes : Bytes}
    (h : s.Arrives c byte bytes) :
    s.receiveOn c byte = (s.receiver c).receiveMessage c bytes := by
  obtain ⟨framed, connected, f, hfeed, carries⟩ := h
  cases c with
  | usb =>
    obtain ⟨hopcode, rfl⟩ := carries
    simp only [reader] at hfeed
    simp only [receiveOn, receiveUsb, hfeed, if_pos hopcode]
    rfl
  | bluetooth =>
    obtain ⟨handle, data, hresponse, rfl⟩ := carries
    have hmode : s.node.radio.line.mode = .event := framed
    have hconnected : s.node.radio.connection.isSome = true := connected rfl
    simp only [reader] at hfeed
    simp only [receiveOn, receiveRadio, Radio.receive, LineReader.feed_of_event hmode, hfeed,
      Except.map, Option.map_some, hresponse, Radio.react, Radio.isConnected, hconnected, if_true,
      takeRadioEvent]
    rfl

theorem react_of_taking {s v : Station β} {stimulus : Stimulus β} {c : Channel} {bytes : Bytes}
    (h : s.taking stimulus = some (v, c, bytes)) :
    s.react stimulus = ((s.receiver c).receiveMessage c bytes).2 := by
  obtain ⟨byte, rfl, arrives, -⟩ := arrives_of_taking h
  rw [react_byteOn, receiveOn_of_arrives arrives]

/-- **A frame with a message, on a channel that listens.** -/
theorem after_frame {s : Station β} {c : Channel} (h : s.Listens c) {f : Frame} {bytes : Bytes}
    (carries : f.Carries bytes c) :
    s.after (f.toBytes.map (.byteOn c)) = ((s.noticing c).receiveMessage c bytes).2 := by
  have hfeeds := FrameReader.feeds_frame f
  rw [← h.between] at hfeeds
  -- the reader stands before the checksum, and is idle again behind it
  have hfront := after_feeds_on h.framed hfeeds
  generalize hu : s.withReader c (.checksum f.lengthField f.opcode f.payload) = u at hfront
  have harrives : u.Arrives c f.checksum bytes := by
    subst hu
    cases c with
    | usb => exact ⟨trivial, nofun, f, FrameReader.feed_checksum f, carries⟩
    | bluetooth => exact ⟨h.framed, h.connected, f, FrameReader.feed_checksum f, carries⟩
  have hidle : u.withReader c .idle = s := by
    subst hu
    refine Eq.trans ?_ (s.withReader_reader c)
    rw [h.between]
    cases c <;> rfl
  rw [Frame.toBytes, List.map_append, after_append, hfront, List.map_singleton]
  show u.react (.byteOn c f.checksum) = _
  rw [react_byteOn, receiveOn_of_arrives harrives, receiver, hidle]

/-! ## The line of the radio module -/

omit [Peripherals β] in
theorem line_triggerConnection (s : Station β) (visible : Bool) :
    (s.triggerConnection visible).2.node.radio.line = s.node.radio.line := by
  have hshow : (s.node.radio.setVisible s.radioWire visible).2.1.line = s.node.radio.line :=
    (Radio.keeps_request ..).line
  unfold triggerConnection
  generalize s.node.radio.setVisible s.radioWire visible = asked at hshow
  obtain ⟨result, radio, wire⟩ := asked
  cases result with
  | error e => exact hshow
  | ok _ =>
    cases visible with
    | true => exact hshow
    | false =>
      have hdrop := (radio.keeps_disconnect wire).line
      dsimp only
      generalize radio.disconnect wire = asked at hdrop
      obtain ⟨result, radio', wire'⟩ := asked
      cases result with
      | ok _ => exact hdrop.trans hshow
      | error e => exact hdrop.trans hshow

theorem line_execute (s : Station β) (connected : Channel → Bool) (device : Device)
    (value : Bytes) :
    (s.execute connected device value).2.node.radio.line = s.node.radio.line := by
  unfold execute
  split
  · dsimp only
    rw [Node.notify_eq, Node.notify_eq]
  · split
    · exact line_triggerConnection ..
    · rfl
  · split
    · unfold drive
      dsimp only
      split
      · rfl
      · split
        · rw [Node.notify_eq]
        · rfl
    · rfl

theorem line_executeAll (s : Station β) (connected : Channel → Bool)
    (calls : List (Device × Bytes)) :
    (s.executeAll connected calls).2.node.radio.line = s.node.radio.line := by
  induction calls generalizing s with
  | nil => rfl
  | cons call rest ih => exact (ih (s.execute connected call.1 call.2).2).trans (line_execute ..)

theorem line_receiveMessage (s : Station β) (c : Channel) (bytes : Bytes) :
    (s.receiveMessage c bytes).2.node.radio.line = s.node.radio.line := by
  have hecho : (s.transmit c (echoOf bytes)).node.radio.line = s.node.radio.line := by
    obtain ⟨radioWire, usbWire, hsent⟩ := s.transmit_eq c (echoOf bytes)
    rw [hsent]
  have hreceived := s.received_receiveMessage c bytes
  generalize s.receiveMessage c bytes = answer at hreceived
  cases hreceived with
  | unanswered _ hinside _ => rw [hinside.radio]
  | answered _ hinside _ => rw [hinside.radio, hecho]
  | acted _ hstation _ => rw [hstation, line_execute, hecho]

omit [Peripherals β] in
theorem radio_transmit? (s : Station β) (c : Channel) (payload : Option Bytes) :
    (s.transmit? c payload).node.radio = s.node.radio := by
  obtain ⟨radioWire, usbWire, hsent⟩ := s.transmit?_eq c payload
  rw [hsent]

/-- The turn of a channel does not concern the radio. -/
theorem radio_tickChannel (s : Station β) (counters : Bytes) (extensions : PacketSource)
    (c : Channel) : (s.tickChannel counters extensions c).2.node.radio = s.node.radio := by
  have hwait : (s.tickTransport c).2.node.radio = s.node.radio := radio_transmit? ..
  show ((s.tickTransport c).2.tickDispatch c _).2.node.radio = _
  refine Eq.trans ?_ hwait
  unfold tickDispatch
  split
  · exact radio_transmit? ..
  · rfl

/-- **On a tick the line stays as it is.** -/
theorem line_tick (s : Station β) (inputs : Vector UInt8 3) (extensions : PacketSource) :
    (s.tick inputs extensions).2.node.radio.line = s.node.radio.line := by
  have hbefore : (s.beforeProgram extensions).node.radio.line = s.node.radio.line := by
    unfold beforeProgram
    dsimp only
    rw [radio_tickChannel, radio_tickChannel]
    exact s.node.radio.line_tick s.radioWire
  rw [(tick_eq s inputs extensions).2, ← hbefore]
  generalize s.beforeProgram extensions = w
  rcases w.tickProgram_cases inputs with ⟨-, -, hprogram⟩ | ⟨-, evalElapsed, hprogram⟩
  · rw [hprogram]
    exact line_executeAll ..
  · rw [hprogram]
    rfl

/-- Whatever happens, the line of the radio module goes on carrying frames. -/
theorem mode_react (s : Station β) (stimulus : Stimulus β) :
    (s.react stimulus).node.radio.line.mode = s.node.radio.line.mode := by
  cases stimulus with
  | radio byte =>
    have hline := s.node.radio.line_receive s.radioWire byte
    have hmode := s.node.radio.line.mode_feed byte
    rw [← hline] at hmode
    refine Eq.trans ?_ hmode
    simp only [react, receiveRadio]
    split
    · rfl
    · unfold takeRadioEvent
      split
      · exact congrArg LineReader.mode (line_receiveMessage ..)
      · rfl
      · rfl
    · rfl
    · rfl
  | usb byte =>
    simp only [react, receiveUsb]
    split
    · rfl
    · rfl
    · split
      · exact congrArg LineReader.mode (line_receiveMessage ..)
      · rfl
  | usbActive active =>
    cases active with
    | true => rfl
    | false => rfl
  | tick inputs extensions => exact congrArg LineReader.mode (line_tick ..)
  | _ => rfl

/-- **Every channel carries frames**, after any history. -/
theorem framed_after (config : NodeConfig) (image : Array UInt8) (board : β)
    (radioWire usbWire : Wire) (history : List (Stimulus β)) (c : Channel) :
    ((boot config image board radioWire usbWire).after history).Framed c := by
  cases c with
  | usb => trivial
  | bluetooth =>
    show ((boot config image board radioWire usbWire).after history).node.radio.line.mode = .event
    have hboot : (boot config image board radioWire usbWire).node.radio.line.mode = .event := rfl
    generalize boot config image board radioWire usbWire = s at hboot
    induction history generalizing s with
    | nil => exact hboot
    | cons stimulus rest ih => exact ih (s.react stimulus) ((s.mode_react stimulus).trans hboot)

end Station

end RoomControl
