import RoomControl.Peripherals.Board
import RoomControl.Proofs.Node.History
import RoomControl.Proofs.Program.Upload
import RoomControl.Proofs.Radio.Peer

/-!
# What a peer leaves behind

For a peer the station keeps a queue, an outstanding message and perhaps an upload. While the peer of
a channel cannot be reached, none of the three grows (`Dwindles`), whatever the other channel, the
board and the program do.

A Bluetooth connection ends in three ways. When the module reports its end, the station drops all
three, so the next peer finds nothing of the one before. When the module reports another peer, or when
the station is started, it drops none of them (`left_behind`): the next peer is sent what was queued
for the one before, and an upload that was begun by that one goes on.
-/

set_option autoImplicit false

namespace RoomControl

theorem Transport.outstanding_afterTurn_of_disconnected (t : Transport) (c : Channel) :
    (t.afterTurn c false).outstanding c = none := by
  rw [afterTurn, outstanding_withSlot_self, turn]
  cases t.outstanding c with
  | none => rfl
  | some o => rfl

/-- Giving up the upload of a channel leaves none of that channel. -/
theorem Upload.source_abortFrom {open? : Option Upload} {c d : Channel}
    (h : (abortFrom open? c).2.map source = some d) : d ≠ c ∧ open?.map source = some d := by
  unfold abortFrom at h
  split at h
  · cases h
  · rename_i hother
    refine ⟨?_, h⟩
    rintro rfl
    exact hother h

namespace Station

variable {β : Type}

/-- Nothing is kept for the peer of a channel. -/
structure Clear (c : Channel) (s : Station β) : Prop where
  queue : (s.node.queues.get c).items = []
  outstanding : s.node.transport.outstanding c = none
  upload : s.node.upload.map Upload.source ≠ some c

/-- What is kept for the peer of a channel is as it was. -/
structure Leaves (c : Channel) (s t : Station β) : Prop where
  queue : t.node.queues.get c = s.node.queues.get c
  outstanding : t.node.transport.outstanding c = s.node.transport.outstanding c
  upload : t.node.upload = s.node.upload

/-- Between two states the peer of a channel got nothing: its queue is as it was, and if there still
is a message outstanding or an upload of its own, there was one before. -/
structure Dwindles (c : Channel) (s t : Station β) : Prop where
  queue : t.node.queues.get c = s.node.queues.get c
  outstanding : t.node.transport.outstanding c = s.node.transport.outstanding c ∨
    t.node.transport.outstanding c = none
  upload : t.node.upload.map Upload.source = some c → s.node.upload.map Upload.source = some c

theorem Leaves.refl (c : Channel) (s : Station β) : Leaves c s s := ⟨rfl, rfl, rfl⟩

theorem Leaves.trans {c : Channel} {s t u : Station β} (first : Leaves c s t)
    (second : Leaves c t u) : Leaves c s u :=
  ⟨second.queue.trans first.queue, second.outstanding.trans first.outstanding,
    second.upload.trans first.upload⟩

theorem Leaves.dwindles {c : Channel} {s t : Station β} (h : Leaves c s t) : Dwindles c s t :=
  ⟨h.queue, .inl h.outstanding, fun hsource => h.upload ▸ hsource⟩

namespace Dwindles

variable {c : Channel} {s t u : Station β}

theorem refl (c : Channel) (s : Station β) : Dwindles c s s := (Leaves.refl c s).dwindles

theorem trans (first : Dwindles c s t) (second : Dwindles c t u) : Dwindles c s u := by
  refine ⟨second.queue.trans first.queue, ?_, fun h => first.upload (second.upload h)⟩
  rcases second.outstanding with hkept | hgone
  · rw [hkept]
    exact first.outstanding
  · exact .inr hgone

theorem outstanding_eq_none (h : Dwindles c s t) (hnone : s.node.transport.outstanding c = none) :
    t.node.transport.outstanding c = none := by
  rcases h.outstanding with hkept | hgone
  · rw [hkept, hnone]
  · exact hgone

/-- Where nothing is kept, nothing comes. -/
theorem clear (h : Dwindles c s t) (hclear : Clear c s) : Clear c t :=
  ⟨by rw [h.queue, hclear.queue], h.outstanding_eq_none hclear.outstanding,
    mt h.upload hclear.upload⟩

end Dwindles

/-! ## Messages of the other channel -/

section Messages

variable {c d : Channel} (hne : d ≠ c)

theorem leaves_transmit (s : Station β) (c d : Channel) (payload : Bytes) :
    Leaves d s (s.transmit c payload) := by
  obtain ⟨radioWire, usbWire, hsent⟩ := s.transmit_eq c payload
  rw [hsent]
  exact ⟨rfl, rfl, rfl⟩

include hne

theorem queue_enqueue_of_ne (n : Node) (item : Item) :
    (n.enqueue c item).queues.get d = n.queues.get d :=
  PerChannel.get_set_of_ne _ _ hne

theorem leaves_answerRequest (s : Station β) (body : Bytes) :
    Leaves d s (s.answerRequest c body).2 := by
  cases body with
  | nil => exact .refl d s
  | cons requested rest => exact ⟨queue_enqueue_of_ne hne _ _, rfl, rfl⟩

theorem dwindles_beginUpload (s : Station β) (body : Bytes) :
    Dwindles d s (s.beginUpload c body).2 := by
  unfold beginUpload
  split
  · rename_i high low _
    have hbegun := Upload.begun_begin s.node.upload s.memory (word high low).toNat c
    generalize Upload.begin s.node.upload s.memory (word high low).toNat c = begun at hbegun
    cases hbegun with
    | refused _ => exact ⟨rfl, .inl rfl, id⟩
    | failed _ => exact ⟨rfl, .inl rfl, nofun⟩
    | opened _ _ _ => exact ⟨rfl, .inl rfl, fun hsource => absurd (Option.some.inj hsource).symm hne⟩
  · exact .refl d s

omit hne in
/-- A chunk may close an upload, and opens none. -/
theorem source_of_chunk {open? : Option Upload} {m : ProgramMemory} {addr : Nat} {data : Bytes}
    (h : (Upload.chunk open? m addr data).2.1.map Upload.source = some d) :
    open?.map Upload.source = some d := by
  have hsource (u : Upload) : (u.hold addr data).source = u.source := by
    unfold Upload.hold
    split
    · rfl
    · rfl
  have htaken := Upload.taken_chunk open? m addr data
  generalize Upload.chunk open? m addr data = taken at htaken h
  cases htaken with
  | closed => exact h
  | outOfRange _ => exact h
  | failed _ _ =>
    rw [← h]
    exact congrArg some (hsource _).symm
  | stored _ _ _ =>
    rw [← h]
    exact congrArg some (hsource _).symm
  | finished _ _ _ => cases h

omit hne in
theorem leaves_startUploaded (s : Station β) (d : Channel) : Leaves d s s.startUploaded.2 := by
  unfold startUploaded
  dsimp only
  split
  · exact ⟨rfl, rfl, rfl⟩
  · exact ⟨rfl, rfl, rfl⟩

theorem dwindles_takeChunk (s : Station β) (body : Bytes) :
    Dwindles d s (s.takeChunk c body).2 := by
  unfold takeChunk
  split
  · rename_i high low count rest
    split
    · exact .refl d s
    · have hupload := @source_of_chunk d s.node.upload s.memory (word high low).toNat
        (rest.take count.toNat)
      dsimp only
      generalize Upload.chunk s.node.upload s.memory (word high low).toNat
        (rest.take count.toNat) = taken at hupload
      obtain ⟨result, upload, memory⟩ := taken
      dsimp only at hupload ⊢
      -- what closes the upload is reported on the channel of the chunk alone
      generalize hnode :
        (if (s.node.upload.isSome && upload.isNone) = true then
          ({ s.node with upload }.enqueue c ⟨.programState, none⟩).enqueue c ⟨.consistency, none⟩
        else { s.node with upload }) = node
      have hstored : Dwindles d s { s with node, memory } := by
        subst hnode
        split
        · refine ⟨?_, .inl rfl, hupload⟩
          exact (queue_enqueue_of_ne hne _ _).trans (queue_enqueue_of_ne hne _ _)
        · exact ⟨rfl, .inl rfl, hupload⟩
      cases result with
      | error e => exact hstored
      | ok outcome =>
        cases outcome with
        | stored => exact hstored
        | complete => exact hstored.trans (leaves_startUploaded _ d).dwindles
  · exact .refl d s

omit hne in
theorem leaves_enterState (s : Station β) (c d : Channel) (kind : Kind) (body : Bytes) :
    Leaves d s (s.enterState c kind body).2 := by
  cases body with
  | nil => exact .refl d s
  | cons state rest => exact ⟨rfl, rfl, rfl⟩

theorem leaves_takeEcho (s : Station β) (body : Bytes) : Leaves d s (s.takeEcho c body).2 := by
  refine ⟨rfl, ?_, rfl⟩
  unfold takeEcho
  dsimp only
  split
  · exact Transport.outstanding_withSlot_of_ne _ _ hne
  · rfl

end Messages

/-! ## Actions -/

section Actions

variable {connected : Channel → Bool} {d : Channel} (halone : connected d = false)

include halone

theorem queue_notify_of_unconnected (n : Node) (item : Item) :
    (n.notify connected item).queues.get d = n.queues.get d := by
  rw [Node.notify_eq, PerChannel.get_ofFn, halone, if_neg Bool.false_ne_true]

variable [Peripherals β]

theorem queue_drive_of_unconnected (s : Station β) (device : Device) (value : Bytes) :
    (s.drive connected device value).2.node.queues.get d = s.node.queues.get d := by
  unfold drive
  dsimp only
  split
  · rfl
  · split
    · exact queue_notify_of_unconnected halone ..
    · rfl

/-- No action reaches a peer that is not there. -/
theorem leaves_execute (s : Station β) (device : Device) (value : Bytes) :
    Leaves d s (s.execute connected device value).2 := by
  have hdriven := (s.driven_execute connected device value).1
  have hupload : (s.execute connected device value).2.node.upload = s.node.upload :=
    congrArg Programming.upload (programming_execute s connected device value)
  refine ⟨?_, by rw [hdriven.transport], hupload⟩
  unfold execute
  split
  · dsimp only
    rw [queue_notify_of_unconnected halone, queue_notify_of_unconnected halone]
  · split
    · unfold triggerConnection
      dsimp only
      split
      · rfl
      · rfl
    · rfl
  · split
    · exact queue_drive_of_unconnected halone ..
    · rfl

theorem leaves_executeAll (s : Station β) (calls : List (Device × Bytes)) :
    Leaves d s (s.executeAll connected calls).2 := by
  induction calls generalizing s with
  | nil => exact .refl d s
  | cons call rest ih =>
    have hfirst := leaves_execute halone s call.1 call.2
    exact hfirst.trans (ih (s.execute connected call.1 call.2).2)

end Actions

variable [Peripherals β]

theorem dwindles_act {c d : Channel} (s : Station β) (body : Bytes)
    (halone : s.node.isConnected d = false) : Dwindles d s (s.act c body).2 := by
  cases body with
  | nil => exact .refl d s
  | cons byte value =>
    unfold act
    dsimp only
    split
    · exact (leaves_enterState s c d .action value).dwindles
    · have hleaves := leaves_execute halone s (Device.ofByte byte) value
      split
      · rename_i s' hexec
        rw [hexec] at hleaves
        exact hleaves.dwindles
      · rename_i s' hexec
        rw [hexec] at hleaves
        exact hleaves.dwindles

/-- **A message of another channel** brings nothing to a peer that is not there. -/
theorem dwindles_receiveMessage {c d : Channel} (hne : d ≠ c) (s : Station β) (bytes : Bytes)
    (halone : s.node.isConnected d = false) : Dwindles d s (s.receiveMessage c bytes).2 := by
  unfold receiveMessage
  split
  · exact .refl d s
  · rename_i kind body _
    split
    · exact (leaves_takeEcho hne s body.bytes).dwindles
    · have hsent := leaves_transmit s c d (echoOf bytes)
      have halone' : (s.transmit c (echoOf bytes)).node.isConnected d = false := by
        obtain ⟨radioWire, usbWire, heq⟩ := s.transmit_eq c (echoOf bytes)
        rw [heq]
        exact halone
      dsimp only
      generalize s.transmit c (echoOf bytes) = t at hsent halone'
      refine hsent.dwindles.trans ?_
      split
      · exact (leaves_answerRequest hne t body.bytes).dwindles
      · exact dwindles_beginUpload hne t body.bytes
      · exact dwindles_takeChunk hne t body.bytes
      · exact (leaves_enterState t c d .enter body.bytes).dwindles
      · exact dwindles_act t body.bytes halone'
      · exact .refl d t

/-! ## Ticks -/

/-- On a channel whose peer is not there, a tick drops the outstanding message and does no more. -/
theorem tickChannel_of_unconnected (s : Station β) (counters : Bytes) (extensions : PacketSource)
    {c : Channel} (halone : s.node.isConnected c = false) :
    ∃ radioWire usbWire stats, (s.tickChannel counters extensions c).2 =
      { s with
        node := { s.node with transport := s.node.transport.afterTurn c false, stats }
        radioWire, usbWire } := by
  obtain ⟨-, radioWire, usbWire, stats, hwait⟩ := s.tickTransport_eq c
  unfold tickChannel
  dsimp only
  rw [hwait, tickDispatch_of_disconnected, halone]
  · exact ⟨radioWire, usbWire, stats, rfl⟩
  · cases c <;> exact halone

theorem leaves_tickProgram {c : Channel} (s : Station β) (inputs : Vector UInt8 3)
    (halone : s.node.isConnected c = false) : Leaves c s (s.tickProgram inputs).2.2 := by
  rcases s.tickProgram_cases inputs with ⟨-, -, hprogram⟩ | ⟨-, evalElapsed, hprogram⟩
  · have hchecked : Leaves c s (s.checked inputs) := ⟨rfl, rfl, rfl⟩
    rw [hprogram]
    exact hchecked.trans (leaves_executeAll halone _ _)
  · rw [hprogram]
    exact ⟨rfl, rfl, rfl⟩

/-- A tick drops what is outstanding for a Bluetooth peer that is not there. -/
theorem dwindles_tick (s : Station β) (inputs : Vector UInt8 3) (extensions : PacketSource)
    (halone : s.node.isConnected .bluetooth = false) :
    Dwindles .bluetooth s (s.tick inputs extensions).2 ∧
      (s.tick inputs extensions).2.node.transport.outstanding .bluetooth = none := by
  let counters := s.tickRadio.2.node.debugCounters
  let t := (s.tickRadio.2.tickChannel counters extensions .usb).2
  have hlane : t.lane .bluetooth = s.lane .bluetooth :=
    (lane_tickChannel_of_ne _ _ _ (by decide)).trans (s.lane_tickRadio .bluetooth)
  have hupload : t.node.upload = s.node.upload :=
    congrArg Programming.upload (programming_tickChannel s.tickRadio.2 counters extensions .usb)
  have husb : Leaves .bluetooth s t :=
    ⟨congrArg Lane.queue hlane, congrArg Lane.outstanding hlane, hupload⟩
  have halone' : t.node.isConnected .bluetooth = false :=
    (congrArg Lane.connected hlane).trans halone
  obtain ⟨radioWire, usbWire, stats, hbluetooth⟩ :=
    t.tickChannel_of_unconnected counters extensions halone'
  have hbefore : s.beforeProgram extensions = (t.tickChannel counters extensions .bluetooth).2 := rfl
  rw [(tick_eq s inputs extensions).2, hbefore, hbluetooth]
  generalize hu : ({ t with node := _, radioWire, usbWire } : Station β) = u
  have hnone : u.node.transport.outstanding .bluetooth = none := by
    subst hu
    exact Transport.outstanding_afterTurn_of_disconnected _ _
  have hturn : Dwindles .bluetooth t u := by
    subst hu
    exact ⟨rfl, .inr hnone, id⟩
  have hprogram : Leaves .bluetooth u (u.tickProgram inputs).2.2 := by
    refine leaves_tickProgram u inputs ?_
    subst hu
    exact halone'
  exact ⟨husb.dwindles.trans (hturn.trans hprogram.dwindles), hprogram.outstanding.trans hnone⟩

/-! ## While nobody is connected -/

theorem unconnected_of_alone {n : Node} (h : n.radio.connection = none) :
    n.isConnected .bluetooth = false := by
  rw [Node.isConnected, Radio.peer?, h]
  split
  · rfl
  · rfl

theorem leaves_receiveRadio (s : Station β) (byte : UInt8)
    (halone : s.node.radio.connection = none) :
    Leaves .bluetooth s (s.receiveRadio byte).2 := by
  unfold receiveRadio
  dsimp only
  split
  · exact ⟨rfl, rfl, rfl⟩
  · rename_i event hresult
    have hplain := Radio.plain_receive halone hresult
    unfold takeRadioEvent
    split
    · exact absurd rfl (hplain.1 _)
    · exact absurd rfl hplain.2
    · exact ⟨rfl, rfl, rfl⟩
  · exact ⟨rfl, rfl, rfl⟩
  · exact ⟨rfl, rfl, rfl⟩

theorem dwindles_receiveUsb (s : Station β) (byte : UInt8)
    (halone : s.node.isConnected .bluetooth = false) :
    Dwindles .bluetooth s (s.receiveUsb byte).2 := by
  unfold receiveUsb
  dsimp only
  split
  · exact ⟨rfl, .inl rfl, id⟩
  · exact ⟨rfl, .inl rfl, id⟩
  · rename_i frame _
    split
    · have hmessage := dwindles_receiveMessage (by decide : Channel.bluetooth ≠ .usb)
        (s.withNode { s.node with usb := (s.node.usb.feed byte).2, usbActive := true })
        frame.payload.bytes halone
      exact ⟨hmessage.queue, hmessage.outstanding, hmessage.upload⟩
    · exact ⟨rfl, .inl rfl, id⟩

/-- **While nobody is connected**, nothing is kept for a Bluetooth peer that was not kept before. -/
theorem dwindles_react (s : Station β) (stimulus : Stimulus β)
    (halone : s.node.radio.connection = none) : Dwindles .bluetooth s (s.react stimulus) := by
  have hreach := unconnected_of_alone halone
  cases stimulus with
  | start => exact ⟨rfl, .inl rfl, id⟩
  | radio byte => exact (leaves_receiveRadio s byte halone).dwindles
  | usb byte => exact dwindles_receiveUsb s byte hreach
  | usbActive active =>
    cases active with
    | true => exact ⟨rfl, .inl rfl, id⟩
    | false =>
      exact ⟨rfl, .inl rfl, fun hsource => (Upload.source_abortFrom hsource).2⟩
  | tick inputs extensions => exact (dwindles_tick s inputs extensions hreach).1
  | board board => exact ⟨rfl, .inl rfl, id⟩
  | wires radioWire usbWire => exact ⟨rfl, .inl rfl, id⟩
  | writes left => exact ⟨rfl, .inl rfl, id⟩
  | saved => exact ⟨rfl, .inl rfl, id⟩

/-- Nobody is connected in front of any stimulus of a history. The last one may bring the next peer. -/
def StaysAlone (s : Station β) (history : List (Stimulus β)) : Prop :=
  s.Throughout (fun t _ => t.node.radio.connection = none) history

instance (s : Station β) (history : List (Stimulus β)) : Decidable (s.StaysAlone history) :=
  inferInstanceAs (Decidable (s.Throughout _ history))

theorem dwindles_after {s : Station β} {history : List (Stimulus β)} (h : s.StaysAlone history) :
    Dwindles .bluetooth s (s.after history) := by
  refine h.kept (fun t stimulus halone sofar => ?_) (.refl _ s)
  exact sofar.trans (dwindles_react t stimulus halone)

/-- On the first tick with nobody connected the outstanding message is dropped. -/
theorem outstanding_after {s : Station β} {history : List (Stimulus β)} (h : s.StaysAlone history)
    (htick : ∃ stimulus ∈ history, stimulus.IsTick) :
    (s.after history).node.transport.outstanding .bluetooth = none := by
  induction history generalizing s with
  | nil =>
    obtain ⟨stimulus, hmem, -⟩ := htick
    cases hmem
  | cons stimulus rest ih =>
    obtain ⟨stimulus', hmem, htick⟩ := htick
    cases hmem with
    | head =>
      have hdropped : (s.react stimulus).node.transport.outstanding .bluetooth = none := by
        cases stimulus with
        | tick inputs extensions =>
          exact (dwindles_tick s inputs extensions (unconnected_of_alone h.1)).2
        | _ => exact htick.elim
      exact (dwindles_after h.2).outstanding_eq_none hdropped
    | tail _ hmem => exact ih h.2 ⟨stimulus', hmem, htick⟩

/-! ## How a connection ends -/

theorem leaves_start (s : Station β) (c : Channel) : Leaves c s (s.react .start) := ⟨rfl, rfl, rfl⟩

/-- When another peer is reported, what was kept for the one before is kept for it. -/
theorem react_of_came {s : Station β} {byte handle : UInt8}
    (h : s.node.radio.peerChange? (.byte byte) = some (.came handle)) :
    (s.react (.radio byte)).node.radio.connection = some handle ∧
      Leaves .bluetooth s (s.react (.radio byte)) := by
  have hreceive := Radio.receive_of_came h s.radioWire
  simp only [react, receiveRadio, hreceive, takeRadioEvent]
  exact ⟨trivial, ⟨rfl, rfl, rfl⟩⟩

/-- When the end of a connection is reported, nothing is kept. -/
theorem clear_of_went {s : Station β} {byte : UInt8} (hconnected : s.node.radio.isConnected = true)
    (h : s.node.radio.peerChange? (.byte byte) = some .went) :
    Clear .bluetooth (s.react (.radio byte)) := by
  have hreceive := Radio.receive_of_went h s.radioWire
  rw [hconnected, if_pos rfl] at hreceive
  simp only [react, receiveRadio, hreceive, takeRadioEvent]
  refine ⟨rfl, Transport.outstanding_withSlot_self _ _ _, fun hsource => ?_⟩
  exact (Upload.source_abortFrom hsource).1 rfl

/-- **What the next peer finds depends on how the last connection ended.** After the module has
reported its end, nothing is kept until the next peer has come, whatever happens meanwhile. When the
module reports another peer instead, that one finds all that was kept for the one before. After a
start all of it is still there. While nobody is connected a tick drops the outstanding message, but
the queue stays as it is, and the next peer finds it so. -/
theorem left_behind (s : Station β) (history : List (Stimulus β)) :
    (∀ byte, s.node.radio.isConnected = true →
      s.node.radio.peerChange? (.byte byte) = some .went →
      (s.react (.radio byte)).StaysAlone history →
      Clear .bluetooth ((s.react (.radio byte)).after history)) ∧
    (∀ byte handle, s.node.radio.peerChange? (.byte byte) = some (.came handle) →
      (s.react (.radio byte)).node.radio.connection = some handle ∧
        Leaves .bluetooth s (s.react (.radio byte))) ∧
    Leaves .bluetooth s (s.react .start) ∧
    ((s.react .start).StaysAlone history →
      Dwindles .bluetooth s ((s.react .start).after history) ∧
        ((∃ stimulus ∈ history, stimulus.IsTick) →
          ((s.react .start).after history).node.transport.outstanding .bluetooth = none)) := by
  refine ⟨fun byte hconnected hwent halone => ?_, fun byte handle => react_of_came, s.leaves_start _,
    fun halone => ⟨?_, outstanding_after halone⟩⟩
  · exact (dwindles_after halone).clear (clear_of_went hconnected hwent)
  · exact (s.leaves_start .bluetooth).dwindles.trans (dwindles_after halone)

/-- The bytes with which the module reports an event. -/
def moduleSends (response : Response) : List (Stimulus Board) :=
  match response.toFrame with
  | .ok frame => frame.toBytes.map .radio
  | .error _ => []

/-- Ticks that issue the command of every stage, and the events that answer it. -/
def bringUp : List (Stimulus Board) :=
  Stage.all.flatMap fun stage =>
    plainTick :: moduleSends (.commandComplete stage.opcode Response.success .empty)

def connects (handle : UInt8) : List (Stimulus Board) :=
  moduleSends (.connectionComplete Response.success handle (.replicate 6 0))

/-- The peer with this handle sends a message. -/
def peerSends (handle : UInt8) (kind : Kind) (body : Bytes) : List (Stimulus Board) :=
  moduleSends (.transparentData handle (.ofPrefix (Message.packet kind body)))

/-- A peer has asked for the display lines and begun an upload, and a line was sent to it. -/
def visited : Station Board :=
  (boot Radio.hasty (.replicate 64 0xFF) {} {} {}).after (.start :: bringUp ++ connects 0x20 ++
    peerSends 0x20 .request [0x12] ++ peerSends 0x20 .uploadBegin [0, 9] ++ [plainTick])

/-- The module has reported the end of that connection, but for the last byte. -/
def leaving : Station Board := visited.after (moduleSends (.disconnectionComplete 0x20 0x13)).dropLast

/-- The next peer finds nothing of the one that has left. -/
theorem leaving_leaves_nothing :
    leaving.node.radio.isConnected = true ∧
      leaving.node.radio.peerChange? (.byte 0x58) = some .went ∧
      (leaving.react (.radio 0x58)).StaysAlone (connects 0x21) ∧
      Clear .bluetooth ((leaving.react (.radio 0x58)).after (connects 0x21)) := by
  have hconnected : leaving.node.radio.isConnected = true := by decide +kernel
  have hwent : leaving.node.radio.peerChange? (.byte 0x58) = some .went := by decide +kernel
  have halone : (leaving.react (.radio 0x58)).StaysAlone (connects 0x21) := by decide +kernel
  exact ⟨hconnected, hwent, halone, (left_behind leaving _).1 0x58 hconnected hwent halone⟩

/-- **A peer may inherit from another.** The module reports a second peer without the end of the first
connection: that peer finds the item, the outstanding message and the upload of the first. A start
and a new bring-up leave it the item and the upload. -/
theorem next_peer_inherits :
    let replaced := visited.after (connects 0x21)
    let restarted := visited.after (.start :: bringUp ++ connects 0x21)
    visited.node.radio.peer? = some 0x20 ∧
      (replaced.node.radio.peer? = some 0x21 ∧
        (replaced.node.queues.get .bluetooth).items = [⟨.displayLine, none⟩] ∧
        (replaced.node.transport.outstanding .bluetooth).isSome = true ∧
        replaced.node.upload.map Upload.source = some .bluetooth) ∧
      restarted.node.radio.peer? = some 0x21 ∧
      (restarted.node.queues.get .bluetooth).items = [⟨.displayLine, none⟩] ∧
      restarted.node.upload.map Upload.source = some .bluetooth := by
  decide +kernel

end Station

end RoomControl
