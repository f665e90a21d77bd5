import RoomControl.Proofs.Node.Guarded
import RoomControl.Proofs.Node.Leftovers
import RoomControl.Proofs.Node.Stopped
import RoomControl.Proofs.Node.Transfers

/-!
# A message that comes twice

A peer that has missed an echo sends its message again. A transfer that comes again finds all done:
the upload is open or closed as the first has left it, and the memory holds what it brought. Ticks in
between change that as little as they can: while an upload is open the machine does not run, and
while none is open a chunk is refused whatever the memory holds, and an announcement that was refused
is refused again (`ignores_tick`). So nothing follows but another echo (`redelivery_harmless`). A
request to enter a state and an echo are the same twice in a row as once.
-/

set_option autoImplicit false

namespace RoomControl

open Upload (deliver)

theorem Machine.enter_enter (machine : Machine) (state : UInt8) :
    (machine.enter state).enter state = machine.enter state := by
  cases machine <;> rfl

theorem Transport.acknowledge_acknowledge (t : Transport) (c : Channel) (sum : UInt8) :
    (t.acknowledge c sum).acknowledge c sum = t.acknowledge c sum := by
  have hslot : ((t.acknowledge c sum).outstanding c).map (fun o => { o with echoed := some sum }) =
      (t.outstanding c).map fun o => { o with echoed := some sum } := by
    rw [acknowledge, outstanding_withSlot_self]
    cases t.outstanding c with
    | none => rfl
    | some o => rfl
  rw [acknowledge, hslot]
  cases c <;> rfl

theorem Kind.ne_echo {kind : Kind} (h : kind = .uploadBegin ∨ kind = .chunk) : kind ≠ .echo := by
  rintro rfl
  exact h.elim nofun nofun

/-! ## Transfers that are done -/

namespace Programming

/-- What is asked for on a channel changes nothing: it is done, or will be refused. -/
def Ignores (p : Programming) (c : Channel) : Option Transfer → Prop
  | none => True
  | some (.announce total) => ∃ result,
      Upload.begin p.upload p.memory total c = (result, p.upload, p.memory) ∧
        (result = .ok () → p.machine = .idle)
  | some (.supply piece) => (deliver (p.upload, p.memory) piece).2 = (p.upload, p.memory)

/-- With no upload open, the machine may run and the memory change as long as it does not grow. -/
theorem ignores_of_closed {p p' : Programming} {c : Channel} {asked : Option Transfer}
    (takes : p.memory.writesLeft = none) (closed : p.upload = none) (closed' : p'.upload = none)
    (hcapacity : p'.memory.capacity = p.memory.capacity) (h : p.Ignores c asked) :
    p'.Ignores c asked := by
  match asked with
  | none => trivial
  | some (.announce total) =>
    obtain ⟨result, hbegin, -⟩ := h
    rw [closed] at hbegin
    obtain ⟨e, hrefused⟩ := Upload.begin_of_capacity takes (congrArg Prod.snd hbegin) hcapacity
    rw [← closed'] at hrefused
    exact ⟨.error e, hrefused, nofun⟩
  | some (.supply piece) =>
    show (Upload.chunk p'.upload p'.memory piece.addr piece.data).2 = _
    rw [closed']
    rfl

end Programming

namespace Station

variable {β : Type}

/-! ## Channels that go on listening -/

/-- A channel listens, and its peer is noted as present. -/
structure Attends (s : Station β) (c : Channel) : Prop where
  listens : s.Listens c
  noticed : c = .usb → s.node.usbActive = true

/-- Between two states the readers stay, and whoever is there. -/
structure Tuned (s t : Station β) : Prop where
  usb : t.node.usb = s.node.usb
  usbActive : t.node.usbActive = s.node.usbActive
  line : t.node.radio.line = s.node.radio.line
  connection : t.node.radio.connection = s.node.radio.connection

theorem Arrives.attends {s : Station β} {c : Channel} {byte : UInt8} {bytes : Bytes}
    (h : s.Arrives c byte bytes) : (s.receiver c).Attends c := by
  refine ⟨h.listens, ?_⟩
  rintro rfl
  rfl

theorem Tuned.attends {s t : Station β} {c : Channel} (h : Tuned s t) (attends : s.Attends c) :
    t.Attends c := by
  obtain ⟨⟨framed, between, connected⟩, noticed⟩ := attends
  cases c with
  | usb => exact ⟨⟨trivial, h.usb.trans between, nofun⟩, fun hc => h.usbActive.trans (noticed hc)⟩
  | bluetooth =>
    refine ⟨⟨?_, ?_, fun hc => ?_⟩, nofun⟩
    · exact (congrArg LineReader.mode h.line).trans framed
    · exact (congrArg LineReader.frames h.line).trans between
    · rw [Radio.isConnected, h.connection]
      exact connected hc

theorem usb_takeChunk (s : Station β) (c : Channel) (body : Bytes) :
    (s.takeChunk c body).2.node.usb = s.node.usb := by
  unfold takeChunk startUploaded
  dsimp only
  repeat' split
  all_goals rfl

variable [Peripherals β]

theorem usb_follow (s : Station β) (c : Channel) (m : Message) :
    (s.follow c m).2.node.usb = s.node.usb := by
  unfold follow
  split
  · cases m.body.bytes with
    | nil => rfl
    | cons requested rest => rfl
  · unfold beginUpload
    dsimp only
    repeat' split
    all_goals rfl
  · exact usb_takeChunk ..
  · cases m.body.bytes with
    | nil => rfl
    | cons state rest => rfl
  · cases m.body.bytes with
    | nil => rfl
    | cons byte value =>
      unfold act
      dsimp only
      split
      · cases value with
        | nil => rfl
        | cons state rest => rfl
      · have hdriven := (driven_execute s s.node.isConnected (Device.ofByte byte) value).1
        split
        · rename_i hexec
          rw [hexec] at hdriven
          exact hdriven.usb
        · rename_i hexec
          rw [hexec] at hdriven
          exact hdriven.usb
  · rfl

/-- **A message leaves every channel listening as it was.** -/
theorem tuned_receiveMessage (s : Station β) (c : Channel) (bytes : Bytes) :
    Tuned s (s.receiveMessage c bytes).2 := by
  obtain ⟨radioWire, usbWire, hsent⟩ := s.transmit_eq c (echoOf bytes)
  have hnode : (s.transmit c (echoOf bytes)).node = s.node := by rw [hsent]
  have hactive : (s.receiveMessage c bytes).2.node.usbActive = s.node.usbActive ∧
      (s.receiveMessage c bytes).2.node.radio.connection = s.node.radio.connection := by
    have hreceived := s.received_receiveMessage c bytes
    generalize s.receiveMessage c bytes = answer at hreceived
    cases hreceived with
    | unanswered _ hinside _ => rw [hinside.radio, hinside.usbActive]; exact ⟨rfl, rfl⟩
    | answered _ hinside _ => rw [hinside.radio, hinside.usbActive, hnode]; exact ⟨rfl, rfl⟩
    | @acted device value answer _ hstation _ =>
      have hdriven := (driven_execute (s.transmit c (echoOf bytes))
        (s.transmit c (echoOf bytes)).node.isConnected device value).1
      rw [hstation, hdriven.usbActive, hdriven.radio.connection, hnode]
      exact ⟨rfl, rfl⟩
  refine ⟨?_, hactive.1, s.line_receiveMessage c bytes, hactive.2⟩
  cases hdecode : Message.decode bytes with
  | error e => simp only [receiveMessage_eq, hdecode]
  | ok m =>
    by_cases hkind : m.kind = .echo
    · rw [receiveMessage_of_echo s c hdecode hkind]
      rfl
    · rw [receiveMessage_of_kind s c hdecode hkind, usb_follow, hnode]

theorem tuned_tick (s : Station β) (inputs : Vector UInt8 3) (extensions : PacketSource) :
    Tuned s (s.tick inputs extensions).2 := by
  obtain ⟨husb, hactive⟩ := s.usb_tick inputs extensions
  refine ⟨husb, hactive, s.line_tick inputs extensions, ?_⟩
  have hbefore : (s.beforeProgram extensions).node.radio.connection = s.node.radio.connection := by
    unfold beforeProgram
    dsimp only
    rw [radio_tickChannel, radio_tickChannel]
    exact (s.node.radio.quiet_tick s.radioWire).1.connection
  rw [(tick_eq s inputs extensions).2, ← hbefore]
  generalize s.beforeProgram extensions = w
  rcases w.tickProgram_cases inputs with ⟨-, -, hprogram⟩ | ⟨-, evalElapsed, hprogram⟩
  · have hdriven := ((w.checked inputs).driven_executeAll w.node.isConnected
      (w.node.machine.check w.memory (w.ports inputs)).calls).1
    rw [hprogram]
    exact hdriven.radio.connection
  · rw [hprogram]
    rfl

/-- A frame from a peer that is noted as present. -/
theorem after_frame_of_attends {s : Station β} {c : Channel} (h : s.Attends c) {f : Frame}
    {bytes : Bytes} (carries : f.Carries bytes c) :
    s.after (f.toBytes.map (.byteOn c)) = (s.receiveMessage c bytes).2 := by
  have hnoticing : s.noticing c = s := by
    cases c with
    | usb =>
      show s.withNode { s.node with usbActive := true } = s
      rw [← h.noticed rfl]
      rfl
    | bluetooth => rfl
  rw [after_frame h.listens carries, hnoticing]

/-! ## The second time -/

section Second

variable {s : Station β} {c : Channel} {m : Message}

omit [Peripherals β] in
theorem ignores_beginUpload (takes : s.memory.writesLeft = none) (body : Bytes) :
    (s.beginUpload c body).2.programming.Ignores c (Transfer.ofAnnouncement body) := by
  rcases body with _ | ⟨high, _ | ⟨low, rest⟩⟩
  · trivial
  · trivial
  · have again := Upload.begin_again takes s.node.upload (word high low).toNat c
    simp only [beginUpload, Transfer.ofAnnouncement]
    generalize Upload.begin s.node.upload s.memory (word high low).toNat c = begun at again
    obtain ⟨result, upload, memory⟩ := begun
    cases result with
    | error e => exact ⟨.error e, again, fun hok => by cases hok⟩
    | ok _ => exact ⟨.ok (), again, fun _ => rfl⟩

/-- **What a message asks for is then done.** -/
theorem ignores_follow (takes : s.memory.writesLeft = none)
    (hkind : m.kind = .uploadBegin ∨ m.kind = .chunk) :
    (s.follow c m).2.programming.Ignores c m.transfer? := by
  rcases hkind with hkind | hkind
  · simp only [follow, Message.transfer?, hkind]
    exact ignores_beginUpload takes m.body.bytes
  · have hagain := Transfer.apply_again (s := s.session) c takes m.transfer?
    rw [← session_follow] at hagain
    simp only [Message.transfer?, hkind] at hagain ⊢
    cases hasked : Transfer.ofChunk m.body.bytes with
    | none => trivial
    | some asked =>
      cases asked with
      | announce total =>
        -- a chunk announces nothing
        unfold Transfer.ofChunk at hasked
        split at hasked
        · split at hasked
          · cases hasked
          · cases hasked
        · cases hasked
      | supply piece =>
        rw [hasked] at hagain
        exact hagain

/-- **What is done already** is not done again. -/
theorem follow_of_ignores (hkind : m.kind = .uploadBegin ∨ m.kind = .chunk)
    (h : s.programming.Ignores c m.transfer?) : (s.follow c m).2 = s := by
  rcases hkind with hkind | hkind
  · simp only [follow, Message.transfer?, hkind] at h ⊢
    rcases hbody : m.body.bytes with _ | ⟨high, _ | ⟨low, rest⟩⟩
    · rfl
    · rfl
    · rw [hbody] at h
      obtain ⟨result, hbegin, hidle⟩ := h
      have hbegin : Upload.begin s.node.upload s.memory (word high low).toNat c =
          (result, s.node.upload, s.memory) := hbegin
      simp only [beginUpload, hbegin]
      cases result with
      | error e => rfl
      | ok _ =>
        have hmachine : s.node.machine = .idle := hidle rfl
        show s.withNode { s.node with machine := .idle } = s
        rw [← hmachine]
        rfl
  · simp only [follow, Message.transfer?, hkind] at h ⊢
    rcases hbody : m.body.bytes with _ | ⟨high, _ | ⟨low, _ | ⟨count, data⟩⟩⟩
    · rfl
    · rfl
    · rfl
    · rw [hbody] at h
      by_cases hshort : data.length < count.toNat
      · simp only [takeChunk, if_pos hshort]
      · simp only [takeChunk, Transfer.ofChunk, if_neg hshort] at h ⊢
        have h : (Upload.chunk s.node.upload s.memory (word high low).toNat
            (data.take count.toNat)).2 = (s.node.upload, s.memory) := h
        generalize hchunk : Upload.chunk s.node.upload s.memory (word high low).toNat
          (data.take count.toNat) = taken at h ⊢
        obtain ⟨result, upload, memory⟩ := taken
        cases h
        have hclosed : (s.node.upload.isSome && s.node.upload.isNone) = false := by
          cases s.node.upload <;> rfl
        dsimp only
        rw [hclosed, if_neg Bool.false_ne_true]
        cases result with
        | error e => rfl
        | ok outcome =>
          cases outcome with
          | stored => rfl
          | complete =>
            -- a chunk that completes an upload closes it
            obtain ⟨u, hopen, -⟩ := Upload.closes_of_complete hchunk
            rw [Upload.upload_of_complete hchunk] at hopen
            cases hopen

end Second

/-! ## Ticks in between -/

/-- Of a tick only the check concerns the program. -/
theorem programming_tick (s : Station β) (inputs : Vector UInt8 3) (extensions : PacketSource) :
    (s.tick inputs extensions).2.programming = s.programming ∨
      s.node.machine.IsRunning ∧ ∃ ports : Ports, (s.tick inputs extensions).2.programming =
        { s.programming with
          machine := (s.node.machine.check s.memory ports).machine
          memory := (s.node.machine.check s.memory ports).memory } := by
  have hbefore := programming_beforeProgram s extensions
  rw [(tick_eq s inputs extensions).2]
  show _ ∨ s.programming.machine.IsRunning ∧ ∃ ports : Ports, _ =
    { s.programming with
      machine := (s.programming.machine.check s.programming.memory ports).machine
      memory := (s.programming.machine.check s.programming.memory ports).memory }
  rw [← hbefore]
  generalize s.beforeProgram extensions = w
  unfold tickProgram
  split
  · rename_i hrunning
    dsimp only
    split
    · exact .inl rfl
    · exact .inr ⟨hrunning, w.ports inputs, programming_checkProgram w inputs⟩
  · exact .inl rfl

/-- What was asked for on a channel is done, and the same may come again. -/
structure Settled (s : Station β) (c : Channel) (asked : Option Transfer) : Prop where
  attends : s.Attends c
  guarded : s.programming.Guarded
  takes : s.memory.writesLeft = none
  ignores : s.programming.Ignores c asked

section Settled

variable {s : Station β} {c : Channel} {asked : Option Transfer}

/-- **A tick leaves done what is done.** -/
theorem Settled.tick (h : s.Settled c asked) (inputs : Vector UInt8 3)
    (extensions : PacketSource) : (s.tick inputs extensions).2.Settled c asked := by
  have attends := (s.tuned_tick inputs extensions).attends h.attends
  have guarded := Programming.guarded_of_step _ _ h.guarded (s.step_tick inputs extensions)
  rcases s.programming_tick inputs extensions with hsame | ⟨hrunning, ports, hchecked⟩
  · refine ⟨attends, guarded, ?_, ?_⟩
    · exact (congrArg (·.memory.writesLeft) hsame).trans h.takes
    · rw [hsame]
      exact h.ignores
  · -- a machine that runs has no upload beside it
    have hclosed : s.node.upload = none := by
      cases hopen : s.node.upload with
      | none => rfl
      | some u => exact absurd hrunning (h.guarded.not_running hopen)
    have hagrees := Machine.agreesFrom_check s.node.machine s.memory ports
    have htakes : (s.node.machine.check s.memory ports).memory.writesLeft = none := by
      have went := Machine.went_on_of_check s.node.machine s.memory ports
      generalize (s.node.machine.check s.memory ports).memory = memory at went
      generalize (s.node.machine.check s.memory ports).machine = machine at went
      cases went with
      | marked _ hwrite => exact ProgramMemory.takes_of_write h.takes hwrite
      | _ => exact h.takes
    refine ⟨attends, guarded, (congrArg (·.memory.writesLeft) hchecked).trans htakes, ?_⟩
    rw [hchecked]
    exact Programming.ignores_of_closed h.takes hclosed hclosed hagrees.capacity_eq h.ignores

theorem Settled.ticks (h : s.Settled c asked) {ticks : List (Stimulus β)}
    (hticks : ∀ stimulus ∈ ticks, stimulus.IsTick) : (s.after ticks).Settled c asked := by
  induction ticks generalizing s with
  | nil => exact h
  | cons stimulus rest ih =>
    have hrest := fun other hmem => hticks other (List.mem_cons_of_mem _ hmem)
    have htick := hticks stimulus (List.mem_cons_self ..)
    cases stimulus with
    | tick inputs extensions => exact ih (h.tick inputs extensions) hrest
    | _ => exact htick.elim

variable {byte : UInt8} {bytes : Bytes} {m : Message}

theorem settled_of_arrives (guarded : s.programming.Guarded) (takes : s.memory.writesLeft = none)
    (arrives : s.Arrives c byte bytes) (hm : Message.decode bytes = .ok m)
    (hkind : m.kind = .uploadBegin ∨ m.kind = .chunk) :
    (s.react (.byteOn c byte)).Settled c m.transfer? := by
  have hecho := Kind.ne_echo hkind
  have guarded' := Programming.guarded_of_step _ _ guarded (s.step_react (.byteOn c byte))
  rw [react_byteOn, receiveOn_of_arrives arrives] at guarded' ⊢
  have attends := ((s.receiver c).tuned_receiveMessage c bytes).attends arrives.attends
  rw [receiveMessage_of_kind _ c hm hecho] at guarded' attends ⊢
  have takes' : ((s.receiver c).transmit c (echoOf bytes)).memory.writesLeft = none := by
    have hsent := (s.receiver c).programming_transmit c (echoOf bytes)
    rw [programming_receiver] at hsent
    exact (congrArg (·.memory.writesLeft) hsent).trans takes
  generalize (s.receiver c).transmit c (echoOf bytes) = t at guarded' attends takes' ⊢
  refine ⟨attends, guarded', ?_, ignores_follow takes' hkind⟩
  have hsession := t.session_follow c m
  exact (congrArg (·.2.writesLeft) hsession).trans (Transfer.takes_apply c takes' m.transfer?)

/-- **A transfer that comes again** is echoed, and that is all. -/
theorem Settled.again (h : s.Settled c m.transfer?) (hm : Message.decode bytes = .ok m)
    (hkind : m.kind = .uploadBegin ∨ m.kind = .chunk) {f : Frame} (carries : f.Carries bytes c) :
    s.after (f.toBytes.map (.byteOn c)) = s.transmit c (echoOf bytes) := by
  have hecho := Kind.ne_echo hkind
  rw [after_frame_of_attends h.attends carries, receiveMessage_of_kind _ c hm hecho]
  refine follow_of_ignores hkind ?_
  rw [programming_transmit]
  exact h.ignores

end Settled

/-! ## Redelivery -/

/-- The second state differs from the first by an echo of these bytes, and by nothing else. -/
structure OnlyEchoed (s t : Station β) (c : Channel) (bytes : Bytes) : Prop where
  node : t.node = s.node
  memory : t.memory = s.memory
  board : t.board = s.board
  sends : t = s.transmit c (echoOf bytes)

omit [Peripherals β] in
theorem onlyEchoed_of_eq {s t : Station β} {c : Channel} {bytes : Bytes}
    (h : t = s.transmit c (echoOf bytes)) : OnlyEchoed s t c bytes := by
  obtain ⟨radioWire, usbWire, hsent⟩ := s.transmit_eq c (echoOf bytes)
  refine ⟨?_, ?_, ?_, h⟩
  all_goals rw [h, hsent]

/-- **Redelivery is harmless**, after any history and on either channel, while the memory takes its
writes. An announcement or a chunk that comes again, at once or after any ticks, is echoed and changes
nothing. So does a request to enter a state that comes again at once, and an echo not even that. -/
theorem redelivery_harmless (config : NodeConfig) (image : Array UInt8) (board : β)
    (radioWire usbWire : Wire) (history : List (Stimulus β)) {c : Channel} {byte : UInt8}
    {bytes : Bytes} {m : Message} {f : Frame} :
    let s := (boot config image board radioWire usbWire).after history
    s.memory.writesLeft = none → s.Arrives c byte bytes → Message.decode bytes = .ok m →
      f.Carries bytes c →
      let first := s.react (.byteOn c byte)
      let again := f.toBytes.map (.byteOn c)
      (m.kind = .uploadBegin ∨ m.kind = .chunk →
        ∀ ticks : List (Stimulus β), (∀ stimulus ∈ ticks, stimulus.IsTick) →
          OnlyEchoed (first.after ticks) ((first.after ticks).after again) c bytes) ∧
      (m.kind = .enter → OnlyEchoed first (first.after again) c bytes) ∧
      (m.kind = .echo → first.after again = first) := by
  intro s takes arrives hm carries first again
  have guarded : s.programming.Guarded := guarded_after config image board radioWire usbWire history
  have hfirst : first = ((s.receiver c).receiveMessage c bytes).2 := by
    show s.react (.byteOn c byte) = _
    rw [react_byteOn, receiveOn_of_arrives arrives]
  have attends : first.Attends c := by
    rw [hfirst]
    exact ((s.receiver c).tuned_receiveMessage c bytes).attends arrives.attends
  refine ⟨fun hkind ticks hticks => ?_, fun hkind => ?_, fun hkind => ?_⟩
  · have settled := settled_of_arrives guarded takes arrives hm hkind
    exact onlyEchoed_of_eq ((settled.ticks hticks).again hm hkind carries)
  · have hecho : m.kind ≠ .echo := by
      rw [hkind]
      nofun
    refine onlyEchoed_of_eq ?_
    show first.after again = _
    rw [after_frame_of_attends attends carries, receiveMessage_of_kind _ c hm hecho]
    rw [receiveMessage_of_kind _ c hm hecho] at hfirst
    simp only [follow, hkind] at hfirst ⊢
    cases hbody : m.body.bytes with
    | nil => rfl
    | cons state rest =>
      -- the state is scheduled already
      rw [hbody] at hfirst
      have hentered : (first.transmit c (echoOf bytes)).node.machine.enter state =
          (first.transmit c (echoOf bytes)).node.machine := by
        have hmachine : (first.transmit c (echoOf bytes)).node.machine = first.node.machine :=
          congrArg Programming.machine (first.programming_transmit c (echoOf bytes))
        rw [hmachine, hfirst]
        exact Machine.enter_enter _ state
      show (first.transmit c (echoOf bytes)).withNode
        { (first.transmit c (echoOf bytes)).node with
          machine := (first.transmit c (echoOf bytes)).node.machine.enter state } = _
      rw [hentered]
      rfl
  · show first.after again = _
    rw [after_frame_of_attends attends carries, receiveMessage_of_echo _ c hm hkind]
    rw [receiveMessage_of_echo _ c hm hkind] at hfirst
    rw [hfirst]
    cases hbody : m.body.bytes with
    | nil => rfl
    | cons sum rest =>
      have hnoted := Transport.acknowledge_acknowledge (s.receiver c).node.transport c sum
      simp only [takeEcho, List.head?_cons, withNode, accept]
      rw [hnoted]

/-- A whole program of eight bytes, in one chunk. -/
def wholeProgram : Bytes := Message.packet .chunk [0, 0, 8, 0x5A, 1, 0, 6, 0, 7, 0, 0]

def wholeFrame : Frame := ⟨Response.dataOpcode, .ofPrefix wholeProgram⟩

/-- The program is announced, and its chunk comes up to the checksum. -/
def uploading : List (Stimulus Board) :=
  usbMessage .uploadBegin [0, 8] ++ wholeFrame.toBytes.dropLast.map (.byteOn .usb)

def halfway : Station Board := (boot Radio.hasty (.replicate 64 0xFF) {} {} {}).after uploading

/-- The chunk has come, and two ticks have passed. -/
def loaded : Station Board :=
  (halfway.react (.byteOn .usb wholeFrame.checksum)).after [plainTick, plainTick]

/-- The chunk that completes a program comes again when the program runs. -/
theorem last_chunk_comes_again :
    halfway.Arrives .usb wholeFrame.checksum wholeProgram ∧ loaded.node.machine.IsRunning ∧
      OnlyEchoed loaded (loaded.after (wholeFrame.toBytes.map (.byteOn .usb))) .usb wholeProgram := by
  have htakes : halfway.memory.writesLeft = none := by decide +kernel
  have hreader : halfway.reader .usb =
      .checksum wholeFrame.lengthField wholeFrame.opcode wholeFrame.payload := by decide +kernel
  have harrives : halfway.Arrives .usb wholeFrame.checksum wholeProgram := by
    refine ⟨trivial, nofun, wholeFrame, ?_, rfl, rfl⟩
    rw [hreader]
    exact FrameReader.feed_checksum wholeFrame
  have hticks : ∀ stimulus ∈ [plainTick, plainTick], Stimulus.IsTick (β := Board) stimulus := by
    intro stimulus hmem
    simp only [List.mem_cons, List.not_mem_nil, or_false, or_self] at hmem
    rw [hmem]
    trivial
  unfold halfway at htakes
  have harmless := redelivery_harmless _ _ _ _ _ uploading (f := wholeFrame) htakes harrives rfl
    ⟨rfl, rfl⟩
  exact ⟨harrives, by decide +kernel, harmless.1 (.inr rfl) [plainTick, plainTick] hticks⟩

end Station

end RoomControl
