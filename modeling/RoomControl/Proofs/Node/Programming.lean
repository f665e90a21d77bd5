import RoomControl.Node.Messages
import RoomControl.Node.Tick

/-!
# The part of a station that concerns the program

A station's `Programming` is its machine, its upload and its memory. `Programming.Step` lists the
ways in which a call can change the three, and the laws here say that every call of the station
takes at most one such step: bytes and packets, the radio, the queues, the transport and the board
leave the three alone, and each kind of message has its own step.

A `Stimulus` is one thing that happens to a station: a call, or a change of what stands around it.
`Station.after` runs a history of them, and `step_react` says that each takes one step. A property of
the program over whole histories is therefore proved on the steps, and no later proof looks into a
message.
-/

set_option autoImplicit false

namespace RoomControl

/-- The machine, the upload and the memory of a station. -/
@[ext] structure Programming where
  machine : Machine
  upload : Option Upload
  memory : ProgramMemory

/-- What one call can do to the three. -/
inductive Programming.Step (p : Programming) : Programming → Prop
  /-- The call does not concern the program. -/
  | rest : Step p p
  /-- The image stays, and what the device behind it still does changes. -/
  | device {memory : ProgramMemory} : memory.image = p.memory.image →
      memory.refusesRead = p.memory.refusesRead → Step p { p with memory }
  /-- The stored program is started. -/
  | start : Step p { p with machine := (Machine.start p.memory).2 }
  /-- A state is scheduled. -/
  | enter (state : UInt8) : Step p { p with machine := p.machine.enter state }
  /-- The program is checked. -/
  | check (inputs : Ports) :
      Step p
        { p with
          machine := (p.machine.check p.memory inputs).machine
          memory := (p.machine.check p.memory inputs).memory }
  /-- The upload of a peer that is gone is given up. -/
  | drop (c : Channel) : Step p { p with upload := (Upload.abortFrom p.upload c).2 }
  /-- A peer asks for an upload, and the machine goes on as it was. -/
  | refuse {total : Nat} {c : Channel} {e : TransferError} {upload : Option Upload}
      {memory : ProgramMemory} :
      Upload.begin p.upload p.memory total c = (.error e, upload, memory) →
      Step p { p with upload, memory }
  /-- An upload is opened, and the machine stops. -/
  | open {total : Nat} {c : Channel} {upload : Option Upload} {memory : ProgramMemory} :
      Upload.begin p.upload p.memory total c = (.ok (), upload, memory) →
      Step p ⟨.idle, upload, memory⟩
  /-- A chunk is taken or refused, and completes nothing. -/
  | chunk {addr : Nat} {data : Bytes} {result : Except TransferError ChunkOutcome}
      {upload : Option Upload} {memory : ProgramMemory} :
      Upload.chunk p.upload p.memory addr data = (result, upload, memory) →
      result ≠ .ok .complete → Step p { p with upload, memory }
  /-- A chunk completes an upload, and the new program is started. -/
  | complete {addr : Nat} {data : Bytes} {upload : Option Upload} {memory : ProgramMemory} :
      Upload.chunk p.upload p.memory addr data = (.ok .complete, upload, memory) →
      Step p ⟨(Machine.start memory).2, upload, memory⟩

namespace Node

/-! ## Queued items -/

@[simp] theorem machine_notify (n : Node) (connected : Channel → Bool) (item : Item) :
    (n.notify connected item).machine = n.machine := by
  unfold notify
  induction Channel.all.filter connected generalizing n with
  | nil => rfl
  | cons c rest ih => exact ih _

@[simp] theorem upload_notify (n : Node) (connected : Channel → Bool) (item : Item) :
    (n.notify connected item).upload = n.upload := by
  unfold notify
  induction Channel.all.filter connected generalizing n with
  | nil => rfl
  | cons c rest ih => exact ih _

end Node

namespace Station

variable {β : Type}

/-- The part of a station that concerns the program. -/
def programming (s : Station β) : Programming := ⟨s.node.machine, s.node.upload, s.memory⟩

/-! ## What leaves the program alone -/

@[simp] theorem programming_transmit (s : Station β) (c : Channel) (payload : Bytes) :
    (s.transmit c payload).programming = s.programming := by
  unfold transmit
  cases c with
  | usb =>
    dsimp only
    split
    · rfl
    · rfl
  | bluetooth => rfl

@[simp] theorem programming_transmit? (s : Station β) (c : Channel) (payload : Option Bytes) :
    (s.transmit? c payload).programming = s.programming := by
  cases payload with
  | none => rfl
  | some bytes => exact programming_transmit s c bytes

theorem programming_triggerConnection (s : Station β) (visible : Bool) :
    (s.triggerConnection visible).2.programming = s.programming := by
  unfold triggerConnection
  dsimp only
  split
  · rfl
  · rfl

variable [Peripherals β]

theorem programming_drive (s : Station β) (connected : Channel → Bool) (device : Device)
    (value : Bytes) : (s.drive connected device value).2.programming = s.programming := by
  unfold drive
  dsimp only
  split
  · rfl
  · split
    · simp [programming]
    · rfl

/-- An action is carried out on the board, the radio and the queues. -/
@[simp] theorem programming_execute (s : Station β) (connected : Channel → Bool) (device : Device)
    (value : Bytes) : (s.execute connected device value).2.programming = s.programming := by
  unfold execute
  split
  · simp [programming]
  · split
    · exact programming_triggerConnection ..
    · rfl
  · split
    · exact programming_drive ..
    · rfl

@[simp] theorem programming_executeAll (s : Station β) (connected : Channel → Bool)
    (calls : List (Device × Bytes)) :
    (s.executeAll connected calls).2.programming = s.programming := by
  induction calls generalizing s with
  | nil => rfl
  | cons call rest ih =>
    show ((s.execute connected call.1 call.2).2.executeAll connected rest).2.programming = _
    rw [ih, programming_execute]

/-! ## Messages -/

omit [Peripherals β] in
theorem step_answerRequest (s : Station β) (c : Channel) (body : Bytes) :
    s.programming.Step (s.answerRequest c body).2.programming := by
  cases body with
  | nil => exact .rest
  | cons requested rest => exact .rest

omit [Peripherals β] in
theorem step_beginUpload (s : Station β) (c : Channel) (body : Bytes) :
    s.programming.Step (s.beginUpload c body).2.programming := by
  unfold beginUpload
  split
  · rename_i high low _
    cases hb : Upload.begin s.node.upload s.memory (word high low).toNat c with
    | mk result rest =>
      obtain ⟨upload, memory⟩ := rest
      cases result with
      | error e => exact .refuse hb
      | ok _ => exact .open hb
  · exact .rest

omit [Peripherals β] in
theorem programming_startUploaded (s : Station β) :
    s.startUploaded.2.programming =
      { s.programming with machine := (Machine.start s.memory).2 } := by
  unfold startUploaded
  dsimp only
  split
  · rfl
  · rfl

omit [Peripherals β] in
theorem step_takeChunk (s : Station β) (c : Channel) (body : Bytes) :
    s.programming.Step (s.takeChunk c body).2.programming := by
  unfold takeChunk
  split
  · rename_i high low count rest
    split
    · exact .rest
    · cases hc : Upload.chunk s.node.upload s.memory (word high low).toNat
        (rest.take count.toNat) with
      | mk result rest =>
        obtain ⟨upload, memory⟩ := rest
        dsimp only
        -- whether or not the closed upload is reported, only the queue of the node differs
        generalize hnode :
          (if (s.node.upload.isSome && upload.isNone) = true then
            ({ s.node with upload }.enqueue c ⟨.programState, none⟩).enqueue c ⟨.consistency, none⟩
          else { s.node with upload }) = node
        have hprog : ({ s with node, memory } : Station β).programming =
            ⟨s.node.machine, upload, memory⟩ := by
          subst hnode
          split
          · rfl
          · rfl
        cases result with
        | error e =>
          show s.programming.Step (programming { s with node, memory })
          rw [hprog]
          exact .chunk hc nofun
        | ok outcome =>
          cases outcome with
          | stored =>
            show s.programming.Step (programming { s with node, memory })
            rw [hprog]
            exact .chunk hc nofun
          | complete =>
            show s.programming.Step (startUploaded { s with node, memory }).2.programming
            rw [programming_startUploaded, hprog]
            exact .complete hc
  · exact .rest

omit [Peripherals β] in
theorem step_enterState (s : Station β) (c : Channel) (kind : Kind) (body : Bytes) :
    s.programming.Step (s.enterState c kind body).2.programming := by
  cases body with
  | nil => exact .rest
  | cons state rest => exact .enter state

theorem step_act (s : Station β) (c : Channel) (body : Bytes) :
    s.programming.Step (s.act c body).2.programming := by
  cases body with
  | nil => exact .rest
  | cons byte value =>
    unfold act
    dsimp only
    split
    · exact step_enterState s c .action value
    · have hkept := programming_execute s s.node.isConnected (Device.ofByte byte) value
      split
      · rename_i s' hexec
        rw [hexec] at hkept
        show s.programming.Step s'.programming
        rw [hkept]
        exact .rest
      · rename_i s' hexec
        rw [hexec] at hkept
        show s.programming.Step s'.programming
        rw [hkept]
        exact .rest

/-- **A message takes one step.** -/
theorem step_receiveMessage (s : Station β) (c : Channel) (bytes : Bytes) :
    s.programming.Step (s.receiveMessage c bytes).2.programming := by
  unfold receiveMessage
  split
  · exact .rest
  · rename_i kind body _
    split
    · exact .rest
    · -- the echo goes out first, and leaves the program alone
      dsimp only
      rw [← programming_transmit s c (echoOf bytes)]
      generalize s.transmit c (echoOf bytes) = s
      split
      · exact step_answerRequest s c body.bytes
      · exact step_beginUpload s c body.bytes
      · exact step_takeChunk s c body.bytes
      · exact step_enterState s c .enter body.bytes
      · exact step_act s c body.bytes
      · exact .rest

/-! ## Calls -/

omit [Peripherals β] in
theorem step_setUsbActive (s : Station β) (active : Bool) :
    s.programming.Step (s.withNode (s.node.setUsbActive active)).programming := by
  cases active with
  | true => exact .rest
  | false => exact .drop .usb

theorem step_receiveRadio (s : Station β) (byte : UInt8) :
    s.programming.Step (s.receiveRadio byte).2.programming := by
  unfold receiveRadio
  dsimp only
  split
  · exact .rest
  · rename_i event _
    unfold takeRadioEvent
    split
    · exact step_receiveMessage
        { s with
          node := { s.node with radio := (s.node.radio.receive s.radioWire byte).radio }
          radioWire := (s.node.radio.receive s.radioWire byte).wire } .bluetooth _
    · exact .drop .bluetooth
    · exact .rest
  · exact .rest
  · exact .rest

theorem step_receiveUsb (s : Station β) (byte : UInt8) :
    s.programming.Step (s.receiveUsb byte).2.programming := by
  unfold receiveUsb
  dsimp only
  split
  · exact .rest
  · exact .rest
  · rename_i frame _
    split
    · exact step_receiveMessage
        (s.withNode { s.node with usb := (s.node.usb.feed byte).2, usbActive := true }) .usb _
    · exact .rest

@[simp] theorem programming_tickChannel (s : Station β) (counters : Bytes)
    (extensions : PacketSource) (c : Channel) :
    (s.tickChannel counters extensions c).2.programming = s.programming := by
  have hwait : (s.tickTransport c).2.programming = s.programming := by
    unfold tickTransport
    dsimp only
    rw [programming_transmit?]
    rfl
  have hsend : ∀ (t : Station β) (source : PacketSource),
      (t.tickDispatch c source).2.programming = t.programming := by
    intro t source
    unfold tickDispatch
    dsimp only
    split
    · rw [programming_transmit?]
      rfl
    · rfl
  show ((s.tickTransport c).2.tickDispatch c _).2.programming = _
  rw [hsend, hwait]

theorem programming_checkProgram (s : Station β) (inputs : Vector UInt8 3) :
    (s.checkProgram inputs).2.2.programming =
      { s.programming with
        machine := (s.node.machine.check s.memory (s.ports inputs)).machine
        memory := (s.node.machine.check s.memory (s.ports inputs)).memory } := by
  unfold checkProgram
  dsimp only
  rw [programming_executeAll]
  rfl

theorem step_tickProgram (s : Station β) (inputs : Vector UInt8 3) :
    s.programming.Step (s.tickProgram inputs).2.2.programming := by
  unfold tickProgram
  dsimp only
  split
  · split
    · exact .rest
    · show s.programming.Step (s.checkProgram inputs).2.2.programming
      rw [programming_checkProgram]
      exact .check (s.ports inputs)
  · exact .rest

/-- The station as it stands when the tick comes to the program. -/
def beforeProgram (s : Station β) (extensions : PacketSource) : Station β :=
  let s := s.tickRadio.2
  let counters := s.node.debugCounters
  ((s.tickChannel counters extensions .usb).2.tickChannel counters extensions .bluetooth).2

theorem programming_beforeProgram (s : Station β) (extensions : PacketSource) :
    (s.beforeProgram extensions).programming = s.programming := by
  unfold beforeProgram
  dsimp only
  rw [programming_tickChannel, programming_tickChannel]
  rfl

theorem tick_eq (s : Station β) (inputs : Vector UInt8 3) (extensions : PacketSource) :
    (s.tick inputs extensions).1.check = ((s.beforeProgram extensions).tickProgram inputs).1 ∧
      (s.tick inputs extensions).2 = ((s.beforeProgram extensions).tickProgram inputs).2.2 :=
  ⟨rfl, rfl⟩

theorem step_tick (s : Station β) (inputs : Vector UInt8 3) (extensions : PacketSource) :
    s.programming.Step (s.tick inputs extensions).2.programming := by
  rw [(tick_eq s inputs extensions).2, ← programming_beforeProgram s extensions]
  exact step_tickProgram ..

end Station

/-! ## Histories -/

/-- What may happen to a station. -/
inductive Stimulus (β : Type) where
  /-- The node is started. -/
  | start
  /-- A byte comes from the radio module. -/
  | radio (byte : UInt8)
  /-- A byte comes from the USB bridge. -/
  | usb (byte : UInt8)
  /-- The USB host is there, or gone. -/
  | usbActive (active : Bool)
  /-- A tick, with the inputs as they are sampled and the packets of the board. -/
  | tick (inputs : Vector UInt8 3) (extensions : PacketSource)
  /-- The board changes by itself. -/
  | board (board : β)
  /-- The wires are emptied, or start or stop to fail. -/
  | wires (radioWire usbWire : Wire)
  /-- From now on the memory takes so many more writes; without a number it takes them all. -/
  | writes (left : Option Nat)
  /-- The owner of the image saves it. -/
  | saved

namespace Station

variable {β : Type} [Peripherals β]

/-- A station before the first start, over a memory with this image. -/
def boot (config : NodeConfig) (image : Array UInt8) (board : β) (radioWire usbWire : Wire) :
    Station β :=
  { node := .ofConfig config, radioWire, usbWire, memory := { image }, board }

/-- The station after a stimulus. -/
def react (s : Station β) : Stimulus β → Station β
  | .start => s.start.2
  | .radio byte => (s.receiveRadio byte).2
  | .usb byte => (s.receiveUsb byte).2
  | .usbActive active => s.withNode (s.node.setUsbActive active)
  | .tick inputs extensions => (s.tick inputs extensions).2
  | .board board => { s with board }
  | .wires radioWire usbWire => { s with radioWire, usbWire }
  | .writes left => { s with memory := { s.memory with writesLeft := left } }
  | .saved => { s with memory := s.memory.takeDirty.2 }

/-- The station after a history. -/
def after (s : Station β) (history : List (Stimulus β)) : Station β := history.foldl react s

/-- **Everything that happens to a station takes one step.** -/
theorem step_react (s : Station β) (stimulus : Stimulus β) :
    s.programming.Step (s.react stimulus).programming := by
  cases stimulus with
  | start => exact .start
  | radio byte => exact step_receiveRadio s byte
  | usb byte => exact step_receiveUsb s byte
  | usbActive active => exact step_setUsbActive s active
  | tick inputs extensions => exact step_tick s inputs extensions
  | board board => exact .rest
  | wires radioWire usbWire => exact .rest
  | writes left => exact .device rfl rfl
  | saved => exact .device rfl rfl

/-- What every step keeps, every history keeps. -/
theorem programming_after {P : Programming → Prop} (keeps : ∀ p p', P p → p.Step p' → P p')
    (s : Station β) (h : P s.programming) (history : List (Stimulus β)) :
    P (s.after history).programming := by
  induction history generalizing s with
  | nil => exact h
  | cons stimulus rest ih => exact ih (s.react stimulus) (keeps _ _ h (s.step_react stimulus))

end Station

end RoomControl
