import RoomControl.Peripherals.Board
import RoomControl.Proofs.Node.History
import RoomControl.Proofs.Program.Loops
import RoomControl.Proofs.Program.Pieces
import RoomControl.Proofs.Program.Upload

/-!
# A program that looped stays stopped

A loop stops the machine and puts down the status byte of a disabled program. A start refuses such a
program, and of everything that may happen to a station only the last chunk of an upload enables it
again (`closes_of_enables`). `Programming.Halted` is the state in between: every step keeps it that
does not enable the program (`halted_of_step`), so a station stays there until an upload is complete
(`halted_after`), and no tick checks anything or carries out an action (`stays_stopped`).
-/

set_option autoImplicit false

namespace RoomControl

/-! ## The status byte -/

/-- A disabled program is not enabled. -/
theorem ProgramMemory.not_enabled {m : ProgramMemory} (h : m.byteAt 0 = statusDisabled) :
    m.byteAt 0 ≠ statusEnabled := by
  rw [h]
  decide

namespace Upload

variable {open? : Option Upload} {m m' : ProgramMemory} {upload : Option Upload} {addr : Nat}
variable {data : Bytes} {result : Except TransferError ChunkOutcome}

theorem status_of_finish (u : Upload) (m : ProgramMemory) : (u.finish m).2.byteAt 0 =
    if (u.finish m).1 = .ok .complete then statusEnabled else m.byteAt 0 := by
  unfold finish
  cases hcount : m.write 1 [u.heldCount] with
  | error e => rfl
  | ok m₁ =>
    have hkept : m₁.byteAt 0 = m.byteAt 0 :=
      (ProgramMemory.written_of_write hcount).byteAt_of_lt (by decide)
    dsimp only
    split
    · exact hkept
    · cases henable : m₁.write 0 [statusEnabled] with
      | error e => exact hkept
      | ok m₂ => exact (ProgramMemory.written_of_write henable).byteAt_eq 0

/-- **Only the chunk that completes an upload touches the status byte.** -/
theorem status_of_chunk (h : chunk open? m addr data = (result, upload, m')) :
    m'.byteAt 0 = if result = .ok .complete then statusEnabled else m.byteAt 0 := by
  have htaken := taken_chunk open? m addr data
  rw [h] at htaken
  generalize hanswer : (result, upload, m') = answer at htaken
  cases htaken with
  | closed => cases hanswer; rfl
  | outOfRange _ => cases hanswer; rfl
  | failed _ _ => cases hanswer; rfl
  | stored _ _ hstore =>
    cases hanswer
    exact (stored_of_store hstore).header 0 (by decide)
  | @finished u m₁ _ _ hstore =>
    cases hanswer
    rw [status_of_finish, (stored_of_store hstore).header 0 (by decide)]

/-- The upload that a chunk completes is open, and ends where the chunk does. -/
theorem closes_of_complete (h : chunk open? m addr data = (.ok .complete, upload, m')) :
    ∃ u, open? = some u ∧ addr + data.length = u.total := by
  have htaken := taken_chunk open? m addr data
  rw [h] at htaken
  generalize hanswer : (Except.ok ChunkOutcome.complete, upload, m') = answer at htaken
  cases htaken with
  | closed => cases hanswer
  | outOfRange _ => cases hanswer
  | failed _ _ => cases hanswer
  | stored _ _ _ => cases hanswer
  | @finished u _ _ hend _ => exact ⟨u, rfl, hend⟩

end Upload

/-! ## Steps that do not revive the program -/

namespace Programming

/-- The machine does not run, and the stored program is disabled. -/
structure Halted (p : Programming) : Prop where
  stopped : ¬ p.machine.IsRunning
  disabled : p.memory.byteAt 0 = statusDisabled

/-- **A program that is halted stays so**, as long as nothing enables it. -/
theorem halted_of_step {p p' : Programming} (h : p.Halted) (step : p.Step p')
    (hstatus : p'.memory.byteAt 0 ≠ statusEnabled) : p'.Halted := by
  obtain ⟨hstopped, hdisabled⟩ := h
  cases step with
  | rest => exact ⟨hstopped, hdisabled⟩
  | @device memory himage _ =>
    refine ⟨hstopped, ?_⟩
    simp only [ProgramMemory.byteAt, himage]
    exact hdisabled
  | start =>
    refine ⟨?_, hdisabled⟩
    -- a start asks for the status byte first
    have started := Machine.started_of_start p.memory
    generalize Machine.start p.memory = started at started
    cases started with
    | running henabled _ _ => exact absurd henabled hstatus
    | refused hstop => exact hstop
  | enter state => exact ⟨mt Machine.isRunning_enter.mp hstopped, hdisabled⟩
  | check inputs =>
    have went := Machine.went_on_of_check p.machine p.memory inputs
    generalize (p.machine.check p.memory inputs).machine = machine at went
    generalize (p.machine.check p.memory inputs).memory = memory at went
    cases went with
    | unchanged => exact ⟨hstopped, hdisabled⟩
    | settled hrun _ => exact absurd (Machine.isRunning_of_eq hrun) hstopped
    | ended hrun => exact absurd (Machine.isRunning_of_eq hrun) hstopped
    | marked hrun _ => exact absurd (Machine.isRunning_of_eq hrun) hstopped
  | drop c => exact ⟨hstopped, hdisabled⟩
  | @refuse total c e upload memory hbegin =>
    have hbegun := Upload.begun_begin p.upload p.memory total c
    rw [hbegin] at hbegun
    cases hbegun with
    | refused _ => exact ⟨hstopped, hdisabled⟩
    | failed _ => exact ⟨hstopped, hdisabled⟩
  | @«open» total c upload memory hbegin =>
    have hbegun := Upload.begun_begin p.upload p.memory total c
    rw [hbegin] at hbegun
    cases hbegun with
    | opened _ _ hwrite => exact ⟨id, (ProgramMemory.written_of_write hwrite).byteAt_eq 0⟩
  | chunk hchunk hresult =>
    have hkept := Upload.status_of_chunk hchunk
    rw [if_neg hresult] at hkept
    exact ⟨hstopped, hkept.trans hdisabled⟩
  | complete hchunk => exact absurd (Upload.status_of_chunk hchunk) hstatus

end Programming

/-! ## What enables the stored program -/

namespace Station

variable {β : Type}

/-- The status byte of the stored program. -/
def status (s : Station β) : UInt8 := s.memory.byteAt 0

/-- The bytes are the message of a chunk that ends where the open upload does. -/
def EndsUpload (s : Station β) (bytes : Bytes) : Prop :=
  ∃ chunk ∈ Message.chunk? bytes, ∃ u ∈ s.node.upload, chunk.1 + chunk.2.length = u.total

instance (s : Station β) (bytes : Bytes) : Decidable (s.EndsUpload bytes) :=
  inferInstanceAs (Decidable (∃ _ ∈ _, _))

/-- Opening an upload enables nothing. -/
theorem enabled_of_beginUpload {s : Station β} {c : Channel} {body : Bytes}
    (h : (s.beginUpload c body).2.status = statusEnabled) : s.status = statusEnabled := by
  unfold beginUpload at h
  split at h
  · rename_i high low _
    have hbegun := Upload.begun_begin s.node.upload s.memory (word high low).toNat c
    generalize Upload.begin s.node.upload s.memory (word high low).toNat c = begun at hbegun h
    cases hbegun with
    | refused _ => exact h
    | failed _ => exact h
    | opened _ _ hwrite =>
      exact absurd h
        (ProgramMemory.not_enabled ((ProgramMemory.written_of_write hwrite).byteAt_eq 0))
  · exact h

theorem memory_startUploaded (s : Station β) : s.startUploaded.2.memory = s.memory := by
  unfold startUploaded
  dsimp only
  split
  · rfl
  · rfl

theorem memory_takeChunk (s : Station β) (c : Channel) {high low count : UInt8} {data : Bytes}
    (h : ¬ data.length < count.toNat) :
    (s.takeChunk c (high :: low :: count :: data)).2.memory =
      (Upload.chunk s.node.upload s.memory (word high low).toNat (data.take count.toNat)).2.2 := by
  simp only [takeChunk, if_neg h]
  generalize Upload.chunk s.node.upload s.memory _ _ = taken
  obtain ⟨result, upload, memory⟩ := taken
  cases result with
  | error e => rfl
  | ok outcome =>
    cases outcome with
    | stored => rfl
    | complete => exact memory_startUploaded _

/-- A chunk enables the stored program if it completes the upload. -/
theorem enabled_of_takeChunk {s : Station β} {c : Channel} {high low count : UInt8} {data : Bytes}
    (h : (s.takeChunk c (high :: low :: count :: data)).2.status = statusEnabled) :
    s.status = statusEnabled ∨ ∃ u, s.node.upload = some u ∧
      (word high low).toNat + (data.take count.toNat).length = u.total := by
  by_cases hshort : data.length < count.toNat
  · simp only [takeChunk, if_pos hshort] at h
    exact .inl h
  · rw [status, memory_takeChunk s c hshort] at h
    generalize hchunk : Upload.chunk s.node.upload s.memory _ _ = taken at h
    obtain ⟨result, upload, memory⟩ := taken
    have hstatus := Upload.status_of_chunk hchunk
    by_cases hcomplete : result = .ok .complete
    · subst hcomplete
      exact .inr (Upload.closes_of_complete hchunk)
    · rw [if_neg hcomplete] at hstatus
      exact .inl (hstatus.symm.trans h)

theorem memory_answerRequest (s : Station β) (c : Channel) (body : Bytes) :
    (s.answerRequest c body).2.memory = s.memory := by
  cases body with
  | nil => rfl
  | cons requested rest => rfl

theorem memory_enterState (s : Station β) (c : Channel) (kind : Kind) (body : Bytes) :
    (s.enterState c kind body).2.memory = s.memory := by
  cases body with
  | nil => rfl
  | cons state rest => rfl

variable [Peripherals β]

theorem memory_act (s : Station β) (c : Channel) (body : Bytes) :
    (s.act c body).2.memory = s.memory := by
  cases body with
  | nil => rfl
  | cons byte value =>
    unfold act
    dsimp only
    split
    · exact memory_enterState ..
    · have hkept := programming_execute s s.node.isConnected (Device.ofByte byte) value
      split
      · rename_i s' hexec
        rw [hexec] at hkept
        exact congrArg Programming.memory hkept
      · rename_i s' hexec
        rw [hexec] at hkept
        exact congrArg Programming.memory hkept

/-- **Only the last chunk of an upload enables the stored program.** -/
theorem endsUpload_of_enabled {s : Station β} {c : Channel} {bytes : Bytes}
    (h : (s.receiveMessage c bytes).2.status = statusEnabled) :
    s.status = statusEnabled ∨ s.EndsUpload bytes := by
  unfold receiveMessage at h
  split at h
  · exact .inl h
  · rename_i kind body hdecode
    split at h
    · exact .inl h
    · -- the echo goes out first, and leaves the program alone
      have hsent := programming_transmit s c (echoOf bytes)
      have hmemory : (s.transmit c (echoOf bytes)).status = s.status :=
        congrArg (fun p => p.memory.byteAt 0) hsent
      have hupload : (s.transmit c (echoOf bytes)).node.upload = s.node.upload :=
        congrArg Programming.upload hsent
      dsimp only at h
      rw [← hmemory]
      unfold EndsUpload
      rw [← hupload]
      generalize s.transmit c (echoOf bytes) = s at h
      split at h
      · rw [status, memory_answerRequest] at h
        exact .inl h
      · exact .inl (enabled_of_beginUpload h)
      · match hbody : body.bytes with
        | high :: low :: count :: data =>
          rw [hbody] at h
          refine (enabled_of_takeChunk h).imp_right fun ⟨u, hopen, hend⟩ => ?_
          refine ⟨((word high low).toNat, data.take count.toNat), ?_, u, hopen, hend⟩
          simp only [Message.chunk?, hdecode, hbody, Option.mem_def]
        | [high, low] => exact .inl (by rw [hbody] at h; exact h)
        | [high] => exact .inl (by rw [hbody] at h; exact h)
        | [] => exact .inl (by rw [hbody] at h; exact h)
      · rw [status, memory_enterState] at h
        exact .inl h
      · rw [status, memory_act] at h
        exact .inl h
      · exact .inl h

/-! ## What revives a program -/

/-- The stimulus brings the last chunk of the open upload, and the stored program is enabled. -/
def Revives (s : Station β) (stimulus : Stimulus β) : Prop :=
  ∃ bytes ∈ s.heardBy stimulus, s.EndsUpload bytes ∧ (s.react stimulus).status = statusEnabled

instance (s : Station β) (stimulus : Stimulus β) : Decidable (s.Revives stimulus) :=
  inferInstanceAs (Decidable (∃ _ ∈ _, _ ∧ _))

/-- No stimulus of a history revives the program. -/
def StaysUnrevived (s : Station β) (history : List (Stimulus β)) : Prop :=
  s.Throughout (fun t stimulus => ¬ t.Revives stimulus) history

instance (s : Station β) (history : List (Stimulus β)) : Decidable (s.StaysUnrevived history) :=
  inferInstanceAs (Decidable (s.Throughout _ history))

theorem enabled_of_receiveRadio {s : Station β} {byte : UInt8}
    (h : (s.receiveRadio byte).2.status = statusEnabled) :
    s.status = statusEnabled ∨ ∃ bytes ∈ s.heardBy (.radio byte), s.EndsUpload bytes := by
  unfold receiveRadio at h
  dsimp only at h
  split at h
  · exact .inl h
  · rename_i event hresult
    unfold takeRadioEvent at h
    split at h
    · rename_i bytes
      rcases endsUpload_of_enabled h with hbefore | hends
      · exact .inl hbefore
      · refine .inr ⟨bytes.bytes, ?_, hends⟩
        simp only [heardBy, taking, hresult, Option.map_some, Option.toList_some,
          List.mem_singleton]
    · exact .inl h
    · exact .inl h
  · exact .inl h
  · exact .inl h

theorem enabled_of_receiveUsb {s : Station β} {byte : UInt8}
    (h : (s.receiveUsb byte).2.status = statusEnabled) :
    s.status = statusEnabled ∨ ∃ bytes ∈ s.heardBy (.usb byte), s.EndsUpload bytes := by
  unfold receiveUsb at h
  dsimp only at h
  split at h
  · exact .inl h
  · exact .inl h
  · rename_i frame hfed
    split at h
    · rename_i hopcode
      rcases endsUpload_of_enabled h with hbefore | hends
      · exact .inl hbefore
      · refine .inr ⟨frame.payload.bytes, ?_, hends⟩
        simp only [heardBy, taking, hfed, if_pos hopcode, Option.map_some, Option.toList_some,
          List.mem_singleton]
    · exact .inl h

/-- A check may disable the stored program, and never enables it. -/
theorem enabled_of_tick {s : Station β} {inputs : Vector UInt8 3} {extensions : PacketSource}
    (h : (s.tick inputs extensions).2.status = statusEnabled) : s.status = statusEnabled := by
  have hbefore : (s.beforeProgram extensions).status = s.status :=
    congrArg (fun p => p.memory.byteAt 0) (programming_beforeProgram s extensions)
  rw [← hbefore]
  rw [(tick_eq s inputs extensions).2] at h
  generalize s.beforeProgram extensions = w at h
  rcases w.tickProgram_cases inputs with ⟨-, -, hprogram⟩ | ⟨-, evalElapsed, hprogram⟩
  · rw [hprogram] at h
    have hdriven := programming_executeAll (w.checked inputs) w.node.isConnected
      (w.node.machine.check w.memory (w.ports inputs)).calls
    have hstatus : (w.checked inputs).status = statusEnabled :=
      (congrArg (fun p => p.memory.byteAt 0) hdriven).symm.trans h
    have went := Machine.went_on_of_check w.node.machine w.memory (w.ports inputs)
    unfold status checked at hstatus
    dsimp only at hstatus
    generalize (w.node.machine.check w.memory (w.ports inputs)).memory = memory at hstatus went
    generalize (w.node.machine.check w.memory (w.ports inputs)).machine = machine at went
    cases went with
    | unchanged => exact hstatus
    | settled _ _ => exact hstatus
    | ended _ => exact hstatus
    | marked _ hwrite =>
      exact absurd hstatus
        (ProgramMemory.not_enabled ((ProgramMemory.written_of_write hwrite).byteAt_eq 0))
  · rw [hprogram] at h
    exact h

/-- Nothing else enables the stored program. -/
theorem enabled_of_react {s : Station β} {stimulus : Stimulus β}
    (h : (s.react stimulus).status = statusEnabled) :
    s.status = statusEnabled ∨ s.Revives stimulus := by
  cases stimulus with
  | start => exact .inl h
  | radio byte =>
    refine (enabled_of_receiveRadio h).imp_right ?_
    rintro ⟨bytes, hheard, hends⟩
    exact ⟨bytes, hheard, hends, h⟩
  | usb byte =>
    refine (enabled_of_receiveUsb h).imp_right ?_
    rintro ⟨bytes, hheard, hends⟩
    exact ⟨bytes, hheard, hends, h⟩
  | usbActive active => exact .inl h
  | tick inputs extensions => exact .inl (enabled_of_tick h)
  | board board => exact .inl h
  | wires radioWire usbWire => exact .inl h
  | writes left => exact .inl h
  | saved => exact .inl h

theorem halted_react {s : Station β} {stimulus : Stimulus β} (h : s.programming.Halted)
    (hunrevived : ¬ s.Revives stimulus) : (s.react stimulus).programming.Halted := by
  refine Programming.halted_of_step h (s.step_react stimulus) fun henabled => ?_
  rcases enabled_of_react henabled with hbefore | hrevives
  · exact ProgramMemory.not_enabled h.disabled hbefore
  · exact hunrevived hrevives

/-- **A halted program stays halted** until it is revived. -/
theorem halted_after {s : Station β} {history : List (Stimulus β)} (h : s.programming.Halted)
    (hunrevived : s.StaysUnrevived history) : (s.after history).programming.Halted := by
  refine hunrevived.kept (P := fun t => t.programming.Halted) ?_ h
  intro t stimulus hspared halted
  exact halted_react halted hspared

/-! ## After a loop -/

theorem halted_of_loop {s : Station β} {inputs : Vector UInt8 3} {extensions : PacketSource}
    {state : UInt8}
    (h : (s.tick inputs extensions).1.check = some (.error (.loopDetected state true))) :
    (s.tick inputs extensions).2.programming.Halted := by
  rw [(tick_eq s inputs extensions).1] at h
  rw [(tick_eq s inputs extensions).2]
  generalize s.beforeProgram extensions = w at h
  unfold tickProgram at h ⊢
  dsimp only at h ⊢
  split at h
  · split at h
    · cases h
    · rename_i hruns hdue
      have hloop : (w.node.machine.check w.memory (w.ports inputs)).outcome =
          .error (.loopDetected state true) := Option.some.inj h
      rw [if_pos hruns, if_neg hdue, programming_checkProgram]
      refine ⟨?_, Machine.byteAt_of_loopDetected hloop⟩
      rw [(Machine.stopped_of_loopDetected hloop).1]
      exact id
  · cases h

/-- While the machine does not run, a tick ends where it comes to the program. -/
theorem tick_of_stopped {s : Station β} (h : ¬ s.node.machine.IsRunning) (inputs : Vector UInt8 3)
    (extensions : PacketSource) :
    (s.tick inputs extensions).1.check = none ∧ (s.tick inputs extensions).1.actionError = none ∧
      (s.tick inputs extensions).2 = (s.beforeProgram extensions).withNode
        { (s.beforeProgram extensions).node with evalElapsed := 0 } := by
  have hmachine : (s.beforeProgram extensions).node.machine = s.node.machine :=
    congrArg Programming.machine (programming_beforeProgram s extensions)
  have hprogram : (s.beforeProgram extensions).tickProgram inputs =
      (none, none, (s.beforeProgram extensions).withNode
        { (s.beforeProgram extensions).node with evalElapsed := 0 }) := by
    rw [tickProgram, hmachine, if_neg h]
    rfl
  refine ⟨?_, ?_, ?_⟩
  · rw [(tick_eq s inputs extensions).1, hprogram]
  · exact congrArg (·.2.1) hprogram
  · rw [(tick_eq s inputs extensions).2, hprogram]

/-- **A program that looped never runs again without an upload.** After a tick whose check has found
a loop and marked the program, whatever happens, starts included: as long as no stimulus brings the
last chunk of an upload that enables the program, no tick checks anything, and none does more than
what it does in front of the program. -/
theorem stays_stopped {s : Station β} {inputs : Vector UInt8 3} {extensions : PacketSource}
    {state : UInt8}
    (hloop : (s.tick inputs extensions).1.check = some (.error (.loopDetected state true)))
    {history : List (Stimulus β)}
    (hunrevived : (s.tick inputs extensions).2.StaysUnrevived history)
    (inputs' : Vector UInt8 3) (extensions' : PacketSource) :
    let t := (s.tick inputs extensions).2.after history
    (t.tick inputs' extensions').1.check = none ∧
      (t.tick inputs' extensions').1.actionError = none ∧
      (t.tick inputs' extensions').2 =
        (t.beforeProgram extensions').withNode
          { (t.beforeProgram extensions').node with evalElapsed := 0 } := by
  intro t
  have halted : t.programming.Halted := halted_after (halted_of_loop hloop) hunrevived
  exact tick_of_stopped halted.stopped inputs' extensions'

/-- A station whose program loops as soon as it is checked. -/
def looping : Station Board :=
  (boot { timing := { evalInterval := 1 } } Machine.seesaw.image {} {} {}).after [.start]

/-- Starts, a request to enter a state, and an upload that is cut short. -/
def interrupted : List (Stimulus Board) :=
  [.start, plainTick] ++ usbMessage .enter [1] ++ usbMessage .uploadBegin [0, 9] ++
    usbMessage .chunk [0, 0, 3, 0x5A, 0, 0] ++ [.start]

theorem looping_stays_stopped :
    (looping.tick #v[0, 0, 0] .none).1.check = some (.error (.loopDetected 0 true)) ∧
      (looping.tick #v[0, 0, 0] .none).2.StaysUnrevived interrupted ∧
      ((looping.tick #v[0, 0, 0] .none).2.after interrupted).node.upload.isSome = true ∧
      (((looping.tick #v[0, 0, 0] .none).2.after interrupted).tick #v[0, 0, 0] .none).1.check =
        none := by
  have hloop : (looping.tick #v[0, 0, 0] .none).1.check =
      some (.error (.loopDetected 0 true)) := by decide +kernel
  have hunrevived : (looping.tick #v[0, 0, 0] .none).2.StaysUnrevived interrupted := by
    decide +kernel
  have stopped := stays_stopped hloop hunrevived #v[0, 0, 0] .none
  exact ⟨hloop, hunrevived, by decide +kernel, stopped.1⟩

end Station

end RoomControl
