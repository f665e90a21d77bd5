import RoomControl.Proofs.Node.Programming
import RoomControl.Proofs.Program.Layout
import RoomControl.Proofs.Program.Machine
import RoomControl.Proofs.Program.Upload

/-!
# A program is uploaded or runs

While an upload is open, the memory holds a disabled program without states and the machine does not
run; while the machine runs, no upload is open and the memory holds, enabled, the very program that
the machine runs. `Programming.Guarded` says so, every step keeps it (`guarded_of_step`), and
`program_guarded` is the law for a station after any history.
-/

set_option autoImplicit false

namespace RoomControl

namespace Programming

/-- The program is uploaded or runs, and the memory is marked accordingly. -/
structure Guarded (p : Programming) : Prop where
  uploading : p.upload.isSome →
    p.memory.byteAt 0 = statusDisabled ∧ p.memory.byteAt 1 = 0 ∧ ¬ p.machine.IsRunning
  running : ∀ run, p.machine = .running run →
    p.upload = none ∧ p.memory.byteAt 0 = statusEnabled ∧
      Layout.read p.memory = .ok run.layout ∧ 1 ≤ run.layout.stateCount

/-- With neither an upload nor a running machine there is nothing to guard. -/
theorem guarded_of_rest {p : Programming} (hupload : p.upload = none)
    (hmachine : ¬ p.machine.IsRunning) : p.Guarded := by
  refine ⟨fun h => ?_, fun run h => ?_⟩
  · rw [hupload] at h
    cases h
  · exact absurd (Machine.isRunning_of_eq h) hmachine

/-- The machine does not run while an upload is open. -/
theorem Guarded.not_running {p : Programming} (h : p.Guarded) {u : Upload}
    (hu : p.upload = some u) : ¬ p.machine.IsRunning := by
  have hsome : p.upload.isSome := by rw [hu]; rfl
  exact (h.uploading hsome).2.2

/-- A machine that was just started runs the enabled program of its memory. -/
theorem guarded_of_start (upload : Option Upload) (m : ProgramMemory)
    (h : upload = none ∨ m.byteAt 0 = statusDisabled ∧ m.byteAt 1 = 0) :
    Guarded ⟨(Machine.start m).2, upload, m⟩ := by
  have hstart := Machine.started_of_start m
  generalize Machine.start m = started at hstart
  cases hstart with
  | refused hstop =>
    rcases h with rfl | hbytes
    · exact guarded_of_rest rfl hstop
    · exact ⟨fun _ => ⟨hbytes.1, hbytes.2, hstop⟩, fun run hrun =>
        absurd (Machine.isRunning_of_eq hrun) hstop⟩
  | running henabled hread hcount =>
    rcases h with rfl | hbytes
    · refine ⟨nofun, fun run hrun => ?_⟩
      cases hrun
      exact ⟨rfl, henabled, hread, Nat.one_le_iff_ne_zero.mpr hcount⟩
    · rw [hbytes.1] at henabled
      exact absurd henabled (by decide)

/-- Storing a chunk leaves the marks of an open upload in place. -/
theorem guarded_of_stored {p : Programming} (h : p.Guarded) {u u' : Upload} {addr : Nat}
    {data : Bytes} {m : ProgramMemory} (hu : p.upload = some u)
    (stored : Upload.Stored p.memory addr data m) : Guarded ⟨p.machine, some u', m⟩ := by
  have hsome : p.upload.isSome := by rw [hu]; rfl
  obtain ⟨hstatus, hcount, hstop⟩ := h.uploading hsome
  refine ⟨fun _ => ⟨?_, ?_, hstop⟩, fun run hrun => ?_⟩
  · exact (stored.header 0 (by decide)).trans hstatus
  · exact (stored.header 1 (by decide)).trans hcount
  · exact absurd (Machine.isRunning_of_eq hrun) hstop

/-- **Every step keeps the guard.** -/
theorem guarded_of_step (p p' : Programming) (h : p.Guarded) (step : p.Step p') : p'.Guarded := by
  cases step with
  | rest => exact h
  | @device memory himage hrefuses =>
    have hbyte : memory.byteAt = p.memory.byteAt := by
      unfold ProgramMemory.byteAt
      rw [himage]
    have hread : Layout.read memory = Layout.read p.memory := by
      refine Layout.read_congr (fun addr n _ => ProgramMemory.read_congr himage hrefuses addr n) ?_
      simp only [ProgramMemory.size, ProgramMemory.capacity, himage]
    refine ⟨fun hu => ?_, fun run hrun => ?_⟩
    · simp only [hbyte]
      exact h.uploading hu
    · simp only [hbyte, hread]
      exact h.running run hrun
  | start =>
    refine guarded_of_start p.upload p.memory ?_
    cases hu : p.upload with
    | none => exact .inl rfl
    | some u =>
      have hmarks := h.uploading (by rw [hu]; rfl)
      exact .inr ⟨hmarks.1, hmarks.2.1⟩
  | enter state =>
    refine ⟨fun hu => ?_, fun run hrun => ?_⟩
    · obtain ⟨hstatus, hcount, hstop⟩ := h.uploading hu
      refine ⟨hstatus, hcount, ?_⟩
      cases hm : p.machine with
      | running run => exact absurd (Machine.isRunning_of_eq hm) hstop
      | idle => exact id
      | disabled => exact id
    · -- scheduling a state keeps the layout
      cases hm : p.machine with
      | running before =>
        simp only [hm, Machine.enter, Machine.running.injEq] at hrun
        subst hrun
        exact h.running before hm
      | idle => simp only [hm, Machine.enter, reduceCtorEq] at hrun
      | disabled => simp only [hm, Machine.enter, reduceCtorEq] at hrun
  | check inputs =>
    have hcheck := Machine.went_on_of_check p.machine p.memory inputs
    generalize (p.machine.check p.memory inputs).machine = machine at hcheck
    generalize (p.machine.check p.memory inputs).memory = memory at hcheck
    cases hcheck with
    | unchanged => exact h
    | settled hbefore hlayout =>
      obtain ⟨hupload, hstatus, hread, hcount⟩ := h.running _ hbefore
      refine ⟨fun hu => ?_, fun run hrun => ?_⟩
      · rw [show p.upload = none from hupload] at hu
        cases hu
      · cases hrun
        rw [hlayout]
        exact ⟨hupload, hstatus, hread, hcount⟩
    | ended hbefore => exact guarded_of_rest (h.running _ hbefore).1 id
    | marked hbefore _ => exact guarded_of_rest (h.running _ hbefore).1 id
  | drop c =>
    have hdrop : (Upload.abortFrom p.upload c).2 = none ∨
        (Upload.abortFrom p.upload c).2 = p.upload := by
      unfold Upload.abortFrom
      split
      · exact .inl rfl
      · exact .inr rfl
    rcases hdrop with hnone | hsame
    · rw [hnone]
      refine ⟨fun hu => ?_, fun run hrun => ⟨rfl, (h.running run hrun).2⟩⟩
      cases hu
    · rw [hsame]
      exact h
  | @refuse total c e upload memory hbegin =>
    have hbegun := Upload.begun_begin p.upload p.memory total c
    rw [hbegin] at hbegun
    cases hbegun with
    | refused _ => exact h
    | failed _ =>
      refine ⟨fun hu => ?_, fun run hrun => ⟨rfl, (h.running run hrun).2⟩⟩
      cases hu
  | @«open» total c upload memory hbegin =>
    have hbegun := Upload.begun_begin p.upload p.memory total c
    rw [hbegin] at hbegun
    cases hbegun with
    | opened _ _ hwrite =>
      have written := ProgramMemory.written_of_write hwrite
      refine ⟨fun _ => ⟨?_, ?_, id⟩, fun run hrun => ?_⟩
      · exact written.byteAt_eq 0
      · exact written.byteAt_eq 1
      · cases hrun
  | @chunk addr data result upload memory hchunk hresult =>
    obtain ⟨machine, open?, m⟩ := p
    have htaken := Upload.taken_chunk open? m addr data
    rw [hchunk] at htaken
    cases htaken with
    | closed => exact h
    | outOfRange _ => exact h
    | failed _ _ =>
      -- the held bytes may be new, and the memory is as before
      have hkept : Upload.Stored memory addr [] memory :=
        ⟨rfl, rfl, id, fun _ _ => rfl, fun a _ => by rw [placed_nil, Option.getD_none]⟩
      exact guarded_of_stored h rfl hkept
    | stored _ _ hstore => exact guarded_of_stored h rfl (Upload.stored_of_store hstore)
    | finished _ _ _ => exact guarded_of_rest rfl (h.not_running rfl)
  | @complete addr data upload memory hchunk =>
    obtain ⟨machine, open?, m⟩ := p
    have htaken := Upload.taken_chunk open? m addr data
    rw [hchunk] at htaken
    have hclosed : upload = none := by
      generalize hr : (Except.ok ChunkOutcome.complete, upload, memory) = answer at htaken
      cases htaken with
      | finished _ _ _ => exact congrArg (·.2.1) hr
      | closed => cases hr
      | outOfRange _ => cases hr
      | failed _ _ => cases hr
      | stored _ _ _ => cases hr
    exact guarded_of_start upload memory (.inl hclosed)

/-- **A running program is not modified**: a step after which the machine runs, as it did before,
leaves the image alone. -/
theorem image_of_step {p p' : Programming} (h : p.Guarded) (step : p.Step p')
    (before : p.machine.IsRunning) (behind : p'.machine.IsRunning) :
    p'.memory.image = p.memory.image := by
  have hclosed : p.upload = none := by
    cases hm : p.machine with
    | running run => exact (h.running run hm).1
    | idle => rw [hm] at before; exact before.elim
    | disabled => rw [hm] at before; exact before.elim
  cases step with
  | rest => rfl
  | device himage _ => exact himage
  | start => rfl
  | enter state => rfl
  | check inputs =>
    have hcheck := Machine.went_on_of_check p.machine p.memory inputs
    generalize (p.machine.check p.memory inputs).machine = machine at hcheck behind
    generalize (p.machine.check p.memory inputs).memory = memory at hcheck
    cases hcheck with
    | unchanged => rfl
    | settled _ _ => rfl
    | ended _ => rfl
    | marked _ _ => exact behind.elim
  | drop c => rfl
  | @refuse total c e upload memory hbegin =>
    have hbegun := Upload.begun_begin p.upload p.memory total c
    rw [hbegin] at hbegun
    cases hbegun with
    | refused _ => rfl
    | failed _ => rfl
  | «open» _ => exact behind.elim
  | @chunk addr data result upload memory hchunk hresult =>
    rw [hclosed] at hchunk
    cases hchunk
    rfl
  | @complete addr data upload memory hchunk =>
    rw [hclosed] at hchunk
    cases hchunk

end Programming

namespace Station

variable {β : Type} [Peripherals β]

theorem guarded_after (config : NodeConfig) (image : Array UInt8) (board : β)
    (radioWire usbWire : Wire) (history : List (Stimulus β)) :
    ((boot config image board radioWire usbWire).after history).programming.Guarded :=
  programming_after Programming.guarded_of_step _ (Programming.guarded_of_rest rfl id) history

/-- **A program is uploaded or runs, after any history.** While an upload is open, the memory holds a
disabled program without states, and a tick checks nothing. While the machine runs, no upload is
open, and the memory holds, enabled, a program with the layout that the machine holds; whatever
happens next leaves the image alone or stops the machine. -/
theorem program_guarded (config : NodeConfig) (image : Array UInt8) (board : β)
    (radioWire usbWire : Wire) (history : List (Stimulus β)) :
    let s := (boot config image board radioWire usbWire).after history
    (∀ u, s.node.upload = some u →
      s.memory.byteAt 0 = statusDisabled ∧ s.memory.byteAt 1 = 0 ∧ ¬ s.node.machine.IsRunning ∧
        ∀ inputs extensions, (s.tick inputs extensions).1.check = none) ∧
    (∀ run, s.node.machine = .running run →
      s.node.upload = none ∧ s.memory.byteAt 0 = statusEnabled ∧
        Layout.read s.memory = .ok run.layout ∧ 1 ≤ run.layout.stateCount ∧
        ∀ stimulus, (s.react stimulus).node.machine.IsRunning →
          (s.react stimulus).memory.image = s.memory.image) := by
  intro s
  have hboot : (boot config image board radioWire usbWire).programming.Guarded :=
    Programming.guarded_of_rest rfl id
  have guarded : s.programming.Guarded :=
    programming_after Programming.guarded_of_step _ hboot history
  refine ⟨fun u hu => ?_, fun run hrun => ?_⟩
  · have hsome : s.programming.upload.isSome := by
      rw [show s.programming.upload = some u from hu]
      rfl
    obtain ⟨hstatus, hcount, hstop⟩ := guarded.uploading hsome
    refine ⟨hstatus, hcount, hstop, fun inputs extensions => ?_⟩
    have hmachine : (s.beforeProgram extensions).node.machine = s.node.machine :=
      congrArg Programming.machine (programming_beforeProgram s extensions)
    have hstop : ¬ s.node.machine.IsRunning := hstop
    rw [(tick_eq s inputs extensions).1, tickProgram, hmachine, if_neg hstop]
  · obtain ⟨hupload, hstatus, hread, hcount⟩ := guarded.running run hrun
    refine ⟨hupload, hstatus, hread, hcount, fun stimulus behind => ?_⟩
    have before : s.node.machine.IsRunning := by
      rw [hrun]
      trivial
    exact Programming.image_of_step guarded (s.step_react stimulus) before behind

end Station

end RoomControl
