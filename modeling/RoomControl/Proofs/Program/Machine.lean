import RoomControl.Program.Machine
import RoomControl.Proofs.Program.Memory

/-!
# How a machine starts and goes on

What the operations of the machine can lead to, each stated once. A machine that runs after a start
runs an enabled, well-formed program with at least one state (`started_of_start`). A machine that
runs after a check ran before it, on the same layout, and the check has left the memory alone; only a
check that ends the run writes, and it writes the status byte (`went_on_of_check`).
-/

set_option autoImplicit false

namespace RoomControl

/-- A status byte that enables the program stands at the start of the memory. -/
theorem ProgramMemory.byteAt_of_isEnabled {m : ProgramMemory} {enabled : Bool}
    (h : m.isEnabled = .ok enabled) : enabled = (m.byteAt 0 == statusEnabled) := by
  unfold isEnabled at h
  cases hr : m.readByte 0 with
  | error e => rw [hr] at h; cases h
  | ok b =>
    rw [hr] at h
    obtain ⟨-, rfl⟩ := readByte_eq_ok hr
    cases h
    rfl

namespace Machine

theorem isRunning_of_eq {machine : Machine} {run : Running} (h : machine = running run) :
    machine.IsRunning := by
  subst h
  trivial

/-- Scheduling a state neither starts nor stops the machine. -/
theorem isRunning_enter {machine : Machine} {state : UInt8} :
    (machine.enter state).IsRunning ↔ machine.IsRunning := by
  cases machine <;> exact .rfl

/-- What starting the stored program can lead to. -/
inductive Started (m : ProgramMemory) : Except ProgramError Unit × Machine → Prop
  /-- The program is enabled and well-formed, and its first state is scheduled. -/
  | running {layout : Layout} : m.byteAt 0 = statusEnabled → Layout.read m = .ok layout →
      layout.stateCount ≠ 0 → Started m (.ok (), running { layout, pending := some 0 })
  | refused {e : ProgramError} {machine : Machine} : ¬ machine.IsRunning →
      Started m (.error e, machine)

theorem started_of_start (m : ProgramMemory) : Started m (start m) := by
  unfold start
  cases he : m.isEnabled with
  | error e => exact .refused id
  | ok enabled =>
    have hstatus := ProgramMemory.byteAt_of_isEnabled he
    cases enabled with
    | false => exact .refused id
    | true =>
      cases hl : Layout.read m with
      | error e => exact .refused id
      | ok layout =>
        dsimp only
        split
        · exact .refused id
        · exact .running (eq_of_beq hstatus.symm) hl ‹_›

/-- A start that succeeds leaves the machine due to enter the first state of what was read. -/
theorem eq_running_of_start {m : ProgramMemory} {machine : Machine} {layout : Layout}
    (hstart : start m = (.ok (), machine)) (hlayout : Layout.read m = .ok layout) :
    machine = running { layout, pending := some 0 } := by
  have started := started_of_start m
  rw [hstart] at started
  cases started with
  | running _ hread _ => rw [Except.ok.inj (hread.symm.trans hlayout)]

/-- What a check leaves. -/
inductive WentOn (machine : Machine) (m : ProgramMemory) : Machine → ProgramMemory → Prop
  /-- Nothing was evaluated. -/
  | unchanged : WentOn machine m machine m
  /-- The check settled, and the program goes on. -/
  | settled {run run' : Running} : machine = running run → run'.layout = run.layout →
      WentOn machine m (running run') m
  /-- The check ended the run. -/
  | ended {run : Running} : machine = running run → WentOn machine m disabled m
  /-- The check ended the run and marked the stored program. -/
  | marked {run : Running} {m' : ProgramMemory} : machine = running run →
      m.write 0 [statusDisabled] = .ok m' → WentOn machine m disabled m'

private theorem went_on_of_checkFrom (run : Running) (m : ProgramMemory) (inputs : Ports)
    (entering : Bool) (state : UInt8) :
    WentOn (running run) m (checkFrom run m inputs entering state).machine
      (checkFrom run m inputs entering state).memory := by
  unfold checkFrom
  dsimp only
  split
  · exact .ended rfl
  · cases hw : m.write 0 [statusDisabled] with
    | error e => exact .ended rfl
    | ok m' => exact .marked rfl hw
  · exact .settled rfl rfl

theorem went_on_of_check (machine : Machine) (m : ProgramMemory) (inputs : Ports) :
    WentOn machine m (machine.check m inputs).machine (machine.check m inputs).memory := by
  cases machine with
  | idle => exact .unchanged
  | disabled => exact .unchanged
  | running run =>
    unfold check
    dsimp only
    split
    · exact went_on_of_checkFrom ..
    · exact went_on_of_checkFrom ..
    · exact .unchanged

/-- A machine that runs after a check ran before it. -/
theorem isRunning_of_check {machine : Machine} {m : ProgramMemory} {inputs : Ports}
    (h : (machine.check m inputs).machine.IsRunning) : machine.IsRunning := by
  cases machine with
  | running run => trivial
  | idle => exact h
  | disabled => exact h

/-- A check leaves the stored program as it was, but for the status byte. -/
theorem agreesFrom_check (machine : Machine) (m : ProgramMemory) (inputs : Ports) :
    ProgramMemory.AgreesFrom 1 m (machine.check m inputs).memory := by
  have hwent := went_on_of_check machine m inputs
  generalize machine.check m inputs = checked at hwent
  obtain ⟨outcome, calls, machine', m'⟩ := checked
  cases hwent with
  | marked _ hwrite => exact (ProgramMemory.written_of_write hwrite).agreesFrom
  | _ => exact .refl 1 _

end Machine

end RoomControl
