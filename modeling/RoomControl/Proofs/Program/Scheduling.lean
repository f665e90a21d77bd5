import RoomControl.Proofs.Program.Loops

/-!
# What a check finds scheduled

A running machine enters the state that is scheduled, or goes on in the state that it settled in last.
The start schedules the first state, and `enter` schedules any state, whether the program has it or
not. The number that stands for "no state" is no exception to the caller, but to the machine it is: to
enter it takes back what was scheduled. `Unscheduled` are the calls along which that leaves nothing to
evaluate, although the machine runs, and `inactive_iff_unscheduled` says that there are no others.

Nothing is asked here of the device behind the memory.
-/

set_option autoImplicit false

namespace RoomControl.Machine

/-- The machine and its memory after calls. -/
def after (machine : Machine) (m : ProgramMemory) : List MachineCall → Machine × ProgramMemory
  | [] => (machine, m)
  | .enter state :: rest => (machine.enter state).after m rest
  | .check inputs :: rest =>
    (machine.check m inputs).machine.after (machine.check m inputs).memory rest

variable {machine : Machine} {m : ProgramMemory} {run run' : Running} {calls : List MachineCall}

theorem isRunning_of_after (h : (machine.after m calls).1.IsRunning) : machine.IsRunning := by
  induction calls generalizing machine m with
  | nil => exact h
  | cons c rest ih =>
    cases c with
    | enter state => exact isRunning_enter.mp (ih h)
    | check inputs => exact isRunning_of_check (ih h)

/-- As long as the machine runs, neither the layout nor the memory changes. -/
theorem unmoved_of_after (h : ((running run).after m calls).1 = running run') :
    run'.layout = run.layout ∧ ((running run).after m calls).2 = m := by
  induction calls generalizing run m with
  | nil =>
    cases h
    exact ⟨rfl, rfl⟩
  | cons c rest ih =>
    cases c with
    | enter state => exact @ih m { run with pending := named state } h
    | check inputs =>
      have hrunning : ((running run).check m inputs).machine.IsRunning :=
        isRunning_of_after (isRunning_of_eq h)
      have hmemory := memory_of_check hrunning
      have went := went_on_of_check (running run) m inputs
      unfold after at h ⊢
      generalize ((running run).check m inputs).machine = machine' at h hrunning went ⊢
      generalize ((running run).check m inputs).memory = m' at h hmemory went ⊢
      cases went with
      | unchanged => exact ih h
      | settled hrun hlayout =>
        cases hrun
        obtain ⟨hlast, hmemory⟩ := ih h
        exact ⟨hlast.trans hlayout, hmemory⟩
      | ended _ => exact absurd hrunning id
      | marked _ _ => exact absurd hrunning id

/-! ## Nothing to evaluate -/

/-- The state that is scheduled. -/
def scheduled : Machine → Option UInt8
  | running run => run.pending
  | _ => none

/-- No state is scheduled, and none has been settled in. -/
def Rests (machine : Machine) : Prop := machine.scheduled = none ∧ machine.current = none

instance (machine : Machine) : Decidable (Rests machine) := inferInstanceAs (Decidable (_ ∧ _))

theorem check_of_rests (h : Rests machine) (m : ProgramMemory) (inputs : Ports) :
    machine.check m inputs = ⟨.ok .inactive, [], machine, m⟩ := by
  cases machine with
  | idle => rfl
  | disabled => rfl
  | running run => exact check_nowhere h.1 h.2

theorem begins_of_not_rests (h : ¬ Rests machine) :
    ∃ run entering state, machine = running run ∧
      (Standing.mk run.current run.pending run.baseline).Begins entering state := by
  cases machine with
  | idle => exact absurd ⟨rfl, rfl⟩ h
  | disabled => exact absurd ⟨rfl, rfl⟩ h
  | running run =>
    obtain ⟨entering, state, begins⟩ :=
      Standing.exists_begins (s := ⟨run.current, run.pending, run.baseline⟩) h
    exact ⟨run, entering, state, rfl, begins⟩

/-- What starts from a state is no inactive check, and a state is settled in when the machine goes
on. -/
theorem evaluates_checkFrom (run : Running) (m : ProgramMemory) (inputs : Ports) (entering : Bool)
    (state : UInt8) :
    (checkFrom run m inputs entering state).outcome ≠ .ok .inactive ∧
      ∀ run', (checkFrom run m inputs entering state).machine = running run' → run'.current ≠ none := by
  unfold checkFrom
  dsimp only
  split
  · exact ⟨nofun, nofun⟩
  · split
    · exact ⟨nofun, nofun⟩
    · exact ⟨nofun, nofun⟩
  · refine ⟨fun h => ?_, fun run' h => ?_⟩
    · split at h
      · cases h
      · cases h
    · cases h
      exact Option.some_ne_none _

/-- A check is inactive where the machine rests, and nowhere else. -/
theorem evaluates_check (h : ¬ Rests machine) (m : ProgramMemory) (inputs : Ports) :
    (machine.check m inputs).outcome ≠ .ok .inactive ∧
      ∀ run', (machine.check m inputs).machine = running run' → run'.current ≠ none := by
  obtain ⟨run, entering, state, rfl, begins⟩ := begins_of_not_rests h
  rw [check_of_begins begins]
  exact evaluates_checkFrom run m inputs entering state

/-- No call finds a state to evaluate, and none is scheduled in the end: whatever was scheduled has
been taken back before the next check. -/
def Unscheduled (scheduled : Option UInt8) : List MachineCall → Prop
  | [] => scheduled = none
  | .enter state :: rest => Unscheduled (named state) rest
  | .check _ :: rest => scheduled = none ∧ Unscheduled none rest

/-- Where a machine rests, after calls that it has outlived. -/
theorem rests_after (h : ((running run).after m calls).1 = running run') :
    Rests (running run') ↔ run.current = none ∧ Unscheduled run.pending calls := by
  induction calls generalizing run m with
  | nil =>
    cases h
    exact and_comm
  | cons c rest ih =>
    cases c with
    | enter state => exact @ih m { run with pending := named state } h
    | check inputs =>
      by_cases hrests : Rests (running run)
      · have hpending : run.pending = none := hrests.1
        have hcurrent : run.current = none := hrests.2
        unfold after at h
        rw [check_of_rests hrests] at h
        rw [ih h, hpending, hcurrent]
        exact and_congr_right fun _ => (and_iff_right rfl).symm
      · have hsettled := (evaluates_check hrests m inputs).2
        have hrunning : ((running run).check m inputs).machine.IsRunning :=
          isRunning_of_after (isRunning_of_eq h)
        unfold after at h
        generalize ((running run).check m inputs).machine = machine' at h hsettled hrunning
        cases machine' with
        | idle => cases hrunning
        | disabled => cases hrunning
        | running run'' =>
          refine iff_of_false (fun hlast => ?_) fun hnone => hrests ⟨hnone.2.1, hnone.1⟩
          exact hsettled run'' rfl ((ih h).mp hlast).1

/-- Only to enter "no state" takes back what is scheduled. -/
theorem takenBack_of_unscheduled {scheduled : Option UInt8} (h : Unscheduled scheduled calls)
    (hscheduled : scheduled ≠ none) : .enter noState ∈ calls := by
  induction calls generalizing scheduled with
  | nil => exact absurd h hscheduled
  | cons c rest ih =>
    cases c with
    | check inputs => exact absurd h.1 hscheduled
    | enter state =>
      by_cases hstate : state = noState
      · rw [hstate]
        exact List.mem_cons_self
      · refine List.mem_cons_of_mem _ (ih h ?_)
        rw [named, if_neg hstate]
        exact Option.some_ne_none _

/-! ## A state that the program does not have -/

theorem checkFrom_missing {state : UInt8} (h : run.layout.stateCount ≤ state.toNat)
    (m : ProgramMemory) (inputs : Ports) (entering : Bool) :
    checkFrom run m inputs entering state =
      ⟨.error (.program (.noSuchState state)), [], disabled, m⟩ := by
  unfold checkFrom chase
  simp only [Layout.evaluate_noSuchState h]
  rfl

theorem check_enter_missing {state : UInt8} (h : run.layout.stateCount ≤ state.toNat)
    (hstate : state ≠ noState) (m : ProgramMemory) (inputs : Ports) :
    ((running run).enter state).check m inputs =
      ⟨.error (.program (.noSuchState state)), [], disabled, m⟩ := by
  have hpending : named state = some state := if_neg hstate
  unfold enter check
  simp only [hpending]
  exact checkFrom_missing h m inputs true

/-- **A check of a running machine evaluates a state, unless what was scheduled was taken back.**
Whatever was called since the start, and whatever the device refuses: a check is inactive if and only
if nothing was scheduled for any check so far nor for this one, which takes a call that enters "no
state"; then it changes nothing. To enter any other state that the program does not have makes the
next check fail with its number, and stops the machine before anything is told to the board. -/
theorem inactive_iff_unscheduled {layout : Layout} (hstart : Machine.start m = (.ok (), machine))
    (hlayout : Layout.read m = .ok layout) (calls : List MachineCall)
    (hrunning : (machine.after m calls).1.IsRunning) (inputs : Ports) :
    let (machine', m') := machine.after m calls
    ((machine'.check m' inputs).outcome = .ok .inactive ↔ Unscheduled (some 0) calls) ∧
      (Unscheduled (some 0) calls → .enter noState ∈ calls ∧
        machine'.check m' inputs = ⟨.ok .inactive, [], machine', m'⟩) ∧
      ∀ state, layout.stateCount ≤ state.toNat → state ≠ noState →
        (machine'.enter state).check m' inputs =
          ⟨.error (.program (.noSuchState state)), [], disabled, m'⟩ := by
  obtain rfl := eq_running_of_start hstart hlayout
  generalize hafter : (running { layout, pending := some 0 }).after m calls = reached
    at hrunning
  obtain ⟨machine', m'⟩ := reached
  cases machine' with
  | idle => cases hrunning
  | disabled => cases hrunning
  | running run' =>
    have hfirst := congrArg Prod.fst hafter
    have hrests : Rests (running run') ↔ Unscheduled (some 0) calls :=
      (rests_after hfirst).trans (and_iff_right rfl)
    have hunmoved : run'.layout = layout := (unmoved_of_after hfirst).1
    have hnowhere (h : Unscheduled (some 0) calls) :
        (running run').check m' inputs = ⟨.ok .inactive, [], running run', m'⟩ :=
      check_of_rests (hrests.mpr h) m' inputs
    refine ⟨⟨fun hinactive => ?_, fun h => ?_⟩, fun h => ⟨?_, hnowhere h⟩, fun state h hstate => ?_⟩
    · rw [← hrests]
      exact Decidable.byContradiction fun hsome => (evaluates_check hsome m' inputs).1 hinactive
    · rw [hnowhere h]
    · exact takenBack_of_unscheduled h (Option.some_ne_none _)
    · rw [← hunmoved] at h
      exact check_enter_missing h hstate m' inputs

/-- After a first check a state is entered that the program does not have. -/
theorem missing_state_stops :
    let layout : Layout := ⟨1, 7, 8⟩
    let machine := running { layout, pending := some 0 }
    let still : Ports := Vector.replicate portCount 0
    let (machine', m') := machine.after Execution.oneState [.check still]
    Machine.start Execution.oneState = (.ok (), machine) ∧
      Layout.read Execution.oneState = .ok layout ∧ machine'.IsRunning ∧
      (machine'.check m' still).outcome ≠ .ok .inactive ∧
      (machine'.enter 254).check m' still =
        ⟨.error (.program (.noSuchState 254)), [], disabled, m'⟩ := by
  intro layout machine still
  have hstart : Machine.start Execution.oneState = (.ok (), machine) := rfl
  have hlayout : Layout.read Execution.oneState = .ok layout := rfl
  have hrunning : (machine.after Execution.oneState [.check still]).1.IsRunning := by decide +kernel
  have laws := inactive_iff_unscheduled hstart hlayout [.check still] hrunning still
  refine ⟨hstart, hlayout, hrunning, fun hinactive => ?_, laws.2.2 254 (by decide) (by decide)⟩
  exact Option.some_ne_none _ (laws.1.mp hinactive).1

/-- **To enter "no state" is no error.** The program has no state of this number. Before the first check
it leaves a running machine with nothing to evaluate, and after one it is without effect. -/
theorem no_state_entered_unnoticed :
    let machine := running { layout := ⟨1, 7, 8⟩, pending := some 0 }
    let still : Ports := Vector.replicate portCount 0
    let unstarted := (machine.enter noState).check Execution.oneState still
    let settled := (machine.check Execution.oneState still).machine
    let gone := (settled.enter noState).check Execution.oneState still
    Machine.start Execution.oneState = (.ok (), machine) ∧
      unstarted.outcome = .ok .inactive ∧ unstarted.machine.IsRunning ∧
      settled.IsRunning ∧ gone.outcome = .ok (.stable 0) ∧ gone.machine.IsRunning := by
  intro machine still unstarted settled gone
  refine ⟨?_, ?_, ?_, ?_, ?_, ?_⟩ <;> decide +kernel

end RoomControl.Machine
