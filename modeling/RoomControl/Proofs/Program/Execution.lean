import RoomControl.Proofs.Program.Decoding
import RoomControl.Proofs.Program.Machine

/-!
# A program that was started does not go wrong

Starting a program validates it once, and the checks that follow walk the same bytes with other
code. `Execution` are the machines and memories that a started program comes to: states are entered,
checks are run, and meanwhile anything may happen to the memory but in front of the program's end.
Every check of an execution ends well, and it reads no byte but those of the program
(`check_sound`): on a device that refuses every other read it does the same.

`Sound` is the invariant. It ties the machine to the bytes that were validated; the walks over these
bytes are settled by `Layout.evaluate_eq`.
-/

set_option autoImplicit false

namespace RoomControl

/-- How a check of a sound program may end: no error but a loop of gotos, or a state that the
program does not have. -/
inductive Layout.EndsWell (layout : Layout) : Except MachineError CheckOutcome → Prop
  | ok (outcome : CheckOutcome) : layout.EndsWell (.ok outcome)
  | looped (state : UInt8) (persisted : Bool) :
      layout.EndsWell (.error (.loopDetected state persisted))
  | noSuchState {state : UInt8} : layout.stateCount ≤ state.toNat →
      layout.EndsWell (.error (.program (.noSuchState state)))

/-- What a check gave, with the memory on a device that answers inside `[low, high)` only. -/
def Checked.confined (c : Checked) (low high : Nat) : Checked :=
  { c with memory := c.memory.confined low high }

/-- What a program that was started with this layout comes to. -/
inductive Execution (layout : Layout) : Machine → ProgramMemory → Prop
  /-- The stored program is started. -/
  | start {machine : Machine} {m : ProgramMemory} : Machine.start m = (.ok (), machine) →
      Layout.read m = .ok layout → m.Answers 1 layout.length → Execution layout machine m
  /-- A state is scheduled, whether the program has it or not. -/
  | enter {machine : Machine} {m : ProgramMemory} (state : UInt8) : Execution layout machine m →
      Execution layout (machine.enter state) m
  | check {machine : Machine} {m : ProgramMemory} (inputs : Ports) : Execution layout machine m →
      Execution layout (machine.check m inputs).machine (machine.check m inputs).memory
  /-- Something else happens to the memory, but not to the program behind its status byte. -/
  | outside {machine : Machine} {m m' : ProgramMemory} : Execution layout machine m →
      m'.capacity = m.capacity → (∀ a, 1 ≤ a → a < layout.length → m'.byteAt a = m.byteAt a) →
      m'.Answers 1 layout.length → Execution layout machine m'

/-! ## Serving the program -/

namespace ProgramMemory

variable {m m' : ProgramMemory} {contents : Nat → UInt8} {low high : Nat}

/-- A memory that shows the same bytes in a stretch, and answers there, serves it as well. -/
theorem Serves.of_alike (serves : m.Serves contents low high) (capacity : m'.capacity = m.capacity)
    (alike : ∀ a, low ≤ a → a < high → m'.byteAt a = m.byteAt a) (answers : m'.Answers low high) :
    m'.Serves contents low high := by
  intro addr n hlow hhigh
  obtain ⟨covers, hbytes⟩ := read_eq_ok (serves addr n hlow hhigh)
  have covers' : m'.Covers addr n := by simpa only [Covers, capacity] using covers
  rw [read_of_covers (answers addr n hlow hhigh) covers', hbytes]
  exact congrArg _ (stretch_congr fun a ha hn => alike a (by omega) (by omega))

/-- Writing does not ask the device to read. -/
theorem write_confined (m : ProgramMemory) (addr : Nat) (data : Bytes) (low high : Nat) :
    (m.confined low high).write addr data =
      (m.write addr data).map fun m' => m'.confined low high := by
  have hleft : (m.confined low high).writesLeft = m.writesLeft := rfl
  have hcovers : (m.confined low high).Covers addr data.length ↔ m.Covers addr data.length := .rfl
  have hslice : (m.confined low high).slice addr data.length = m.slice addr data.length := rfl
  simp only [write, hleft, hcovers, hslice]
  split
  · rfl
  · split
    · split
      · rfl
      · rfl
    · rfl

end ProgramMemory

/-! ## One check -/

namespace Layout

variable {layout : Layout} {m m' : ProgramMemory} {contents : Nat → UInt8} {size : Nat}

/-- Two memories that serve the program make the walks over its states alike. -/
theorem evaluate_congr (wf : layout.WellFormed contents size)
    (serves : m.Serves contents 1 layout.length) (serves' : m'.Serves contents 1 layout.length) :
    layout.evaluate m' = layout.evaluate m := by
  funext baseline inputs entering state
  by_cases h : state.toNat < layout.stateCount
  · rw [evaluate_eq wf serves h, evaluate_eq wf serves' h]
  · rw [evaluate_noSuchState (Nat.not_lt.mp h), evaluate_noSuchState (Nat.not_lt.mp h)]

/-- The only walk that fails is over a state that the program does not have. -/
theorem noSuchState_of_evaluate (wf : layout.WellFormed contents size)
    (serves : m.Serves contents 1 layout.length) {baseline inputs : Ports} {entering : Bool}
    {state : UInt8} {e : ProgramError}
    (h : (layout.evaluate m baseline inputs entering state).result = .error e) :
    e = .noSuchState state ∧ layout.stateCount ≤ state.toNat := by
  by_cases hstate : state.toNat < layout.stateCount
  · rw [evaluate_eq wf serves hstate] at h
    cases h
  · rw [evaluate_noSuchState (Nat.not_lt.mp hstate)] at h
    cases h
    exact ⟨rfl, Nat.not_lt.mp hstate⟩

end Layout

namespace Machine

/-- A chase that fails does so in the walk over some state. -/
theorem evaluate_of_chase_failed {evaluate : Bool → UInt8 → Walk Unit} {jumps : Nat}
    {path : List UInt8} {entering : Bool} {state : UInt8} {e : ProgramError}
    (h : (chase evaluate jumps path entering state).2 = .failed e) :
    ∃ entering state, (evaluate entering state).result = .error e := by
  fun_induction chase evaluate jumps path entering state with
  | case1 jumps path entering state walk e' hwalk =>
    cases h
    exact ⟨entering, state, hwalk⟩
  | case2 => cases h
  | case3 => cases h
  | case4 => cases h
  | case5 path entering state walk _ next _ _ jumps fired landing hchase ih =>
    rw [hchase] at ih
    exact ih h

variable {run : Running} {m m' : ProgramMemory} {contents : Nat → UInt8} {size : Nat}

theorem checkFrom_endsWell (wf : run.layout.WellFormed contents size)
    (serves : m.Serves contents 1 run.layout.length) (inputs : Ports) (entering : Bool)
    (state : UInt8) : run.layout.EndsWell (checkFrom run m inputs entering state).outcome := by
  unfold checkFrom
  dsimp only
  split
  · rename_i e hlanding
    obtain ⟨entering, state, hwalk⟩ := evaluate_of_chase_failed hlanding
    obtain ⟨rfl, hstate⟩ := Layout.noSuchState_of_evaluate wf serves hwalk
    exact .noSuchState hstate
  · split
    · exact .looped ..
    · exact .looped ..
  · exact .ok _

theorem checkFrom_confined (wf : run.layout.WellFormed contents size)
    (serves : m.Serves contents 1 run.layout.length) (inputs : Ports) (entering : Bool)
    (state : UInt8) :
    checkFrom run (m.confined 1 run.layout.length) inputs entering state =
      (checkFrom run m inputs entering state).confined 1 run.layout.length := by
  unfold checkFrom
  dsimp only
  rw [Layout.evaluate_congr wf serves serves.confined, ProgramMemory.write_confined]
  split
  · rfl
  · cases m.write 0 [statusDisabled] with
    | error e => rfl
    | ok m' => rfl
  · rfl

end Machine

/-! ## A whole execution -/

namespace Execution

/-- The machine runs on the layout that was validated, and the memory serves the bytes that were. -/
structure Sound (contents : Nat → UInt8) (layout : Layout) (machine : Machine) (m : ProgramMemory) :
    Prop where
  layout_eq : ∀ run, machine = .running run → run.layout = layout
  serves : m.Serves contents 1 layout.length

variable {contents : Nat → UInt8} {size : Nat} {layout : Layout} {machine : Machine}
variable {m m' : ProgramMemory}

theorem Sound.enter (sound : Sound contents layout machine m) (state : UInt8) :
    Sound contents layout (machine.enter state) m := by
  refine ⟨fun run h => ?_, sound.serves⟩
  cases machine with
  | idle => cases h
  | disabled => cases h
  | running run =>
    cases h
    exact sound.layout_eq run rfl

/-- **A check keeps the program**: it writes nothing but the status byte. -/
theorem Sound.of_wentOn {machine' : Machine} (sound : Sound contents layout machine m)
    (h : Machine.WentOn machine m machine' m') : Sound contents layout machine' m' := by
  cases h with
  | unchanged => exact sound
  | settled hrun hlayout =>
    refine ⟨fun run h => ?_, sound.serves⟩
    cases h
    rw [hlayout]
    exact sound.layout_eq _ hrun
  | ended hrun => exact ⟨nofun, sound.serves⟩
  | marked hrun hwrite =>
    refine ⟨nofun, fun addr n hlow hhigh => ?_⟩
    rw [(ProgramMemory.written_of_write hwrite).read_eq hlow]
    exact sound.serves addr n hlow hhigh

theorem Sound.outside (sound : Sound contents layout machine m)
    (capacity : m'.capacity = m.capacity)
    (alike : ∀ a, 1 ≤ a → a < layout.length → m'.byteAt a = m.byteAt a)
    (answers : m'.Answers 1 layout.length) : Sound contents layout machine m' :=
  ⟨sound.layout_eq, sound.serves.of_alike capacity alike answers⟩

theorem Sound.of_start (hstart : Machine.start m = (.ok (), machine))
    (hlayout : Layout.read m = .ok layout) (answers : m.Answers 1 layout.length) :
    layout.WellFormed m.byteAt m.size ∧ Sound m.byteAt layout machine m := by
  obtain ⟨wf, hcapacity⟩ := Layout.wellFormed_of_read hlayout
  have hsize : layout.length ≤ m.capacity := Nat.le_trans wf.length_bounds.2 (Nat.min_le_left ..)
  refine ⟨wf, fun run hrun => ?_, ProgramMemory.serves_of_answers answers hsize hcapacity⟩
  obtain rfl := Machine.running.inj (hrun.symm.trans (Machine.eq_running_of_start hstart hlayout))
  rfl

/-- Along an execution the bytes that were validated stay in force. -/
theorem sound_of_execution (h : Execution layout machine m) :
    ∃ contents size, layout.WellFormed contents size ∧ Sound contents layout machine m := by
  induction h with
  | start hstart hlayout answers => exact ⟨_, _, Sound.of_start hstart hlayout answers⟩
  | enter state _ ih =>
    obtain ⟨contents, size, wf, sound⟩ := ih
    exact ⟨contents, size, wf, sound.enter state⟩
  | check inputs _ ih =>
    obtain ⟨contents, size, wf, sound⟩ := ih
    exact ⟨contents, size, wf, sound.of_wentOn (Machine.went_on_of_check ..)⟩
  | outside _ capacity alike answers ih =>
    obtain ⟨contents, size, wf, sound⟩ := ih
    exact ⟨contents, size, wf, sound.outside capacity alike answers⟩

/-- **A program that was started does not go wrong.** Whatever states are entered, whatever the
inputs, and whatever happens to the memory outside the program: a check ends with an outcome, with a
loop or at a state that the program does not have. It reads no byte but those from the number of
states to the end of the program, since a device that refuses every other read makes no difference
to it. -/
theorem check_sound (h : Execution layout machine m) (inputs : Ports) :
    layout.EndsWell (machine.check m inputs).outcome ∧
      machine.check (m.confined 1 layout.length) inputs =
        (machine.check m inputs).confined 1 layout.length := by
  obtain ⟨contents, size, wf, sound⟩ := sound_of_execution h
  cases machine with
  | idle => exact ⟨.ok _, rfl⟩
  | disabled => exact ⟨.ok _, rfl⟩
  | running run =>
    obtain rfl := sound.layout_eq run rfl
    unfold Machine.check
    dsimp only
    split
    · exact ⟨Machine.checkFrom_endsWell wf sound.serves ..,
        Machine.checkFrom_confined wf sound.serves ..⟩
    · exact ⟨Machine.checkFrom_endsWell wf sound.serves ..,
        Machine.checkFrom_confined wf sound.serves ..⟩
    · exact ⟨.ok _, rfl⟩

/-- A program of one state without evaluations. -/
def oneState : ProgramMemory := { image := #[0x5A, 1, 0, 6, 0, 7, 0, 0] }

end Execution

/-- A key lights a lamp and leads to the second state, which drives an output as it is entered and
schedules the first. -/
def Machine.doorbell : ProgramMemory where
  image := #[0x5A, 2, 0, 8, 0, 22, 0, 36,
    1, 1, 1, 0, 0, 0, 0, 0, 0, 2, 0, 37, 0, 40,
    1, 0, 0, 0, 0, 0, 0, 0, 0, 2, 0, 43, 0, 46,
    4, 0x7E, 1, 1, 0x20, 1, 1, 0xFF, 1, 0, 0x83, 1, 7]

namespace Execution

/-- The key is pressed after a first check: evaluations, references and actions are walked, a goto is
followed and the board is told, on a device that answers nothing but the program as on any other. -/
theorem doorbell_sound :
    let layout : Layout := ⟨2, 36, 49⟩
    let released : Ports := Vector.replicate portCount 0
    let pressed : Ports := #v[1, 0, 0, 0]
    let waiting := (Machine.running { layout, pending := some 0 }).check Machine.doorbell released
    let rung := waiting.machine.check waiting.memory pressed
    Execution layout waiting.machine waiting.memory ∧
      rung.calls = [(.led 0, [1]), (.output 3, [7])] ∧
      rung.outcome.toOption = some (.moved 1 1) ∧ layout.EndsWell rung.outcome ∧
      (waiting.memory.confined 1 49).read 0 1 = .error .writeFailed ∧
      waiting.machine.check (waiting.memory.confined 1 49) pressed = rung.confined 1 49 := by
  intro layout released pressed waiting rung
  have h : Execution layout waiting.machine waiting.memory :=
    .check released (.start rfl rfl fun _ _ _ _ => rfl)
  obtain ⟨hends, hconfined⟩ := check_sound h pressed
  exact ⟨h, by decide +kernel, by decide +kernel, hends, if_pos rfl, hconfined⟩

end Execution

end RoomControl
