import Mathlib.Data.List.Chain
import RoomControl.Proofs.Program.Simulation

/-!
# When a check finds a loop

A check goes from state to state, along the first gotos that fire. `Trail` is such a way without a
state that comes twice, `Lands` says how a check ends that has taken it: a walk fails, no goto fires,
or the goto leads back to a state of the trail or out of the room that is left. Every check takes one
trail and ends as it says (`exists_trail`), and a trail settles what the check does
(`chase_of_trail`), so the states of the trail, `maxJumps + 1` at most, are all that is evaluated.

`loops_exactly` says so for every machine that was started on an image which nobody but the machine
has written since (`Reached`). A loop costs the image its status byte and nothing else, if the device
still takes the write; every other check leaves the memory alone.
-/

set_option autoImplicit false

namespace RoomControl.Machine

/-! ## The way of a check -/

section Trail

variable (evaluate : Bool → UInt8 → Walk Unit)

/-- The walk over a state ends well, and the first goto that it fires names `next`. A step of a check
is a state, and whether it is entered. -/
def GoesTo (step : Bool × UInt8) (next : UInt8) : Prop :=
  (evaluate step.1 step.2).result = .ok () ∧
    firstGoto (evaluate step.1 step.2).fired = some next

instance (step : Bool × UInt8) (next : UInt8) : Decidable (GoesTo evaluate step next) :=
  inferInstanceAs (Decidable (_ ∧ _))

/-- A way from the first step to the last, goto by goto, on which no state comes twice. -/
structure Trail (first : Bool × UInt8) (steps : List (Bool × UInt8)) (last : Bool × UInt8) :
    Prop where
  /-- Every step but the first is entered by the goto of the step in front of it. -/
  chain : steps.IsChain fun step step' => step'.1 = true ∧ GoesTo evaluate step step'.2
  head?_eq : steps.head? = some first
  getLast?_eq : steps.getLast? = some last
  distinct : (steps.map Prod.snd).Nodup
  /-- There are at most `maxJumps` gotos between them. -/
  short : steps.length ≤ maxJumps + 1

/-- How a check ends that has come to the end of its trail. -/
inductive Lands (steps : List (Bool × UInt8)) (last : Bool × UInt8) : Landing → Prop
  | failed {e : ProgramError} : (evaluate last.1 last.2).result = .error e →
      Lands steps last (.failed e)
  /-- No goto fires, and as many gotos as there are steps behind the first have led here. -/
  | settled : (evaluate last.1 last.2).result = .ok () →
      firstGoto (evaluate last.1 last.2).fired = none →
      Lands steps last (.settled last.2 (steps.length - 1))
  /-- The goto comes back to a state of the trail, or no goto is left. -/
  | looped {next : UInt8} : GoesTo evaluate last next →
      next ∈ steps.map Prod.snd ∨ steps.length = maxJumps + 1 → Lands steps last (.looped next)

/-- What the steps fire, one after the other. -/
def firedAlong (steps : List (Bool × UInt8)) : List Action :=
  steps.flatMap fun step => (evaluate step.1 step.2).fired

end Trail

/-- What a check reports that ends so. -/
def reported (persisted : Bool) : Landing → Except MachineError CheckOutcome
  | .failed e => .error (.program e)
  | .looped next => .error (.loopDetected next persisted)
  | .settled state hops => .ok (if hops = 0 then .stable state else .moved state hops)

section Chase

variable {evaluate : Bool → UInt8 → Walk Unit} {first last step : Bool × UInt8}
variable {done more steps : List (Bool × UInt8)} {next : UInt8}

theorem GoesTo.congr {evaluate' : Bool → UInt8 → Walk Unit} (h : GoesTo evaluate step next)
    (alike : evaluate' step.1 step.2 = evaluate step.1 step.2) : GoesTo evaluate' step next := by
  unfold GoesTo
  rw [alike]
  exact h

theorem Trail.start (first : Bool × UInt8) : Trail evaluate first [first] first where
  chain := .singleton first
  head?_eq := rfl
  getLast?_eq := rfl
  distinct := List.pairwise_singleton _ _
  short := Nat.succ_le_succ (Nat.zero_le _)

/-- A goto to a state that the trail does not have makes it longer, as long as there is room. -/
theorem Trail.extend (trail : Trail evaluate first steps last) (goes : GoesTo evaluate last next)
    (hnew : next ∉ steps.map Prod.snd) (hroom : steps.length ≤ maxJumps) :
    Trail evaluate first (steps ++ [(true, next)]) (true, next) where
  chain := by
    refine List.isChain_append.mpr ⟨trail.chain, .singleton _, fun step hstep step' hstep' => ?_⟩
    obtain rfl : last = step := Option.some.inj (trail.getLast?_eq.symm.trans hstep)
    obtain rfl : (true, next) = step' := Option.some.inj hstep'
    exact ⟨rfl, goes⟩
  head?_eq := by rw [List.head?_append, trail.head?_eq, Option.some_or]
  getLast?_eq := List.getLast?_concat
  distinct := by
    rw [List.map_append, List.map_singleton, List.nodup_append]
    refine ⟨trail.distinct, List.pairwise_singleton _ _, fun state hstate state' hstate' => ?_⟩
    obtain rfl := List.mem_singleton.mp hstate'
    intro heq
    exact hnew (heq ▸ hstate)
  short := by
    rw [List.length_append, List.length_singleton]
    omega

/-- The states that are left, the last one in front, as the check keeps them. -/
def pathOf (done : List (Bool × UInt8)) : List UInt8 := (done.map Prod.snd).reverse

@[simp] theorem length_pathOf : (pathOf done).length = done.length := by
  simp [pathOf]

@[simp] theorem pathOf_concat (done : List (Bool × UInt8)) (step : Bool × UInt8) :
    pathOf (done ++ [step]) = step.2 :: pathOf done := by
  simp [pathOf]

/-- What the check asks of the next state. -/
theorem back_iff : next = step.2 ∨ next ∈ pathOf done ↔ next ∈ (done ++ [step]).map Prod.snd := by
  simp [pathOf, or_comm]

theorem chase_onward {landing : Landing} {jumps : Nat} (hjumps : jumps + done.length = maxJumps)
    (trail : Trail evaluate first (done ++ step :: more) last)
    (lands : Lands evaluate (done ++ step :: more) last landing) :
    chase evaluate jumps (pathOf done) step.1 step.2 =
      (firedAlong evaluate (step :: more), landing) := by
  -- the check has left `done`, and the rest of the trail lies in front of it
  induction more generalizing done step jumps with
  | nil =>
    have hlength : (done ++ [step]).length = done.length + 1 := List.length_append
    obtain rfl : step = last :=
      Option.some.inj ((List.getLast?_concat).symm.trans trail.getLast?_eq)
    unfold chase
    cases lands with
    | failed hresult => simp [hresult, firedAlong]
    | settled hresult hgoto => simp [hresult, hgoto, firedAlong]
    | looped goes hback =>
      simp only [goes.1, goes.2, back_iff]
      split
      · simp [firedAlong]
      · -- the goto leads on, so the trail is as long as a trail can be
        have hfull := hback.resolve_left ‹_›
        obtain rfl : jumps = 0 := by omega
        simp [firedAlong]
  | cons step' more ih =>
    have hlength := trail.short
    rw [List.length_append, List.length_cons, List.length_cons] at hlength
    have happend : done ++ step :: step' :: more = (done ++ [step]) ++ step' :: more := by simp
    have hchain := trail.chain.right_of_append
    obtain ⟨⟨hentered, goes⟩, -⟩ := List.isChain_cons_cons.mp hchain
    have hnew : step'.2 ∉ (done ++ [step]).map Prod.snd := by
      have hdistinct := trail.distinct
      rw [happend, List.map_append, List.nodup_append] at hdistinct
      intro hmem
      exact hdistinct.2.2 _ hmem _ (by simp) rfl
    obtain ⟨left, rfl⟩ : ∃ left, jumps = left + 1 := ⟨jumps - 1, by omega⟩
    have hrest := @ih step' (done ++ [step]) left
      (by rw [List.length_append, List.length_singleton]; omega)
      (happend ▸ trail) (happend ▸ lands)
    rw [pathOf_concat, hentered] at hrest
    unfold chase
    simp only [goes.1, goes.2, if_neg (mt back_iff.mp hnew), hrest]
    simp [firedAlong]

/-- **Every check takes a trail.** Wherever it has come to, the trail so far goes on to its end. -/
theorem exists_trail (jumps : Nat) (path : List UInt8) (entering : Bool) (state : UInt8) :
    ∀ done, path = pathOf done → jumps + done.length = maxJumps →
      Trail evaluate first (done ++ [(entering, state)]) (entering, state) →
      ∃ more last, Trail evaluate first (done ++ (entering, state) :: more) last ∧
        Lands evaluate (done ++ (entering, state) :: more) last
          (chase evaluate jumps path entering state).2 := by
  -- one case for each way to land, and one for the goto that makes the trail longer
  fun_induction chase evaluate jumps path entering state with
  | case1 jumps path entering state walk e hresult =>
    intro done _ _ trail
    exact ⟨[], _, trail, .failed hresult⟩
  | case2 jumps path entering state walk hresult hgoto =>
    rintro done rfl _ trail
    have hhops : (pathOf done).length = (done ++ [(entering, state)]).length - 1 := by simp
    rw [hhops]
    exact ⟨[], _, trail, .settled hresult hgoto⟩
  | case3 jumps path entering state walk hresult next hgoto hback =>
    rintro done rfl _ trail
    exact ⟨[], _, trail, .looped ⟨hresult, hgoto⟩ (.inl (back_iff.mp hback))⟩
  | case4 path entering state walk hresult next hgoto hback =>
    intro done _ hjumps trail
    have hfull : (done ++ [(entering, state)]).length = maxJumps + 1 := by
      rw [List.length_append, List.length_singleton]
      omega
    exact ⟨[], _, trail, .looped ⟨hresult, hgoto⟩ (.inr hfull)⟩
  | case5 path entering state walk hresult next hgoto hback jumps fired landing hchase ih =>
    rintro done rfl hjumps trail
    have hlength : (done ++ [(entering, state)]).length = done.length + 1 := List.length_append
    have longer := trail.extend ⟨hresult, hgoto⟩ (mt back_iff.mpr hback) (by omega)
    have hpath := (pathOf_concat done (entering, state)).symm
    obtain ⟨more, last, whole, lands⟩ := ih _ hpath (by omega) longer
    rw [hchase] at lands
    rw [List.append_assoc, List.singleton_append] at whole lands
    exact ⟨(true, next) :: more, last, whole, lands⟩

/-- **A trail settles the check.** It fires what the steps fire, and lands where the trail does. -/
theorem chase_of_trail {landing : Landing} (trail : Trail evaluate first steps last)
    (lands : Lands evaluate steps last landing) :
    chase evaluate maxJumps [] first.1 first.2 = (firedAlong evaluate steps, landing) := by
  obtain ⟨more, rfl⟩ := List.head?_eq_some_iff.mp trail.head?_eq
  exact @chase_onward _ first last first [] more _ _ rfl trail lands

/-- Whoever evaluates the states of the trail alike takes the same trail, and lands where it does. -/
theorem chase_congr {evaluate' : Bool → UInt8 → Walk Unit} {landing : Landing}
    (trail : Trail evaluate first steps last) (lands : Lands evaluate steps last landing)
    (alike : ∀ step ∈ steps, evaluate' step.1 step.2 = evaluate step.1 step.2) :
    chase evaluate' maxJumps [] first.1 first.2 = chase evaluate maxJumps [] first.1 first.2 := by
  have hlast := alike last (List.mem_of_getLast? trail.getLast?_eq)
  have trail' : Trail evaluate' first steps last :=
    { trail with
      chain := trail.chain.imp_of_mem_imp fun step step' hmem _ hgoes =>
        ⟨hgoes.1, hgoes.2.congr (alike step hmem)⟩ }
  have lands' : Lands evaluate' steps last landing := by
    cases lands with
    | failed hresult => exact .failed (hlast ▸ hresult)
    | settled hresult hgoto => exact .settled (hlast ▸ hresult) (hlast ▸ hgoto)
    | looped goes hback => exact .looped (goes.congr hlast) hback
  have hfired : firedAlong evaluate' steps = firedAlong evaluate steps := by
    unfold firedAlong
    rw [List.flatMap_def, List.flatMap_def]
    exact congrArg _ (List.map_congr_left fun step hmem => congrArg _ (alike step hmem))
  rw [chase_of_trail trail lands, chase_of_trail trail' lands', hfired]

end Chase

/-! ## What a loop leaves -/

section Check

variable {machine : Machine} {m : ProgramMemory} {inputs : Ports}

/-- What a check concludes about the memory. -/
inductive Concludes (m : ProgramMemory) : Checked → Prop
  /-- There was no loop, and nothing was written. -/
  | noLoop {outcome : Except MachineError CheckOutcome} {calls : List (Device × Bytes)}
      {machine : Machine} : (∀ next persisted, outcome ≠ .error (.loopDetected next persisted)) →
      Concludes m ⟨outcome, calls, machine, m⟩
  | marked {next : UInt8} {calls : List (Device × Bytes)} {m' : ProgramMemory} :
      m.write 0 [statusDisabled] = .ok m' →
      Concludes m ⟨.error (.loopDetected next true), calls, disabled, m'⟩
  /-- There was a loop, and the device did not take the write. -/
  | unmarked {next : UInt8} {calls : List (Device × Bytes)} :
      Concludes m ⟨.error (.loopDetected next false), calls, disabled, m⟩

/-- A check from a state on does as its chain of gotos ends. -/
theorem checkFrom_eq {run : Running} {entering : Bool} {state : UInt8} {fired : List Action}
    {landing : Landing} (h : chase (run.layout.evaluate m (run.baseline.getD inputs) inputs)
      maxJumps [] entering state = (fired, landing)) :
    (checkFrom run m inputs entering state).outcome =
        reported (m.write 0 [statusDisabled]).isOk landing ∧
      (checkFrom run m inputs entering state).calls = boardCalls fired ∧
      Concludes m (checkFrom run m inputs entering state) := by
  unfold checkFrom
  simp only [h]
  cases landing with
  | failed e => exact ⟨rfl, rfl, .noLoop nofun⟩
  | settled last hops => exact ⟨rfl, rfl, .noLoop nofun⟩
  | looped next =>
    cases hwrite : m.write 0 [statusDisabled] with
    | ok m' => exact ⟨rfl, rfl, .marked hwrite⟩
    | error e => exact ⟨rfl, rfl, .unmarked⟩

theorem concludes_check (machine : Machine) (m : ProgramMemory) (inputs : Ports) :
    Concludes m (machine.check m inputs) := by
  cases machine with
  | idle => exact .noLoop nofun
  | disabled => exact .noLoop nofun
  | running run =>
    unfold check
    dsimp only
    split
    · exact (checkFrom_eq rfl).2.2
    · exact (checkFrom_eq rfl).2.2
    · exact .noLoop nofun

/-- **A check that finds a loop** stops the machine. It has put down the status byte of a disabled
program if it says so, and else nothing. -/
theorem stopped_of_loopDetected {next : UInt8} {persisted : Bool}
    (h : (machine.check m inputs).outcome = .error (.loopDetected next persisted)) :
    (machine.check m inputs).machine = disabled ∧
      (persisted = true → m.write 0 [statusDisabled] = .ok (machine.check m inputs).memory) ∧
      (persisted = false → (machine.check m inputs).memory = m) := by
  have concludes := concludes_check machine m inputs
  generalize machine.check m inputs = checked at h concludes ⊢
  cases concludes with
  | noLoop hno => exact absurd h (hno next persisted)
  | marked hwrite =>
    cases h
    exact ⟨rfl, fun _ => hwrite, nofun⟩
  | unmarked =>
    cases h
    exact ⟨rfl, nofun, fun _ => rfl⟩

/-- The status byte says that the program is disabled, if the check says so. -/
theorem byteAt_of_loopDetected {next : UInt8}
    (h : (machine.check m inputs).outcome = .error (.loopDetected next true)) :
    (machine.check m inputs).memory.byteAt 0 = statusDisabled := by
  have written := ProgramMemory.written_of_write ((stopped_of_loopDetected h).2.1 rfl)
  rw [written.byteAt_eq, placed_cons, if_pos rfl, Option.getD_some]

/-- A check that finds no loop leaves the memory alone. -/
theorem memory_of_no_loop
    (h : ∀ next persisted,
      (machine.check m inputs).outcome ≠ .error (.loopDetected next persisted)) :
    (machine.check m inputs).memory = m := by
  have concludes := concludes_check machine m inputs
  generalize machine.check m inputs = checked at h concludes ⊢
  cases concludes with
  | noLoop _ => rfl
  | marked _ => exact absurd rfl (h _ _)
  | unmarked => rfl

end Check

/-! ## Every machine that was started -/

/-- What a machine comes to that was started on an image which only the machine has written since.
The device behind the image may refuse what it likes. -/
inductive Reached : Machine → ProgramMemory → Prop
  | start {machine : Machine} {m : ProgramMemory} : Machine.start m = (.ok (), machine) →
      Reached machine m
  | enter {machine : Machine} {m : ProgramMemory} (state : UInt8) : Reached machine m →
      Reached (machine.enter state) m
  | check {machine : Machine} {m : ProgramMemory} (inputs : Ports) : Reached machine m →
      Reached (machine.check m inputs).machine (machine.check m inputs).memory
  | device {machine : Machine} {m m' : ProgramMemory} : Reached machine m → m'.image = m.image →
      Reached machine m'

/-- While the machine runs, the status byte enables the program. -/
theorem Reached.enabled {machine : Machine} {m : ProgramMemory} (reached : Reached machine m)
    (running : machine.IsRunning) : m.byteAt 0 = statusEnabled := by
  induction reached with
  | @start machine m hstart =>
    have started := started_of_start m
    rw [hstart] at started
    cases started with
    | running henabled _ _ => exact henabled
  | enter state _ ih => exact ih (isRunning_enter.mp running)
  | check inputs _ ih =>
    rw [memory_of_check running]
    exact ih (isRunning_of_check running)
  | @device machine m m' _ himage ih =>
    rw [ProgramMemory.byteAt, himage]
    exact ih running

/-- **Loops are found exactly.** A machine that runs on the image it was started on takes, in every
check, a trail from the state that the check starts in. The trail has at most seventeen steps, and
nothing else is evaluated. The check finds a loop if and only if the last step goes to a state of the
trail, or goes on from the seventeenth; otherwise it settles there, or the last walk fails. A loop
stops the machine and may change the status byte alone, which then says so if and only if the check
does. Every other check leaves the memory alone. -/
theorem loops_exactly {run : Running} {m : ProgramMemory} (reached : Reached (running run) m)
    (inputs : Ports) :
    let evaluate := run.layout.evaluate m (run.baseline.getD inputs) inputs
    let checked := (running run).check m inputs
    let persisted := (m.write 0 [statusDisabled]).isOk
    (∀ entering state, (Standing.mk run.current run.pending run.baseline).Begins entering state →
      (∀ outcome, checked.outcome = outcome ↔
        ∃ steps last landing, Trail evaluate (entering, state) steps last ∧
          Lands evaluate steps last landing ∧ outcome = reported persisted landing) ∧
      ∃ steps last, Trail evaluate (entering, state) steps last ∧ steps.length ≤ 17 ∧
        checked.calls = boardCalls (firedAlong evaluate steps) ∧
        ∀ evaluate' : Bool → UInt8 → Walk Unit,
          (∀ step ∈ steps, evaluate' step.1 step.2 = evaluate step.1 step.2) →
          chase evaluate' maxJumps [] entering state = chase evaluate maxJumps [] entering state) ∧
    (∀ next marked, checked.outcome = .error (.loopDetected next marked) →
      checked.machine = disabled ∧ ProgramMemory.AgreesFrom 1 m checked.memory ∧
        (checked.memory.byteAt 0 = statusDisabled ↔ marked = true)) ∧
    ((∀ next marked, checked.outcome ≠ .error (.loopDetected next marked)) →
      checked.memory = m) := by
  intro evaluate checked persisted
  refine ⟨fun entering state begins => ?_, fun next marked hloop => ?_, memory_of_no_loop⟩
  · have hcheck : checked = checkFrom run m inputs entering state := check_of_begins begins
    have settles : ∀ {steps last landing}, Trail evaluate (entering, state) steps last →
        Lands evaluate steps last landing → checked.outcome = reported persisted landing ∧
          checked.calls = boardCalls (firedAlong evaluate steps) := by
      intro steps last landing trail lands
      have hfrom := checkFrom_eq (chase_of_trail trail lands)
      rw [hcheck]
      exact ⟨hfrom.1, hfrom.2.1⟩
    obtain ⟨more, last, trail, lands⟩ :=
      @exists_trail evaluate (entering, state) maxJumps [] entering state [] rfl rfl (.start _)
    refine ⟨fun outcome => ⟨?_, ?_⟩, _, last, trail, trail.short, (settles trail lands).2,
      fun _ => chase_congr trail lands⟩
    · rintro rfl
      exact ⟨_, last, _, trail, lands, (settles trail lands).1⟩
    · rintro ⟨steps', last', landing, trail', lands', rfl⟩
      exact (settles trail' lands').1
  · have stopped := stopped_of_loopDetected hloop
    refine ⟨stopped.1, agreesFrom_check .., ?_⟩
    cases marked with
    | true => exact iff_of_true (byteAt_of_loopDetected hloop) rfl
    | false =>
      have henabled : m.byteAt 0 = statusEnabled := reached.enabled trivial
      have hmemory : checked.memory = m := stopped.2.2 rfl
      rw [hmemory, henabled]
      exact iff_of_false (by decide) nofun

/-- Two states that lead to each other as they are entered. -/
def seesaw : ProgramMemory where
  image := #[0x5A, 2, 0, 8, 0, 20, 0, 32,
    1, 0, 0, 0, 0, 0, 0, 0, 0, 1, 0, 33,
    1, 0, 0, 0, 0, 0, 0, 0, 0, 1, 0, 36,
    2, 0xFE, 1, 1, 0xFE, 1, 0]

/-- The check goes from the first state to the second and finds itself back. -/
theorem seesaw_loops :
    let run : Running := { layout := ⟨2, 32, 39⟩, pending := some 0 }
    let still : Ports := Vector.replicate portCount 0
    let evaluate := run.layout.evaluate seesaw still still
    let checked := (running run).check seesaw still
    Reached (running run) seesaw ∧ Standing.first.Begins true 0 ∧
      Trail evaluate (true, 0) [(true, 0), (true, 1)] (true, 1) ∧ GoesTo evaluate (true, 1) 0 ∧
      checked.outcome = .error (.loopDetected 0 true) ∧ checked.machine = disabled ∧
      checked.memory.byteAt 0 = statusDisabled := by
  intro run still evaluate checked
  have reached : Reached (running run) seesaw := .start (by decide +kernel)
  have begins : Standing.first.Begins true 0 := .enter rfl
  have goes : GoesTo evaluate (true, 0) 1 := by decide +kernel
  have back : GoesTo evaluate (true, 1) 0 := by decide +kernel
  have trail : Trail evaluate (true, 0) [(true, 0), (true, 1)] (true, 1) :=
    (Trail.start (true, 0)).extend goes (by decide) (by decide)
  have laws := loops_exactly reached still
  have hloop : checked.outcome = .error (.loopDetected 0 true) :=
    ((laws.1 true 0 begins).1 _).mpr ⟨_, _, _, trail, .looped back (.inl (by decide)), rfl⟩
  have stopped := laws.2.1 0 true hloop
  exact ⟨reached, begins, trail, back, hloop, stopped.1, stopped.2.2.mpr rfl⟩

end RoomControl.Machine
