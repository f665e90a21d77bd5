import RoomControl.Proofs.Program.Chart
import RoomControl.Proofs.Program.Execution

/-!
# The machine runs the chart

The machine follows bytes, the abstract machine follows a chart. What the checks of a started program
show is what the abstract machine shows on the chart that the bytes store, and nothing else, whatever
states are entered and whatever the inputs are, but for one thing: the machine keeps the scheduled state
in a record in which `noState` stands for "nothing is scheduled", so that a request to enter the state of
this number is forgotten (`Standing.recorded`). No program has that state, and the abstract machine stops
at it. `shown_iff_runs` says both: what the machine does in any case, and that it is the abstract machine
as long as no check is due to enter `noState` (`Heeded`).

The walk over one state is settled by `Layout.evaluate_eq`. What is left is the chain of gotos
(`chase_iff_follows`, by induction on the jumps that are left), one check (`exists_checks` for the
abstract machine, `checks_check` for the machine), and the calls one after the other (`exists_runs`,
`runs_shown`), along which `Execution.Sound` keeps the bytes that were decoded.
-/

set_option autoImplicit false

namespace RoomControl

/-- A call to a machine that was started. -/
inductive MachineCall where
  | enter (state : UInt8)
  | check (inputs : Ports)

/-- What a check shows: how it ended, what the board was told, and where the machine stands. -/
structure Shown where
  outcome : Except MachineError CheckOutcome
  calls : List (Device × Bytes)
  standing : Option Standing

/-- What a record keeps of a standing in which `noState` is not told from nothing scheduled. -/
def Standing.recorded (s : Standing) : Standing :=
  { s with pending := s.pending.filter fun state => state ≠ noState }

/-- Without a request to enter `noState` the record is complete. -/
theorem Standing.recorded_of_ne {s : Standing} (h : s.pending ≠ some noState) : s.recorded = s := by
  obtain ⟨current, pending, baseline⟩ := s
  cases pending with
  | none => rfl
  | some state =>
    have hstate : state ≠ noState := fun hsame => h (congrArg some hsame)
    simp [recorded, hstate]

def Shown.recorded (s : Shown) : Shown := { s with standing := s.standing.map Standing.recorded }

/-- What the abstract machine shows along a list of calls. `kept` is what is left of its standing after
each call: all of it (`id`), unless a record of it is kept that does not tell everything. -/
inductive Chart.Runs (chart : Chart) (persisted : Bool) (kept : Standing → Standing) :
    Option Standing → List MachineCall → List Shown → Prop
  | done {standing : Option Standing} : Runs chart persisted kept standing [] []
  | enter {standing : Option Standing} {state : UInt8} {rest : List MachineCall}
      {shown : List Shown} :
      Runs chart persisted kept (standing.map fun s => kept (s.enter state)) rest shown →
      Runs chart persisted kept standing (.enter state :: rest) shown
  | check {standing after : Option Standing} {inputs : Ports} {rest : List MachineCall}
      {outcome : Except MachineError CheckOutcome} {calls : List (Device × Bytes)}
      {shown : List Shown} : chart.Checks persisted inputs standing outcome calls after →
      Runs chart persisted kept (after.map kept) rest shown →
      Runs chart persisted kept standing (.check inputs :: rest)
        (⟨outcome, calls, after.map kept⟩ :: shown)

/-- No check of a run is due to enter the state `noState`. -/
def Heeded : Option Standing → List MachineCall → List Shown → Prop
  | standing, .enter state :: rest, shown => Heeded (standing.map (Standing.enter state)) rest shown
  | standing, .check _ :: rest, s :: shown =>
    (∀ t ∈ standing, t.pending ≠ some noState) ∧ Heeded s.standing rest shown
  | _, _, _ => True

namespace Machine

/-- Where the machine stands. -/
def standing : Machine → Option Standing
  | running run => some ⟨run.current, run.pending, run.baseline⟩
  | _ => none

/-- A record with one number for `noState` and for nothing keeps the states that a byte can name. -/
theorem filter_eq_bind_named (pending : Option UInt8) :
    pending.filter (fun state => state ≠ noState) = pending.bind named := by
  cases pending with
  | none => rfl
  | some state =>
    by_cases h : state = noState
    · simp [named, h]
    · simp [named, h]

/-- What the machine shows along a list of calls. -/
def shown (machine : Machine) (m : ProgramMemory) : List MachineCall → List Shown
  | [] => []
  | .enter state :: rest => (machine.enter state).shown m rest
  | .check inputs :: rest =>
    let c := machine.check m inputs
    ⟨c.outcome, c.calls, c.machine.standing⟩ :: c.machine.shown c.memory rest

end Machine

/-! ## One state -/

/-- The walks over the states fire what the rules of the chart fire. -/
structure Chart.Walks (chart : Chart) (baseline inputs : Ports)
    (evaluate : Bool → UInt8 → Walk Unit) : Prop where
  found : ∀ {entering state rules}, chart[state.toNat]? = some rules →
    evaluate entering state = ⟨rules.flatMap (Rule.fired baseline inputs entering), .ok ()⟩
  missing : ∀ {entering state}, chart[state.toNat]? = none →
    evaluate entering state = ⟨[], .error (.noSuchState state)⟩

theorem Layout.walks {layout : Layout} {m : ProgramMemory} {contents : Nat → UInt8} {size : Nat}
    (wf : layout.WellFormed contents size) (serves : m.Serves contents 1 layout.length)
    (baseline inputs : Ports) :
    (layout.chart contents).Walks baseline inputs (layout.evaluate m baseline inputs) := by
  constructor
  case found =>
    intro entering state rules hrules
    obtain ⟨h, rfl⟩ := List.getElem?_eq_some_iff.mp hrules
    have hstate : state.toNat < layout.stateCount := by simpa [chart] using h
    rw [evaluate_eq wf serves hstate]
    simp [chart]
  case missing =>
    intro entering state hnone
    exact evaluate_noSuchState (by simpa [chart] using hnone)

/-- The states are counted in a byte, so that none of them has the number `noState`. -/
theorem Layout.WellFormed.length_chart_le {layout : Layout} {contents : Nat → UInt8} {size : Nat}
    (wf : layout.WellFormed contents size) : (layout.chart contents).length ≤ noState.toNat := by
  have hbyte := (contents 1).toNat_lt
  rw [← wf.count_eq] at hbyte
  simp only [chart, List.length_map, List.length_range]
  exact Nat.le_of_lt_succ hbyte

namespace Chart.Walks

variable {chart : Chart} {baseline inputs : Ports} {evaluate : Bool → UInt8 → Walk Unit}
variable (walks : chart.Walks baseline inputs evaluate) {entering : Bool} {state : UInt8}

include walks

theorem of_ok (h : (evaluate entering state).result = .ok ()) :
    ∃ rules, chart[state.toNat]? = some rules ∧
      Rule.FireAll baseline inputs entering rules (evaluate entering state).fired := by
  cases hstate : chart[state.toNat]? with
  | none =>
    rw [walks.missing hstate] at h
    cases h
  | some rules =>
    rw [walks.found hstate]
    exact ⟨rules, rfl, Rule.fireAll_iff.mpr rfl⟩

theorem of_error {e : ProgramError} (h : (evaluate entering state).result = .error e) :
    chart[state.toNat]? = none ∧ (evaluate entering state).fired = [] ∧ e = .noSuchState state := by
  cases hstate : chart[state.toNat]? with
  | none =>
    rw [walks.missing hstate] at h ⊢
    cases h
    exact ⟨rfl, rfl, rfl⟩
  | some rules =>
    rw [walks.found hstate] at h
    cases h

end Chart.Walks

/-! ## The chain of gotos -/

namespace Machine

section Chase

variable {chart : Chart} {baseline inputs : Ports} {evaluate : Bool → UInt8 → Walk Unit}
variable (walks : chart.Walks baseline inputs evaluate)

include walks

theorem chase_of_follows {path : List UInt8} {entering : Bool} {state : UInt8} {fired : List Action}
    {landing : Landing} (h : chart.Follows baseline inputs path entering state fired landing)
    {jumps : Nat} (hjumps : jumps + path.length = maxJumps) :
    chase evaluate jumps path entering state = (fired, landing) := by
  induction h generalizing jumps with
  | missing hnone =>
    unfold chase
    simp only [walks.missing hnone]
  | settled hstate hfires hgoto =>
    obtain rfl := Rule.fireAll_iff.mp hfires
    unfold chase
    simp only [walks.found hstate, firstGoto_eq_none_iff.mpr hgoto]
  | @looped path _ state next _ _ hstate hfires hgoto hback =>
    obtain rfl := Rule.fireAll_iff.mp hfires
    unfold chase
    simp only [walks.found hstate, firstGoto_iff.mp hgoto]
    by_cases hseen : next = state ∨ next ∈ path
    · rw [if_pos hseen]
    · have hfull : path.length = maxJumps := by
        rcases hback with h | h | h
        · exact absurd (.inl h) hseen
        · exact absurd (.inr h) hseen
        · exact h
      obtain rfl : jumps = 0 := by omega
      rw [if_neg hseen]
  | jumped hstate hfires hgoto hnew hroom _ ih =>
    obtain rfl := Rule.fireAll_iff.mp hfires
    -- there is room in the path, so there is a jump left
    obtain ⟨left, rfl⟩ : ∃ left, jumps = left + 1 := ⟨jumps - 1, by omega⟩
    unfold chase
    simp only [walks.found hstate, firstGoto_iff.mp hgoto]
    rw [if_neg hnew, ih (by rw [List.length_cons]; omega)]

theorem follows_chase {jumps : Nat} {path : List UInt8} {entering : Bool} {state : UInt8}
    (hjumps : jumps + path.length = maxJumps) :
    chart.Follows baseline inputs path entering state
      (chase evaluate jumps path entering state).1 (chase evaluate jumps path entering state).2 := by
  -- one case for each way out of a state, and one for the jump to the next
  fun_induction chase evaluate jumps path entering state with
  | case1 jumps path entering state walk e hwalk =>
    obtain ⟨hnone, hfired, rfl⟩ := walks.of_error hwalk
    rw [hfired]
    exact .missing hnone
  | case2 jumps path entering state walk hwalk hgoto =>
    obtain ⟨rules, hstate, hfires⟩ := walks.of_ok hwalk
    exact .settled hstate hfires (firstGoto_eq_none_iff.mp hgoto)
  | case3 jumps path entering state walk hwalk next hgoto hseen =>
    obtain ⟨rules, hstate, hfires⟩ := walks.of_ok hwalk
    refine .looped hstate hfires (firstGoto_iff.mpr hgoto) ?_
    exact hseen.imp_right .inl
  | case4 path entering state walk hwalk next hgoto hseen =>
    obtain ⟨rules, hstate, hfires⟩ := walks.of_ok hwalk
    exact .looped hstate hfires (firstGoto_iff.mpr hgoto) (.inr (.inr (by omega)))
  | case5 path entering state walk hwalk next hgoto hseen jumps fired landing hchase ih =>
    obtain ⟨rules, hstate, hfires⟩ := walks.of_ok hwalk
    have hmore := ih (by rw [List.length_cons]; omega)
    rw [hchase] at hmore
    exact .jumped hstate hfires (firstGoto_iff.mpr hgoto) hseen (by omega) hmore

/-- **The machine follows the gotos of the chart.** -/
theorem chase_iff_follows {entering : Bool} {state : UInt8} {fired : List Action}
    {landing : Landing} :
    chart.Follows baseline inputs [] entering state fired landing ↔
      chase evaluate maxJumps [] entering state = (fired, landing) := by
  constructor
  · intro h
    exact chase_of_follows walks h rfl
  · intro h
    have hfollows : chart.Follows baseline inputs [] entering state
        (chase evaluate maxJumps [] entering state).1
        (chase evaluate maxJumps [] entering state).2 := follows_chase walks rfl
    rwa [h] at hfollows

end Chase

/-! ## The abstract machine does one thing -/

section Deterministic

variable {chart : Chart} {evaluate : Ports → Ports → Bool → UInt8 → Walk Unit} {inputs : Ports}
variable {s : Standing} {entering entering' : Bool} {state state' : UInt8}

theorem begins_unique (h : s.Begins entering state) (h' : s.Begins entering' state') :
    entering' = entering ∧ state' = state := by
  cases h with
  | enter hpending =>
    cases h' with
    | enter hpending' => exact ⟨rfl, Option.some.inj (hpending'.symm.trans hpending)⟩
    | stay hnone => cases hpending.symm.trans hnone
  | stay hnone hcurrent =>
    cases h' with
    | enter hpending' => cases hnone.symm.trans hpending'
    | stay _ hcurrent' => exact ⟨rfl, Option.some.inj (hcurrent'.symm.trans hcurrent)⟩

variable (walks : ∀ baseline inputs, chart.Walks baseline inputs (evaluate baseline inputs))

include walks

theorem follows_unique {fired fired' : List Action} {landing landing' : Landing}
    (begins : s.Begins entering state) (begins' : s.Begins entering' state')
    (h : chart.Follows (s.baseline.getD inputs) inputs [] entering state fired landing)
    (h' : chart.Follows (s.baseline.getD inputs) inputs [] entering' state' fired' landing') :
    fired' = fired ∧ landing' = landing := by
  obtain ⟨rfl, rfl⟩ := begins_unique begins begins'
  have hchase := (chase_iff_follows (walks _ _)).mp h
  rw [(chase_iff_follows (walks _ _)).mp h'] at hchase
  exact Prod.mk.inj hchase

theorem checks_iff {persisted : Bool} {fired : List Action} {landing : Landing}
    (begins : s.Begins entering state)
    (h : chart.Follows (s.baseline.getD inputs) inputs [] entering state fired landing)
    {outcome : Except MachineError CheckOutcome} {calls : List (Device × Bytes)}
    {after : Option Standing} :
    chart.Checks persisted inputs (some s) outcome calls after ↔
      outcome = landing.outcome persisted ∧ calls = fired.filterMap Action.boardCall ∧
        after = landing.standing fired inputs := by
  constructor
  · intro hchecks
    cases hchecks with
    | nowhere hpending hcurrent => exact absurd ⟨hpending, hcurrent⟩ begins.somewhere
    | settled begins' h' hschedules =>
      obtain ⟨rfl, rfl⟩ := follows_unique walks begins begins' h h'
      obtain rfl := schedules_iff.mp hschedules
      exact ⟨rfl, rfl, rfl⟩
    | looped begins' h' =>
      obtain ⟨rfl, rfl⟩ := follows_unique walks begins begins' h h'
      exact ⟨rfl, rfl, rfl⟩
    | failed begins' h' =>
      obtain ⟨rfl, rfl⟩ := follows_unique walks begins begins' h h'
      exact ⟨rfl, rfl, rfl⟩
  · rintro ⟨rfl, rfl, rfl⟩
    cases landing with
    | settled last hops => exact .settled begins h (schedules_iff.mpr rfl)
    | looped next => exact .looped begins h
    | failed e => exact .failed begins h

/-- Wherever the abstract machine stands, there is one check. -/
theorem exists_checks (persisted : Bool) (inputs : Ports) (standing : Option Standing) :
    ∃ outcome calls after, ∀ outcome' calls' after',
      chart.Checks persisted inputs standing outcome' calls' after' ↔
        outcome' = outcome ∧ calls' = calls ∧ after' = after := by
  cases standing with
  | none =>
    refine ⟨.ok .inactive, [], none, fun outcome' calls' after' => ⟨fun h => ?_, ?_⟩⟩
    · cases h
      exact ⟨rfl, rfl, rfl⟩
    · rintro ⟨rfl, rfl, rfl⟩
      exact .stopped
  | some s =>
    by_cases hnowhere : s.pending = none ∧ s.current = none
    · refine ⟨.ok .inactive, [], some s, fun outcome' calls' after' => ⟨fun h => ?_, ?_⟩⟩
      · cases h with
        | nowhere => exact ⟨rfl, rfl, rfl⟩
        | settled begins => exact absurd hnowhere begins.somewhere
        | looped begins => exact absurd hnowhere begins.somewhere
        | failed begins => exact absurd hnowhere begins.somewhere
      · rintro ⟨rfl, rfl, rfl⟩
        exact .nowhere hnowhere.1 hnowhere.2
    · obtain ⟨entering, state, begins⟩ := Standing.exists_begins hnowhere
      exact ⟨_, _, _, fun _ _ _ => checks_iff walks begins (follows_chase (walks _ _) rfl)⟩

/-- Whatever its calls are, there is one run of it. -/
theorem exists_runs (persisted : Bool) (kept : Standing → Standing) (standing : Option Standing)
    (calls : List MachineCall) :
    ∃ shown, ∀ other, chart.Runs persisted kept standing calls other ↔ other = shown := by
  induction calls generalizing standing with
  | nil =>
    refine ⟨[], fun other => ⟨fun h => ?_, ?_⟩⟩
    · cases h
      rfl
    · rintro rfl
      exact .done
  | cons c rest ih =>
    cases c with
    | enter state =>
      obtain ⟨shown, hrest⟩ := ih (standing.map fun s => kept (s.enter state))
      refine ⟨shown, fun other => ⟨fun h => ?_, fun h => .enter ((hrest other).mpr h)⟩⟩
      cases h with
      | enter h => exact (hrest other).mp h
    | check inputs =>
      obtain ⟨outcome, told, after, hchecks⟩ := exists_checks walks persisted inputs standing
      obtain ⟨shown, hrest⟩ := ih (after.map kept)
      refine ⟨⟨outcome, told, after.map kept⟩ :: shown, fun other => ⟨fun h => ?_, ?_⟩⟩
      · cases h with
        | check h hmore =>
          obtain ⟨rfl, rfl, rfl⟩ := (hchecks _ _ _).mp h
          rw [(hrest _).mp hmore]
      · rintro rfl
        exact .check ((hchecks _ _ _).mpr ⟨rfl, rfl, rfl⟩) ((hrest shown).mpr rfl)

end Deterministic

/-! ## One check -/

section Check

variable {chart : Chart} {m : ProgramMemory} {inputs : Ports} {persisted : Bool}

theorem check_of_begins {run : Running} {entering : Bool} {state : UInt8}
    (h : (Standing.mk run.current run.pending run.baseline).Begins entering state) :
    (running run).check m inputs = checkFrom run m inputs entering state := by
  unfold check
  cases h with
  | enter hpending => simp only [show run.pending = some state from hpending]
  | stay hpending hcurrent =>
    simp only [show run.pending = none from hpending, show run.current = some state from hcurrent]

theorem check_nowhere {run : Running} (hpending : run.pending = none) (hcurrent : run.current = none) :
    (running run).check m inputs = ⟨.ok .inactive, [], running run, m⟩ := by
  unfold check
  simp only [hpending, hcurrent]

section From

variable {run : Running} {entering : Bool} {state : UInt8} {fired : List Action}
variable (walks : chart.Walks (run.baseline.getD inputs) inputs
  (run.layout.evaluate m (run.baseline.getD inputs) inputs))
variable (hbegins : (Standing.mk run.current run.pending run.baseline).Begins entering state)

include walks hbegins

theorem check_settled {last : UInt8} {hops : Nat}
    (h : chart.Follows (run.baseline.getD inputs) inputs [] entering state fired
      (.settled last hops)) :
    (running run).check m inputs =
      ⟨.ok (if hops = 0 then .stable last else .moved last hops), fired.filterMap Action.boardCall,
        running { run with
          current := some last
          pending := (lastEnter fired).bind named
          baseline := some inputs }, m⟩ := by
  rw [check_of_begins hbegins]
  unfold checkFrom
  dsimp only
  rw [(chase_iff_follows walks).mp h, boardCalls_eq]

theorem check_failed {e : ProgramError}
    (h : chart.Follows (run.baseline.getD inputs) inputs [] entering state fired (.failed e)) :
    (running run).check m inputs =
      ⟨.error (.program e), fired.filterMap Action.boardCall, disabled, m⟩ := by
  rw [check_of_begins hbegins]
  unfold checkFrom
  dsimp only
  rw [(chase_iff_follows walks).mp h, boardCalls_eq]

theorem check_looped (hpersisted : persisted = true ↔ ∃ m', m.write 0 [statusDisabled] = .ok m')
    {next : UInt8}
    (h : chart.Follows (run.baseline.getD inputs) inputs [] entering state fired (.looped next)) :
    ∃ m', (running run).check m inputs =
      ⟨.error (.loopDetected next persisted), fired.filterMap Action.boardCall, disabled, m'⟩ := by
  rw [check_of_begins hbegins]
  unfold checkFrom
  dsimp only
  rw [(chase_iff_follows walks).mp h, boardCalls_eq]
  cases hwrite : m.write 0 [statusDisabled] with
  | ok m' =>
    obtain rfl := hpersisted.mpr ⟨m', hwrite⟩
    exact ⟨m', rfl⟩
  | error e =>
    have hfalse : persisted = false := by
      rw [hwrite] at hpersisted
      simpa using hpersisted
    subst hfalse
    exact ⟨m, rfl⟩

theorem checks_of_begins (hpersisted : persisted = true ↔ ∃ m', m.write 0 [statusDisabled] = .ok m') :
    ∃ after, chart.Checks persisted inputs (running run).standing
        ((running run).check m inputs).outcome ((running run).check m inputs).calls after ∧
      after.map Standing.recorded = ((running run).check m inputs).machine.standing := by
  have hfollows : ∃ fired landing,
      chart.Follows (run.baseline.getD inputs) inputs [] entering state fired landing :=
    ⟨_, _, follows_chase walks rfl⟩
  obtain ⟨fired, landing, h⟩ := hfollows
  cases landing with
  | settled last hops =>
    rw [check_settled walks hbegins h]
    refine ⟨_, .settled hbegins h (schedules_iff.mpr rfl), ?_⟩
    show some (Standing.recorded ⟨some last, lastEnter fired, some inputs⟩) = _
    rw [Standing.recorded, filter_eq_bind_named]
    rfl
  | looped next =>
    obtain ⟨m', hcheck⟩ := check_looped walks hbegins hpersisted h
    rw [hcheck]
    exact ⟨none, .looped hbegins h, rfl⟩
  | failed e =>
    rw [check_failed walks hbegins h]
    exact ⟨none, .failed hbegins h, rfl⟩

end From

/-- The walks that a check of this machine makes fire what the rules of the chart fire. -/
def WalksOn (chart : Chart) (m : ProgramMemory) (inputs : Ports) (machine : Machine) : Prop :=
  ∀ run, machine = running run →
    chart.Walks (run.baseline.getD inputs) inputs
      (run.layout.evaluate m (run.baseline.getD inputs) inputs)

variable {machine : Machine} (walks : WalksOn chart m inputs machine)
variable (hpersisted : machine.IsRunning →
  (persisted = true ↔ ∃ m', m.write 0 [statusDisabled] = .ok m'))

include walks hpersisted

/-- **A check does what the abstract machine does**, and records where that stands. -/
theorem checks_check :
    ∃ after, chart.Checks persisted inputs machine.standing (machine.check m inputs).outcome
        (machine.check m inputs).calls after ∧
      after.map Standing.recorded = (machine.check m inputs).machine.standing := by
  cases machine with
  | idle => exact ⟨none, .stopped, rfl⟩
  | disabled => exact ⟨none, .stopped, rfl⟩
  | running run =>
    have walks := walks run rfl
    have hpersisted := hpersisted trivial
    cases hpending : run.pending with
    | some state => exact checks_of_begins walks (.enter hpending) hpersisted
    | none =>
      cases hcurrent : run.current with
      | some state => exact checks_of_begins walks (.stay hpending hcurrent) hpersisted
      | none =>
        rw [check_nowhere hpending hcurrent]
        refine ⟨_, .nowhere hpending hcurrent, ?_⟩
        rw [standing, Option.map_some, Standing.recorded, hpending]
        rfl

end Check

/-! ## The calls one after the other -/

section Calls

variable {layout : Layout} {contents : Nat → UInt8} {size : Nat} {persisted : Bool}

theorem standing_enter (machine : Machine) (state : UInt8) :
    (machine.enter state).standing =
      machine.standing.map fun s => (s.enter state).recorded := by
  cases machine with
  | idle => rfl
  | disabled => rfl
  | running run =>
    rw [enter, standing, standing, Option.map_some, Standing.recorded, Standing.enter,
      filter_eq_bind_named]
    rfl

theorem walksOn_of_sound {machine : Machine} {m : ProgramMemory}
    (wf : layout.WellFormed contents size) (sound : Execution.Sound contents layout machine m)
    (inputs : Ports) : WalksOn (layout.chart contents) m inputs machine := by
  intro run hrun
  obtain rfl := sound.layout_eq run hrun
  exact Layout.walks wf sound.serves ..

/-- A machine that runs after a check has left the memory alone. -/
theorem memory_of_check {machine : Machine} {m : ProgramMemory} {inputs : Ports}
    (h : (machine.check m inputs).machine.IsRunning) : (machine.check m inputs).memory = m := by
  have went := went_on_of_check machine m inputs
  generalize (machine.check m inputs).machine = machine' at h went
  generalize (machine.check m inputs).memory = m' at went ⊢
  cases went with
  | unchanged => rfl
  | settled => rfl
  | ended => cases h
  | marked => cases h

/-- What the machine shows is what the abstract machine shows that keeps the same record. -/
theorem runs_shown {machine : Machine} {m : ProgramMemory} (wf : layout.WellFormed contents size)
    (sound : Execution.Sound contents layout machine m)
    (hpersisted : machine.IsRunning →
      (persisted = true ↔ ∃ m', m.write 0 [statusDisabled] = .ok m')) (calls : List MachineCall) :
    (layout.chart contents).Runs persisted Standing.recorded machine.standing calls
      (machine.shown m calls) := by
  induction calls generalizing machine m with
  | nil => exact .done
  | cons c rest ih =>
    cases c with
    | enter state =>
      have hrest := ih (sound.enter state) fun h => hpersisted (isRunning_enter.mp h)
      rw [standing_enter] at hrest
      exact .enter hrest
    | check inputs =>
      have walks := walksOn_of_sound wf sound inputs
      have sound' := sound.of_wentOn (went_on_of_check machine m inputs)
      -- the status byte is written at most once, by the check that stops the machine
      have hpersisted' : (machine.check m inputs).machine.IsRunning →
          (persisted = true ↔
            ∃ m', (machine.check m inputs).memory.write 0 [statusDisabled] = .ok m') := by
        intro h
        rw [memory_of_check h]
        exact hpersisted (isRunning_of_check h)
      obtain ⟨after, hchecks, hrecorded⟩ := checks_check walks hpersisted
      have hrest := ih sound' hpersisted'
      rw [← hrecorded] at hrest
      have hrun := Chart.Runs.check hchecks hrest
      rw [hrecorded] at hrun
      exact hrun

/-! ## What the record forgets -/

/-- As long as no check is due to enter `noState`, the record makes no difference. -/
theorem runs_recorded {chart : Chart} {standing : Option Standing} {calls : List MachineCall}
    {shown : List Shown} (h : chart.Runs persisted id standing calls shown)
    (heeded : Heeded standing calls shown) :
    chart.Runs persisted Standing.recorded (standing.map Standing.recorded) calls
      (shown.map Shown.recorded) := by
  induction h with
  | done => exact .done
  | enter _ ih =>
    have hrest := ih heeded
    rw [Option.map_map] at hrest
    refine .enter ?_
    rw [Option.map_map]
    exact hrest
  | @check standing _ _ _ _ _ _ hchecks _ ih =>
    obtain ⟨hpending, hmore⟩ := heeded
    have hkept : standing.map Standing.recorded = standing := by
      cases standing with
      | none => rfl
      | some s => exact congrArg some (Standing.recorded_of_ne (hpending s rfl))
    have hrest := ih hmore
    rw [Option.map_id_apply] at hrest
    rw [hkept, List.map_cons, Shown.recorded, Option.map_id_apply]
    exact .check hchecks hrest

/-- When neither a call nor the program names `noState`, no check is due to enter it. -/
theorem heeded_of_namesStates {chart : Chart} (named : chart.NamesStates)
    {standing : Option Standing} {calls : List MachineCall} {shown : List Shown}
    (h : chart.Runs persisted id standing calls shown) (hcalls : .enter noState ∉ calls)
    (hstanding : ∀ s ∈ standing, s.pending ≠ some noState) : Heeded standing calls shown := by
  induction h with
  | done => trivial
  | @enter standing state rest shown _ ih =>
    refine ih (fun hmem => hcalls (List.mem_cons_of_mem _ hmem)) fun s hs hpending => ?_
    obtain ⟨t, -, rfl⟩ := Option.map_eq_some_iff.mp hs
    obtain rfl := Option.some.inj hpending
    exact hcalls List.mem_cons_self
  | check hchecks _ ih =>
    refine ⟨hstanding, ih (fun hmem => hcalls (List.mem_cons_of_mem _ hmem)) ?_⟩
    rw [Option.map_id_apply]
    exact named.checks hchecks hstanding

/-- No program has the state `noState`, so the abstract machine stops at it. -/
theorem checks_noState {chart : Chart} (hchart : chart.length ≤ noState.toNat) {s : Standing}
    (hdue : s.pending = some noState) {inputs : Ports} {outcome : Except MachineError CheckOutcome}
    {calls : List (Device × Bytes)} {after : Option Standing}
    (h : chart.Checks persisted inputs (some s) outcome calls after) :
    outcome = .error (.program (.noSuchState noState)) ∧ calls = [] ∧ after = none := by
  have hmissing : chart[noState.toNat]? = none := List.getElem?_eq_none hchart
  have follows {entering : Bool} {state : UInt8} {fired : List Action} {landing : Landing}
      (begins : s.Begins entering state)
      (hfollows : chart.Follows (s.baseline.getD inputs) inputs [] entering state fired landing) :
      fired = [] ∧ landing = .failed (.noSuchState noState) := by
    obtain ⟨rfl, rfl⟩ := begins_unique (.enter hdue) begins
    cases hfollows with
    | missing => exact ⟨rfl, rfl⟩
    | settled hstate => cases hmissing.symm.trans hstate
    | looped hstate => cases hmissing.symm.trans hstate
    | jumped hstate => cases hmissing.symm.trans hstate
  cases h with
  | nowhere hpending => cases hdue.symm.trans hpending
  | settled begins hfollows => cases (follows begins hfollows).2
  | looped begins hfollows => cases (follows begins hfollows).2
  | failed begins hfollows =>
    obtain ⟨rfl, hlanding⟩ := follows begins hfollows
    cases hlanding
    exact ⟨rfl, rfl, rfl⟩

/-- Where a check is due to enter `noState`, the abstract machine fails and tells its number. -/
theorem fails_of_not_heeded {chart : Chart} (hchart : chart.length ≤ noState.toNat)
    {standing : Option Standing} {calls : List MachineCall} {shown : List Shown}
    (h : chart.Runs persisted id standing calls shown) (unheeded : ¬ Heeded standing calls shown) :
    ⟨.error (.program (.noSuchState noState)), [], none⟩ ∈ shown := by
  induction h with
  | done => exact absurd trivial unheeded
  | enter _ ih => exact ih unheeded
  | @check standing _ _ _ _ _ _ hchecks _ ih =>
    by_cases hpending : ∀ t ∈ standing, t.pending ≠ some noState
    · exact List.mem_cons_of_mem _ (ih fun hmore => unheeded ⟨hpending, hmore⟩)
    · obtain ⟨s, hs, hdue⟩ : ∃ s ∈ standing, s.pending = some noState := by
        simpa using hpending
      obtain rfl : standing = some s := hs
      obtain ⟨rfl, rfl, rfl⟩ := checks_noState hchart hdue hchecks
      exact List.mem_cons_self

/-- **The machine runs the chart**, but it forgets a request to enter `noState`. Once the stored
program has been started, on a device that answers the reads of the program, and whatever calls follow:
what its checks show is what the abstract machine shows that keeps the machine's record of where it
stands. The abstract machine that keeps everything has one run, too. As long as no check of that run is
due to enter `noState`, the machine shows the same, as far as its record goes; and a check that is due to
enter it fails and tells the number. -/
theorem shown_iff_runs {layout : Layout} {m : ProgramMemory} {machine : Machine}
    (hstart : Machine.start m = (.ok (), machine)) (hlayout : Layout.read m = .ok layout)
    (answers : m.Answers 1 layout.length) (calls : List MachineCall) :
    (∀ shown, (layout.chart m.byteAt).Runs (decide (m.writesLeft ≠ some 0)) Standing.recorded
        (some .first) calls shown ↔ shown = machine.shown m calls) ∧
      ∃ told, (∀ shown, (layout.chart m.byteAt).Runs (decide (m.writesLeft ≠ some 0)) id
          (some .first) calls shown ↔ shown = told) ∧
        (Heeded (some .first) calls told → machine.shown m calls = told.map Shown.recorded) ∧
        (¬ Heeded (some .first) calls told →
          ⟨.error (.program (.noSuchState noState)), [], none⟩ ∈ told) := by
  obtain ⟨wf, sound⟩ := Execution.Sound.of_start hstart hlayout answers
  have hcapacity := (Layout.wellFormed_of_read hlayout).2
  have hroom : 0 + 1 ≤ m.capacity := by
    have hlength := wf.length_bounds
    have hsize : m.size ≤ m.capacity := Nat.min_le_left ..
    omega
  have hpersisted : decide (m.writesLeft ≠ some 0) = true ↔
      ∃ m', m.write 0 [statusDisabled] = .ok m' := by
    rw [decide_eq_true_iff]
    exact (ProgramMemory.write_eq_ok_iff ⟨hroom, hcapacity⟩).symm
  have hstanding : machine.standing = some .first := by
    rw [eq_running_of_start hstart hlayout]
    rfl
  have walks := Layout.walks wf sound.serves
  have hshown := runs_shown wf sound (fun _ => hpersisted) calls
  rw [hstanding] at hshown
  have recorded : ∀ shown, (layout.chart m.byteAt).Runs (decide (m.writesLeft ≠ some 0))
      Standing.recorded (some .first) calls shown ↔ shown = machine.shown m calls := by
    obtain ⟨only, honly⟩ := exists_runs walks (decide (m.writesLeft ≠ some 0)) Standing.recorded
      (some .first) calls
    obtain rfl := (honly _).mp hshown
    exact honly
  obtain ⟨told, htold⟩ := exists_runs walks (decide (m.writesLeft ≠ some 0)) id (some .first) calls
  have hruns := (htold told).mpr rfl
  refine ⟨recorded, told, htold, fun heeded => ?_, fails_of_not_heeded wf.length_chart_le hruns⟩
  exact ((recorded _).mp (runs_recorded hruns heeded)).symm

theorem doorbell_runs :
    let layout : Layout := ⟨2, 36, 49⟩
    let machine := Machine.running { layout, pending := some 0 }
    let released : Ports := Vector.replicate portCount 0
    let pressed : Ports := #v[1, 0, 0, 0]
    let calls := [MachineCall.check released, .check pressed]
    Machine.start doorbell = (.ok (), machine) ∧ Layout.read doorbell = .ok layout ∧
      doorbell.Answers 1 layout.length ∧
      ∃ told, (layout.chart doorbell.byteAt).Runs true id (some .first) calls told ∧
        Heeded (some .first) calls told ∧ machine.shown doorbell calls = told.map Shown.recorded ∧
        (machine.shown doorbell calls).map Shown.calls =
          [[], [(.led 0, [1]), (.output 3, [7])]] ∧
        (machine.shown doorbell calls).map Shown.standing =
          [some ⟨some 0, none, some released⟩, some ⟨some 1, some 0, some pressed⟩] := by
  intro layout machine released pressed calls
  have hstart : Machine.start doorbell = (.ok (), machine) := rfl
  have hlayout : Layout.read doorbell = .ok layout := rfl
  have answers : doorbell.Answers 1 layout.length := fun _ _ _ _ => rfl
  have named : (layout.chart doorbell.byteAt).NamesStates := by decide +kernel
  have hcalls : .enter noState ∉ calls := by simp [calls]
  obtain ⟨-, told, htold, hsame, -⟩ := shown_iff_runs hstart hlayout answers calls
  have hruns := (htold told).mpr rfl
  have heeded := heeded_of_namesStates named hruns hcalls (by decide)
  exact ⟨hstart, hlayout, answers, told, hruns, heeded, hsame heeded, by decide +kernel,
    by decide +kernel⟩

/-- A program of one state, which enters `noState` as it is entered. -/
def forgetful : ProgramMemory where
  image := #[0x5A, 1, 0, 6, 0, 18, 1, 0, 0, 0, 0, 0, 0, 0, 0, 1, 0, 19, 1, 0xFF, 1, 0xFF]

/-- **A request to enter `noState` is forgotten.** The program that asks for it fails on the abstract
machine in the next check, and goes on in its only state on the machine. -/
theorem forgetful_goes_on :
    let layout : Layout := ⟨1, 18, 22⟩
    let machine := Machine.running { layout, pending := some 0 }
    let still : Ports := Vector.replicate portCount 0
    let calls := [MachineCall.check still, .check still]
    Machine.start forgetful = (.ok (), machine) ∧ Layout.read forgetful = .ok layout ∧
      (layout.chart forgetful.byteAt).Runs true id (some .first) calls
        [⟨.ok (.stable 0), [], some ⟨some 0, some noState, some still⟩⟩,
          ⟨.error (.program (.noSuchState noState)), [], none⟩] ∧
      (machine.shown forgetful calls).map (fun s => s.outcome.toOption) =
        [some (.stable 0), some (.stable 0)] ∧
      (machine.shown forgetful calls).map Shown.standing =
        List.replicate 2 (some ⟨some 0, none, some still⟩) := by
  intro layout machine still calls
  have hfires : Rule.FireAll still still true
      [⟨.ofBytes [0, 0, 0, 0, 0, 0, 0, 0], [⟨0xFF, .ofPrefix [noState]⟩]⟩]
      [⟨0xFF, .ofPrefix [noState]⟩] := Rule.fireAll_iff.mpr (by decide +kernel)
  have hfirst : (layout.chart forgetful.byteAt).Follows still still [] true 0
      [⟨0xFF, .ofPrefix [noState]⟩] (.settled 0 0) :=
    .settled (by decide +kernel) hfires (by decide)
  have henter : Schedules [⟨0xFF, .ofPrefix [noState]⟩] (some noState) :=
    schedules_iff.mpr (by decide)
  have hsecond : (layout.chart forgetful.byteAt).Follows still still [] true noState []
      (.failed (.noSuchState noState)) := .missing (by decide +kernel)
  have hsettled : (layout.chart forgetful.byteAt).Checks true still (some .first)
      (.ok (if 0 = 0 then .stable 0 else .moved 0 0))
      ([⟨0xFF, .ofPrefix [noState]⟩].filterMap Action.boardCall)
      (some ⟨some 0, some noState, some still⟩) := .settled (.enter rfl) hfirst henter
  have hfailed : (layout.chart forgetful.byteAt).Checks true still
      (some ⟨some 0, some noState, some still⟩) (.error (.program (.noSuchState noState)))
      (List.filterMap Action.boardCall []) none := .failed (.enter rfl) hsecond
  exact ⟨rfl, rfl, .check hsettled (.check hfailed .done), by decide +kernel, by decide +kernel⟩

end Calls

end Machine

end RoomControl
