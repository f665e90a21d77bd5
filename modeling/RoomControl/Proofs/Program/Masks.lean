import RoomControl.Proofs.Program.Scheduling

/-!
# Inputs that no mask picks

A program looks at its inputs through the masks of its evaluations. Two samples are alike to it when
every mask picks the same levels from both (`Chart.SeesAlike`), and then it cannot tell them apart: the
walk over a state fires the same and ends the same, also when it fails, and whatever else the memory
does (`Layout.evaluate_congr_inputs`). Two runs with samples that are alike differ in the baselines
that the machine keeps, and these are alike again (`Machine.Alike`). So nothing of the difference shows
(`unpicked_unseen`).

A sample that is alike to the baseline shows no change. A check with it, after one that settled and
with no state scheduled, goes through the same evaluations, fires nothing and stays.
-/

set_option autoImplicit false

namespace RoomControl

/-! ## What conditions see -/

namespace Conditions

variable {cs : Conditions} {a b a' b' : Ports}

/-- The masks pick the same levels from both samples. -/
def SeesAlike (cs : Conditions) (a b : Ports) : Prop :=
  ∀ port : Fin portCount, a.get port &&& (cs.get port).mask = b.get port &&& (cs.get port).mask

instance (cs : Conditions) (a b : Ports) : Decidable (cs.SeesAlike a b) :=
  inferInstanceAs (Decidable (∀ _ : Fin portCount, _ = _))

theorem hold_congr (h : cs.SeesAlike a b) : cs.Hold a ↔ cs.Hold b :=
  forall_congr' fun port => Condition.holds_congr _ (h port)

theorem notice_congr (h : cs.SeesAlike a b) (h' : cs.SeesAlike a' b') :
    cs.Notice a a' ↔ cs.Notice b b' :=
  exists_congr fun port => Condition.notices_congr _ (h port) (h' port)

theorem not_notice (h : cs.SeesAlike a b) : ¬ cs.Notice a b := by
  rintro ⟨port, hport⟩
  exact (Condition.notices_iff _).mp hport (h port).symm

end Conditions

theorem Firing.of_congr {cs : Conditions} {baseline baseline' inputs inputs' : Ports}
    (hbaseline : cs.SeesAlike baseline baseline') (hinputs : cs.SeesAlike inputs inputs')
    (entering : Bool) : of cs baseline inputs entering = of cs baseline' inputs' entering := by
  simp only [of, Conditions.hold_congr hinputs, Conditions.notice_congr hbaseline hinputs]

/-- Without a change nothing fires, but on entry. -/
theorem Firing.of_still {cs : Conditions} {baseline inputs : Ports}
    (h : cs.SeesAlike baseline inputs) : of cs baseline inputs false = nothing := by
  rw [of, if_neg (Conditions.not_notice h), if_neg Bool.false_ne_true, ite_self]

/-- The masks of all rules of all states pick the same levels from both samples. -/
def Chart.SeesAlike (chart : Chart) (a b : Ports) : Prop :=
  ∀ rules ∈ chart, ∀ rule ∈ rules, rule.conditions.SeesAlike a b

instance (chart : Chart) (a b : Ports) : Decidable (chart.SeesAlike a b) :=
  inferInstanceAs (Decidable (∀ rules ∈ chart, ∀ rule ∈ rules, _))

theorem Chart.SeesAlike.refl (chart : Chart) (a : Ports) : chart.SeesAlike a a :=
  fun _ _ _ _ _ => rfl

/-! ## Walks -/

namespace Walk

variable {α β : Type} {w : Walk α} {next next' : α → Walk β}

theorem bind_congr (h : ∀ a, w.result = .ok a → next a = next' a) : w >>= next = w >>= next' := by
  obtain ⟨fired, result⟩ := w
  cases result with
  | error e => rfl
  | ok a =>
    show (⟨_, _⟩ : Walk β) = ⟨_, _⟩
    rw [h a rfl]

theorem bind_eq_ok {b : β} (h : (w >>= next).result = .ok b) :
    ∃ a, w.result = .ok a ∧ (next a).result = .ok b := by
  obtain ⟨fired, result⟩ := w
  cases result with
  | error e => cases h
  | ok a => exact ⟨a, rfl, h⟩

end Walk

namespace Layout

variable {layout : Layout} {m : ProgramMemory}

/-- A walk over references that ends well ends behind them, and so does the one that fires nothing. -/
theorem evaluateReferences_ok {firing : Firing} {n pos next : Nat}
    (h : (layout.evaluateReferences m firing n pos).result = .ok next) :
    next = pos + 2 * n ∧ layout.evaluateReferences m .nothing n pos = ⟨[], .ok next⟩ := by
  induction n generalizing pos with
  | zero =>
    cases h
    exact ⟨rfl, rfl⟩
  | succ n ih =>
    rw [evaluateReferences] at h
    obtain ⟨offset, hword, h⟩ := Walk.bind_eq_ok h
    have hrest : (layout.evaluateReferences m firing n (pos + 2)).result = .ok next := by
      split at h
      · exact h
      · obtain ⟨action, -, h⟩ := Walk.bind_eq_ok h
        split at h
        · exact (Walk.bind_eq_ok h).elim fun _ h => h.2
        · exact h
    obtain ⟨hnext, hnothing⟩ := ih hrest
    refine ⟨by omega, ?_⟩
    have hword : (⟨m, layout.actionTable⟩ : Region).word pos = .ok offset := hword
    rw [evaluateReferences, hword, Walk.lift_bind, if_pos rfl, hnothing]

/-- The conditions that an evaluation stores are those of its rule. -/
theorem ofBytes_of_region {pos : Nat} {stored : Bytes}
    (h : (⟨m, layout.actionTable⟩ : Region).bytes pos Conditions.size = .ok stored) :
    Conditions.ofBytes stored = (ruleAt m.byteAt pos).conditions := by
  unfold Region.bytes at h
  split at h
  · rw [(ProgramMemory.read_eq_ok (mapError_eq_ok.mp h)).2]
    rfl
  · cases h

section Alike

variable {baseline baseline' inputs inputs' : Ports} {entering : Bool}

/-- Samples that the rules see alike make the walk over their evaluations alike. -/
theorem evaluateFrom_congr {n pos : Nat}
    (hbaseline : ∀ rule ∈ rulesFrom m.byteAt n pos, rule.conditions.SeesAlike baseline baseline')
    (hinputs : ∀ rule ∈ rulesFrom m.byteAt n pos, rule.conditions.SeesAlike inputs inputs') :
    layout.evaluateFrom m baseline inputs entering n pos =
      layout.evaluateFrom m baseline' inputs' entering n pos := by
  induction n generalizing pos with
  | zero => rfl
  | succ n ih =>
    obtain ⟨hfirst, hrest⟩ := List.forall_mem_cons.mp hbaseline
    obtain ⟨hfirst', hrest'⟩ := List.forall_mem_cons.mp hinputs
    rw [evaluateFrom, evaluateFrom]
    refine Walk.bind_congr fun stored hstored => ?_
    rw [ofBytes_of_region hstored, Firing.of_congr hfirst hfirst']
    refine Walk.bind_congr fun count hcount => Walk.bind_congr fun next hnext => ?_
    obtain ⟨-, rfl⟩ := Region.byte_eq_ok hcount
    obtain ⟨rfl, -⟩ := evaluateReferences_ok hnext
    exact ih hrest hrest'

/-- A walk over evaluations that has ended well fires nothing the next time, without a change. -/
theorem evaluateFrom_still {n pos : Nat}
    (h : (layout.evaluateFrom m baseline inputs entering n pos).result = .ok ())
    (hstill : ∀ rule ∈ rulesFrom m.byteAt n pos, rule.conditions.SeesAlike baseline' inputs') :
    layout.evaluateFrom m baseline' inputs' false n pos = ⟨[], .ok ()⟩ := by
  induction n generalizing pos with
  | zero => rfl
  | succ n ih =>
    obtain ⟨hfirst, hrest⟩ := List.forall_mem_cons.mp hstill
    rw [evaluateFrom] at h
    obtain ⟨stored, hstored, h⟩ := Walk.bind_eq_ok h
    obtain ⟨count, hcount, h⟩ := Walk.bind_eq_ok h
    obtain ⟨next, hnext, h⟩ := Walk.bind_eq_ok h
    have hstored : (⟨m, layout.actionTable⟩ : Region).bytes pos Conditions.size = .ok stored := hstored
    have hcount : (⟨m, layout.actionTable⟩ : Region).byte (pos + Conditions.size) = .ok count := hcount
    obtain ⟨hbehind, hnothing⟩ := evaluateReferences_ok hnext
    have hlater : next = nextEvaluation m.byteAt pos := by
      rw [hbehind, (Region.byte_eq_ok hcount).2]
      rfl
    rw [evaluateFrom]
    dsimp only
    rw [hstored, Walk.lift_bind, ofBytes_of_region hstored, Firing.of_still hfirst, hcount,
      Walk.lift_bind, hnothing, Walk.ok_bind, ih h (hlater ▸ hrest)]
    rfl

/-- Where a walk over a state begins, if it begins. -/
theorem rules_of_stateOffset {state : UInt8} {offset : Nat}
    (h : layout.stateOffset m state = .ok offset) :
    rulesFrom m.byteAt (m.byteAt offset).toNat (offset + 1) ∈ layout.chart m.byteAt := by
  obtain ⟨rfl, -⟩ := stateStart_of_stateOffset h
  have hstate : state.toNat < layout.stateCount := by
    unfold stateOffset at h
    split at h
    · cases h
    next hstate => exact Nat.not_le.mp hstate
  exact List.mem_map.mpr ⟨state.toNat, List.mem_range.mpr hstate, rfl⟩

/-- **A state cannot tell samples apart that its masks see alike**: the walk over it fires the same and
ends the same, whether it fails or not. -/
theorem evaluate_congr_inputs
    (hbaseline : (layout.chart m.byteAt).SeesAlike baseline baseline')
    (hinputs : (layout.chart m.byteAt).SeesAlike inputs inputs') :
    layout.evaluate m baseline inputs = layout.evaluate m baseline' inputs' := by
  funext entering state
  rw [evaluate, evaluate]
  refine Walk.bind_congr fun offset hoffset => Walk.bind_congr fun count hcount => ?_
  obtain ⟨-, rfl⟩ := Region.byte_eq_ok hcount
  have hrules := rules_of_stateOffset hoffset
  exact evaluateFrom_congr (hbaseline _ hrules) (hinputs _ hrules)

/-- **Without a change nothing fires.** A state that was walked over to its end is walked over to its
end again, when it is not entered and its masks see no change. -/
theorem evaluate_still {state : UInt8}
    (h : (layout.evaluate m baseline inputs entering state).result = .ok ())
    (hstill : (layout.chart m.byteAt).SeesAlike baseline' inputs') :
    layout.evaluate m baseline' inputs' false state = ⟨[], .ok ()⟩ := by
  rw [evaluate] at h ⊢
  obtain ⟨offset, hoffset, h⟩ := Walk.bind_eq_ok h
  obtain ⟨count, hcount, h⟩ := Walk.bind_eq_ok h
  have hoffset : layout.stateOffset m state = .ok offset := hoffset
  have hcount : (⟨m, layout.actionTable⟩ : Region).byte offset = .ok count := hcount
  rw [hoffset, Walk.lift_bind, hcount, Walk.lift_bind]
  obtain ⟨-, rfl⟩ := Region.byte_eq_ok hcount
  exact evaluateFrom_still h (hstill _ (rules_of_stateOffset hoffset))

end Alike

end Layout

/-! ## Machines -/

/-- The calls are the same, but for inputs that the chart sees alike. -/
inductive MachineCall.Alike (chart : Chart) : MachineCall → MachineCall → Prop
  | enter (state : UInt8) : Alike chart (.enter state) (.enter state)
  | check {a b : Ports} : chart.SeesAlike a b → Alike chart (.check a) (.check b)

/-- How the next check ends when nothing changes. -/
def CheckOutcome.again : CheckOutcome → CheckOutcome
  | inactive => inactive
  | stable state => stable state
  | moved state _ => stable state

namespace Machine

/-- The machines differ in their baselines alone, which the chart sees alike. -/
inductive Alike (chart : Chart) : Machine → Machine → Prop
  | idle : Alike chart idle idle
  | disabled : Alike chart disabled disabled
  | running {run : Running} {baseline : Option Ports} :
      Option.Rel chart.SeesAlike run.baseline baseline →
      Alike chart (running run) (running { run with baseline })

/-- A running machine runs this chart, as the memory stores it. -/
def RunsOn (chart : Chart) (machine : Machine) (m : ProgramMemory) : Prop :=
  ∀ run, machine = running run → run.layout.chart m.byteAt = chart

/-- What a check shows on the outside. -/
structure Seen where
  outcome : Except MachineError CheckOutcome
  calls : List (Device × Bytes)
  current : Option UInt8
  memory : ProgramMemory

/-- What the checks show along a list of calls. -/
def seen (machine : Machine) (m : ProgramMemory) : List MachineCall → List Seen
  | [] => []
  | .enter state :: rest => (machine.enter state).seen m rest
  | .check inputs :: rest =>
    let c := machine.check m inputs
    ⟨c.outcome, c.calls, c.machine.current, c.memory⟩ :: c.machine.seen c.memory rest

variable {chart : Chart} {machine machine' : Machine} {m : ProgramMemory} {run run' : Running}
variable {a b : Ports} {calls calls' : List MachineCall}

theorem Alike.refl (chart : Chart) (machine : Machine) : Alike chart machine machine := by
  cases machine with
  | idle => exact .idle
  | disabled => exact .disabled
  | running run =>
    show Alike chart (.running run) (.running { run with baseline := run.baseline })
    refine .running ?_
    cases run.baseline with
    | none => exact .none
    | some baseline => exact .some (.refl chart baseline)

theorem Alike.enter (h : Alike chart machine machine') (state : UInt8) :
    Alike chart (machine.enter state) (machine'.enter state) := by
  cases h with
  | idle => exact .idle
  | disabled => exact .disabled
  | running hbaseline => exact .running hbaseline

theorem Alike.current_eq (h : Alike chart machine machine') : machine'.current = machine.current := by
  cases h <;> rfl

theorem RunsOn.enter (h : RunsOn chart machine m) (state : UInt8) :
    RunsOn chart (machine.enter state) m := by
  intro run hrun
  cases machine with
  | idle => cases hrun
  | disabled => cases hrun
  | running run' =>
    cases hrun
    exact h run' rfl

theorem RunsOn.check (h : RunsOn chart machine m) (inputs : Ports) :
    RunsOn chart (machine.check m inputs).machine (machine.check m inputs).memory := by
  intro run' hrun'
  cases machine with
  | idle => cases hrun'
  | disabled => cases hrun'
  | running run =>
    have hafter : ((running run).after m [.check inputs]).1 = running run' := hrun'
    obtain ⟨hlayout, hmemory⟩ := unmoved_of_after hafter
    have hmemory : ((running run).check m inputs).memory = m := hmemory
    rw [hlayout, hmemory]
    exact h run rfl

/-! ### Two runs -/

theorem seesAlike_getD {baseline baseline' : Option Ports}
    (h : Option.Rel chart.SeesAlike baseline baseline') (hinputs : chart.SeesAlike a b) :
    chart.SeesAlike (baseline.getD a) (baseline'.getD b) := by
  cases h with
  | none => exact hinputs
  | some h => exact h

/-- The checks are the same, but for the baselines that they leave. -/
structure SameCheck (chart : Chart) (c c' : Checked) : Prop where
  outcome : c'.outcome = c.outcome
  calls : c'.calls = c.calls
  memory : c'.memory = c.memory
  machine : Alike chart c.machine c'.machine

theorem sameCheck_checkFrom {baseline : Option Ports}
    (hbaseline : Option.Rel (run.layout.chart m.byteAt).SeesAlike run.baseline baseline)
    (hinputs : (run.layout.chart m.byteAt).SeesAlike a b) (entering : Bool) (state : UInt8) :
    SameCheck (run.layout.chart m.byteAt) (checkFrom run m a entering state)
      (checkFrom { run with baseline } m b entering state) := by
  have hwalks := Layout.evaluate_congr_inputs (seesAlike_getD hbaseline hinputs) hinputs
  unfold checkFrom
  dsimp only
  rw [hwalks]
  split
  · exact ⟨rfl, rfl, rfl, .disabled⟩
  · split
    · exact ⟨rfl, rfl, rfl, .disabled⟩
    · exact ⟨rfl, rfl, rfl, .disabled⟩
  · exact ⟨rfl, rfl, rfl, .running (.some hinputs)⟩

theorem Alike.check (h : Alike chart machine machine') (hchart : RunsOn chart machine m)
    (hinputs : chart.SeesAlike a b) :
    SameCheck chart (machine.check m a) (machine'.check m b) := by
  cases h with
  | idle => exact ⟨rfl, rfl, rfl, .idle⟩
  | disabled => exact ⟨rfl, rfl, rfl, .disabled⟩
  | @running run baseline hbaseline =>
    obtain rfl := hchart run rfl
    unfold Machine.check
    dsimp only
    split
    · exact sameCheck_checkFrom hbaseline hinputs ..
    · exact sameCheck_checkFrom hbaseline hinputs ..
    · exact ⟨rfl, rfl, rfl, .running hbaseline⟩

/-- Machines that are alike show the same along calls that are alike. -/
theorem Alike.seen_eq (h : Alike chart machine machine') (hchart : RunsOn chart machine m)
    (hcalls : List.Forall₂ (MachineCall.Alike chart) calls calls') :
    machine'.seen m calls' = machine.seen m calls := by
  induction hcalls generalizing machine machine' m with
  | nil => rfl
  | cons hcall _ ih =>
    cases hcall with
    | enter state => exact ih (h.enter state) (hchart.enter state)
    | @check a b hinputs =>
      obtain ⟨houtcome, hcalls, hmemory, halike⟩ := h.check hchart hinputs
      have hrest := ih halike (hchart.check a)
      unfold seen
      dsimp only
      rw [houtcome, hcalls, hmemory, halike.current_eq, hrest]

/-! ### A check without a change -/

/-- The actions that a check fires. -/
def fired (machine : Machine) (m : ProgramMemory) (inputs : Ports) : List Action :=
  match machine with
  | running run =>
    let evaluate := run.layout.evaluate m (run.baseline.getD inputs) inputs
    match run.pending, run.current with
    | some state, _ => (chase evaluate maxJumps [] true state).1
    | none, some state => (chase evaluate maxJumps [] false state).1
    | none, none => []
  | _ => []

theorem calls_checkFrom (run : Running) (m : ProgramMemory) (inputs : Ports) (entering : Bool)
    (state : UInt8) : (checkFrom run m inputs entering state).calls = boardCalls
      (chase (run.layout.evaluate m (run.baseline.getD inputs) inputs) maxJumps [] entering state).1 :=
  (checkFrom_eq rfl).2.1

/-- What the board is told is told by the actions that fire. -/
theorem calls_check (machine : Machine) (m : ProgramMemory) (inputs : Ports) :
    (machine.check m inputs).calls = boardCalls (machine.fired m inputs) := by
  cases machine with
  | idle => rfl
  | disabled => rfl
  | running run =>
    unfold Machine.check fired
    dsimp only
    cases run.pending with
    | some state => exact calls_checkFrom ..
    | none =>
      cases run.current with
      | some state => exact calls_checkFrom ..
      | none => rfl

/-- A check that has ended well has settled in a state, and the walk over it has ended well. -/
theorem checkFrom_ok {entering : Bool} {state : UInt8} {outcome : CheckOutcome}
    (h : (checkFrom run m a entering state).outcome = .ok outcome) :
    ∃ last pending, outcome.again = .stable last ∧
      (∃ entering, (run.layout.evaluate m (run.baseline.getD a) a entering last).result = .ok ()) ∧
      (checkFrom run m a entering state).machine =
        running { run with current := some last, pending, baseline := some a } ∧
      (checkFrom run m a entering state).memory = m := by
  obtain ⟨more, last, -, lands⟩ :=
    @exists_trail (run.layout.evaluate m (run.baseline.getD a) a) (entering, state) maxJumps []
      entering state [] rfl rfl (.start _)
  unfold checkFrom at h ⊢
  dsimp only at h ⊢
  generalize chase (run.layout.evaluate m (run.baseline.getD a) a) maxJumps [] entering state = chased
    at h lands ⊢
  obtain ⟨fired, landing⟩ := chased
  cases lands with
  | failed _ => cases h
  | looped _ _ =>
    dsimp only at h
    split at h
    · cases h
    · cases h
  | settled hwalk _ =>
    refine ⟨last.2, _, ?_, ⟨last.1, hwalk⟩, rfl, rfl⟩
    cases h
    split
    · rfl
    · rfl

/-- The check after one that has settled, when no state is entered and nothing has changed. -/
theorem check_still {state : UInt8} {entering : Bool} {baseline inputs : Ports}
    (hwalk : (run.layout.evaluate m baseline inputs entering state).result = .ok ())
    (hpending : run.pending = none) (hcurrent : run.current = some state)
    (hbaseline : run.baseline = some a) (hinputs : (run.layout.chart m.byteAt).SeesAlike a b) :
    (running run).fired m b = [] ∧ ((running run).check m b).outcome = .ok (.stable state) ∧
      ((running run).check m b).machine.current = some state ∧
      ((running run).check m b).memory = m := by
  have hstill := Layout.evaluate_still hwalk hinputs
  have hchase : chase (run.layout.evaluate m (run.baseline.getD b) b) maxJumps [] false state =
      ([], .settled state 0) := by
    rw [hbaseline, Option.getD_some]
    unfold chase
    simp only [hstill]
    rfl
  have hfired : (running run).fired m b = [] := by
    unfold fired
    simp only [hpending, hcurrent, hchase]
  rw [check_of_begins (.stay hpending hcurrent)]
  unfold checkFrom
  dsimp only
  rw [hchase]
  exact ⟨hfired, rfl, rfl, rfl⟩

theorem fired_of_rests (h : Rests machine) (m : ProgramMemory) (inputs : Ports) :
    machine.fired m inputs = [] := by
  cases machine with
  | idle => rfl
  | disabled => rfl
  | running run =>
    have hpending : run.pending = none := h.1
    have hcurrent : run.current = none := h.2
    unfold fired
    simp only [hpending, hcurrent]

theorem after_enters (run : Running) (m : ProgramMemory) (states : List UInt8) :
    ∃ pending, (running run).after m (states.map .enter) = (running { run with pending }, m) := by
  induction states generalizing run with
  | nil => exact ⟨run.pending, rfl⟩
  | cons state rest ih => exact ih { run with pending := named state }

theorem current_after_enters (machine : Machine) (m : ProgramMemory) (states : List UInt8) :
    (machine.after m (states.map .enter)).1.current = machine.current := by
  induction states generalizing machine with
  | nil => rfl
  | cons state rest ih => exact (ih _).trans (by cases machine <;> rfl)

/-- **A check without a change goes on as it stands.** After a check that has ended well, and with no
state scheduled, whatever is entered in between. -/
theorem still_after_check (hchart : RunsOn chart machine m) (hinputs : chart.SeesAlike a b)
    {outcome : CheckOutcome} (hok : (machine.check m a).outcome = .ok outcome)
    {between : List UInt8} {next : Machine}
    (hnext : ((machine.check m a).machine.after (machine.check m a).memory
      (between.map .enter)).1 = next) (hscheduled : next.scheduled = none) :
    next.fired (machine.check m a).memory b = [] ∧
      (next.check (machine.check m a).memory b).outcome = .ok outcome.again ∧
      (next.check (machine.check m a).memory b).machine.current = (machine.check m a).machine.current ∧
      (next.check (machine.check m a).memory b).memory = (machine.check m a).memory := by
  by_cases hrests : Rests machine
  · rw [check_of_rests hrests] at hok hnext ⊢
    cases hok
    have hcurrent : next.current = none := by
      rw [← hnext, current_after_enters, hrests.2]
    have hrests' : Rests next := ⟨hscheduled, hcurrent⟩
    rw [check_of_rests hrests']
    exact ⟨fired_of_rests hrests' m b, rfl, hcurrent.trans hrests.2.symm, rfl⟩
  · obtain ⟨run, entering, state, rfl, hbegins⟩ := begins_of_not_rests hrests
    obtain rfl := hchart run rfl
    rw [check_of_begins hbegins] at hok hnext ⊢
    obtain ⟨last, pending, hagain, ⟨entering, hwalk⟩, hmachine, hmemory⟩ := checkFrom_ok hok
    rw [hmachine, hmemory] at hnext ⊢
    obtain ⟨pending', hafter⟩ :=
      after_enters { run with current := some last, pending, baseline := some a } m between
    rw [hafter] at hnext
    subst hnext
    rw [hagain]
    exact check_still hwalk hscheduled rfl rfl hinputs

theorem RunsOn.after (h : RunsOn chart machine m) (calls : List MachineCall) :
    RunsOn chart (machine.after m calls).1 (machine.after m calls).2 := by
  induction calls generalizing machine m with
  | nil => exact h
  | cons c rest ih =>
    cases c with
    | enter state => exact ih (h.enter state)
    | check inputs => exact ih (h.check inputs)

theorem runsOn_of_start {layout : Layout} (hstart : Machine.start m = (.ok (), machine))
    (hlayout : Layout.read m = .ok layout) : RunsOn (layout.chart m.byteAt) machine m := by
  intro run hrun
  obtain rfl := running.inj (hrun.symm.trans (eq_running_of_start hstart hlayout))
  rfl

/-- **Inputs that no mask picks are invisible.** Two runs of a started program with the same states
entered, and with inputs that every mask of the program sees alike, show the same: how each check ends,
what the board is told, the current state and the memory, whatever the device refuses. And after a check
that ended well, when no state is scheduled, the next check with inputs that are alike fires no action,
leaves the current state and the memory as they are, and is stable in that state; an inactive check,
which has none, is followed by an inactive one (`CheckOutcome.again`). -/
theorem unpicked_unseen {layout : Layout} (hstart : Machine.start m = (.ok (), machine))
    (hlayout : Layout.read m = .ok layout) :
    let chart := layout.chart m.byteAt
    (∀ calls calls', List.Forall₂ (MachineCall.Alike chart) calls calls' →
      machine.seen m calls' = machine.seen m calls) ∧
    ∀ calls a b (between : List UInt8) outcome, chart.SeesAlike a b →
      let (machine', m') := machine.after m calls
      let checked := machine'.check m' a
      let next := (checked.machine.after checked.memory (between.map .enter)).1
      let again := next.check checked.memory b
      checked.outcome = .ok outcome → next.scheduled = none →
        next.fired checked.memory b = [] ∧ again.calls = [] ∧ again.outcome = .ok outcome.again ∧
          again.machine.current = checked.machine.current ∧ again.memory = checked.memory := by
  intro chart
  have hchart := runsOn_of_start hstart hlayout
  refine ⟨fun calls calls' => (Alike.refl chart machine).seen_eq hchart, ?_⟩
  intro calls a b between outcome hinputs
  have hreached := hchart.after calls
  generalize machine.after m calls = reached at hreached
  obtain ⟨machine', m'⟩ := reached
  intro hok hscheduled
  obtain ⟨hfired, hagain⟩ := still_after_check hreached hinputs hok rfl hscheduled
  refine ⟨hfired, ?_, hagain⟩
  rw [calls_check, hfired]
  rfl

/-- Levels of which the doorbell looks at none but the lowest of the first port. -/
def flicker : Ports := #v[0xFE, 7, 0, 0xFF]

/-- The doorbell takes them for a released key. -/
theorem doorbell_unseen :
    let layout : Layout := ⟨2, 36, 49⟩
    let machine := running { layout, pending := some 0 }
    let released : Ports := Vector.replicate portCount 0
    let pressed : Ports := #v[1, 0, 0, 0]
    let checked := machine.check doorbell released
    Machine.start doorbell = (.ok (), machine) ∧ Layout.read doorbell = .ok layout ∧
      (layout.chart doorbell.byteAt).SeesAlike released flicker ∧
      machine.seen doorbell [.check flicker, .check pressed] =
        machine.seen doorbell [.check released, .check pressed] ∧
      checked.outcome = .ok (.stable 0) ∧
      checked.machine.fired checked.memory flicker = [] ∧
      (checked.machine.check checked.memory flicker).outcome = .ok (.stable 0) := by
  intro layout machine released pressed checked
  have hstart : Machine.start doorbell = (.ok (), machine) := rfl
  have hlayout : Layout.read doorbell = .ok layout := rfl
  have hflicker : (layout.chart doorbell.byteAt).SeesAlike released flicker := by decide +kernel
  obtain ⟨hruns, hstill⟩ := unpicked_unseen hstart hlayout
  have hcalls : List.Forall₂ (MachineCall.Alike (layout.chart doorbell.byteAt))
      [.check released, .check pressed] [.check flicker, .check pressed] :=
    .cons (.check hflicker) (.cons (.check (.refl _ _)) .nil)
  have hok : checked.outcome = .ok (.stable 0) := by decide +kernel
  have hscheduled : checked.machine.scheduled = none := by decide +kernel
  obtain ⟨hfired, -, hstable, -⟩ := hstill [] released flicker [] (.stable 0) hflicker hok hscheduled
  exact ⟨hstart, hlayout, hflicker, hruns _ _ hcalls, hok, hfired, hstable⟩

end Machine

end RoomControl
