import RoomControl.Program.Condition
import RoomControl.Program.Device
import RoomControl.Program.Layout

/-!
# Running the stored program

A program is a machine of states. On every check the current state is evaluated against the sampled
inputs: an evaluation whose conditions hold fires all its actions when it notices a change since the
last settled check, and only the actions flagged for entry when the state is being entered. The
first goto that fires names the next state, which is entered within the same check; the last enter
that fires names the state that the next check enters. Everything else that fires is for the board.

A check follows at most `Machine.maxJumps` gotos. One that comes back to a state of the same check,
or goes on beyond that, disables the program, in memory too.

`Firing` decides what one evaluation fires, `Layout.evaluate` walks one state, `Machine.chase`
follows the gotos and `Machine.check` keeps the books.
-/

set_option autoImplicit false

namespace RoomControl

/-! ## What fires -/

/-- Which actions of an evaluation fire. -/
inductive Firing where
  | nothing
  /-- The ones that carry the entry flag. -/
  | flagged
  | everything
  deriving DecidableEq, Repr

namespace Firing

/-- What an evaluation with these conditions fires. -/
def of (conditions : Conditions) (baseline inputs : Ports) (entering : Bool) : Firing :=
  if conditions.Hold inputs then
    if conditions.Notice baseline inputs then everything
    else if entering then flagged
    else nothing
  else nothing

/-- An action with this device byte fires. -/
def Admits : Firing → UInt8 → Prop
  | nothing, _ => False
  | flagged, device => Device.firesOnEntry device = true
  | everything, _ => True

instance : (f : Firing) → (device : UInt8) → Decidable (f.Admits device)
  | nothing, _ => inferInstanceAs (Decidable False)
  | flagged, _ => inferInstanceAs (Decidable (_ = true))
  | everything, _ => inferInstanceAs (Decidable True)

end Firing

namespace Action

/-- What the action drives. -/
def target (a : Action) : Device := Device.ofByte a.device

/-- The state that a goto or an enter names. -/
def destination (a : Action) : UInt8 := a.value.bytes.headD noState

end Action

/-- The state that the first fired goto names. -/
def firstGoto (fired : List Action) : Option UInt8 :=
  (fired.find? fun a => a.target = .goto).map Action.destination

/-- The state that the last fired enter names. -/
def lastEnter (fired : List Action) : Option UInt8 :=
  (fired.reverse.find? fun a => a.target = .enter).map Action.destination

/-- What the board is told, in order. -/
def boardCalls (fired : List Action) : List (Device × Bytes) :=
  (fired.filter fun a => !a.target.isFlow).map fun a => (a.target, a.value.bytes)

/-! ## Walking a state -/

/-- A walk over a state: the actions fired so far, and how the walk ended. An error does not take
back what has fired. -/
structure Walk (α : Type) where
  fired : List Action
  result : Except ProgramError α

namespace Walk

variable {α β : Type}

/-- Ends the walk with a result. -/
def lift (result : Except ProgramError α) : Walk α := ⟨[], result⟩

/-- Fires one action. -/
def fire (a : Action) : Walk Unit := ⟨[a], .ok ()⟩

/-- Goes on after a walk that did not fail. -/
def andThen (w : Walk α) (next : α → Walk β) : Walk β :=
  match w.result with
  | .ok a => ⟨w.fired ++ (next a).fired, (next a).result⟩
  | .error e => ⟨w.fired, .error e⟩

instance : Monad Walk where
  pure a := lift (.ok a)
  bind := andThen

end Walk

namespace Layout

/-- Walks `n` references from `pos` and fires the actions that are admitted. -/
def evaluateReferences (layout : Layout) (m : ProgramMemory) (firing : Firing) :
    (n : Nat) → (pos : Nat) → Walk Nat
  | 0, pos => pure pos
  | n + 1, pos => do
    let offset ← .lift ((⟨m, layout.actionTable⟩ : Region).word pos)
    if firing = .nothing then
      layout.evaluateReferences m firing n (pos + 2)
    else
      let action ← .lift (layout.action m offset)
      if firing.Admits action.device then Walk.fire action
      layout.evaluateReferences m firing n (pos + 2)

/-- Walks `n` evaluations from `pos`. -/
def evaluateFrom (layout : Layout) (m : ProgramMemory) (baseline inputs : Ports) (entering : Bool) :
    (n : Nat) → (pos : Nat) → Walk Unit
  | 0, _ => pure ()
  | n + 1, pos => do
    let r : Region := ⟨m, layout.actionTable⟩
    let stored ← .lift (r.bytes pos Conditions.size)
    let firing := Firing.of (.ofBytes stored) baseline inputs entering
    let count ← .lift (r.byte (pos + Conditions.size))
    let next ← layout.evaluateReferences m firing count.toNat (pos + Conditions.size + 1)
    layout.evaluateFrom m baseline inputs entering n next

/-- Evaluates a state. -/
def evaluate (layout : Layout) (m : ProgramMemory) (baseline inputs : Ports) (entering : Bool)
    (state : UInt8) : Walk Unit := do
  let offset ← .lift (layout.stateOffset m state)
  let count ← .lift ((⟨m, layout.actionTable⟩ : Region).byte offset)
  layout.evaluateFrom m baseline inputs entering count.toNat (offset + 1)

end Layout

/-! ## The machine -/

/-- Why a check failed. -/
inductive MachineError where
  /-- The program is malformed. -/
  | program (error : ProgramError)
  /-- The gotos came back to `state`, or went on too long. The program is disabled, in memory too
  when `persisted`. -/
  | loopDetected (state : UInt8) (persisted : Bool)
  deriving DecidableEq, Repr

/-- How a check ended. -/
inductive CheckOutcome where
  /-- There was nothing to run. -/
  | inactive
  /-- No goto fired. -/
  | stable (state : UInt8)
  /-- So many gotos led to `state`. -/
  | moved (state : UInt8) (hops : Nat)
  deriving DecidableEq, Repr

/-- What the machine keeps of a running program. -/
structure Running where
  /-- Where the program's parts lie. -/
  layout : Layout
  /-- The state that the last check settled in. -/
  current : Option UInt8 := none
  /-- The state that the next check enters. -/
  pending : Option UInt8 := none
  /-- The inputs of the last check that settled. -/
  baseline : Option Ports := none
  deriving DecidableEq

/-- The machine that runs the stored program. -/
inductive Machine where
  /-- No enabled program. -/
  | idle
  /-- The program failed. -/
  | disabled
  | running (run : Running)
  deriving DecidableEq

/-- What one check gave. -/
structure Checked where
  outcome : Except MachineError CheckOutcome
  /-- What the board is told. -/
  calls : List (Device × Bytes)
  machine : Machine
  memory : ProgramMemory

/-- Where the gotos of a check led. -/
inductive Landing where
  | settled (state : UInt8) (hops : Nat)
  | looped (state : UInt8)
  | failed (error : ProgramError)
  deriving DecidableEq, Repr

namespace Machine

/-- The longest chain of gotos within one check. -/
def maxJumps : Nat := 16

/-- The state a byte names. -/
def named (state : UInt8) : Option UInt8 := if state = noState then none else some state

/-- The current state of a running program. -/
def current : Machine → Option UInt8
  | running run => run.current
  | _ => none

/-- A program is running. -/
def IsRunning : Machine → Prop
  | running _ => True
  | _ => False

instance : (m : Machine) → Decidable m.IsRunning
  | running _ => inferInstanceAs (Decidable True)
  | idle | disabled => inferInstanceAs (Decidable False)

/-- Validates the stored program and schedules its first state. Without an enabled program the
machine is idle; a malformed one disables it. -/
def start (memory : ProgramMemory) : Except ProgramError Unit × Machine :=
  match memory.isEnabled with
  | .error e => (.error e, idle)
  | .ok false => (.error .notEnabled, idle)
  | .ok true =>
    match Layout.read memory with
    | .error e => (.error e, disabled)
    | .ok layout =>
      if layout.stateCount = 0 then (.error .noStates, disabled)
      else (.ok (), running { layout, pending := some 0 })

/-- Schedules a state for the next check, in place of what was scheduled. -/
def enter (state : UInt8) : Machine → Machine
  | running run => running { run with pending := named state }
  | m => m

/-- Evaluates `state` and follows the gotos from it, `jumps` of them at most. `path` holds the
states that the check has left. -/
def chase (evaluate : Bool → UInt8 → Walk Unit) :
    (jumps : Nat) → (path : List UInt8) → (entering : Bool) → (state : UInt8) →
      List Action × Landing
  | jumps, path, entering, state =>
    let walk := evaluate entering state
    match walk.result with
    | .error e => (walk.fired, .failed e)
    | .ok () =>
      match firstGoto walk.fired with
      | none => (walk.fired, .settled state path.length)
      | some next =>
        if next = state ∨ next ∈ path then (walk.fired, .looped next)
        else
          match jumps with
          | 0 => (walk.fired, .looped next)
          | jumps + 1 =>
            let (fired, landing) := chase evaluate jumps (state :: path) true next
            (walk.fired ++ fired, landing)

/-- Runs one check from `state` on. -/
def checkFrom (run : Running) (memory : ProgramMemory) (inputs : Ports) (entering : Bool)
    (state : UInt8) : Checked :=
  let evaluate := run.layout.evaluate memory (run.baseline.getD inputs) inputs
  let (fired, landing) := chase evaluate maxJumps [] entering state
  let calls := boardCalls fired
  match landing with
  | .failed e => ⟨.error (.program e), calls, disabled, memory⟩
  | .looped next =>
    match memory.write 0 [statusDisabled] with
    | .ok memory => ⟨.error (.loopDetected next true), calls, disabled, memory⟩
    | .error _ => ⟨.error (.loopDetected next false), calls, disabled, memory⟩
  | .settled state hops =>
    ⟨.ok (if hops = 0 then .stable state else .moved state hops), calls,
      running { run with
        current := some state
        pending := (lastEnter fired).bind named
        baseline := some inputs },
      memory⟩

/-- Runs one check against the sampled inputs. -/
def check (machine : Machine) (memory : ProgramMemory) (inputs : Ports) : Checked :=
  match machine with
  | running run =>
    match run.pending, run.current with
    | some state, _ => checkFrom run memory inputs true state
    | none, some state => checkFrom run memory inputs false state
    | none, none => ⟨.ok .inactive, [], machine, memory⟩
  | _ => ⟨.ok .inactive, [], machine, memory⟩

end Machine

end RoomControl
