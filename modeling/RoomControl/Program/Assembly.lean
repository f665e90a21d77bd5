import RoomControl.Program.Condition
import RoomControl.Program.Layout

/-!
# Assembling a program

A `ProgramBuilder` takes the parts of a program call by call: actions, states, and evaluations that
name actions by their handles. It keeps them in five flat tables of fixed room. The values of all
actions stand in one table and the references of all evaluations in another, so an entry records
where its own part starts and how long it is. A call that finds one table full may already have put
its bytes into another; no entry points to those.

The stored form is written at the end, when every offset is known. An offset is the sum of the sizes
of what comes before.
-/

set_option autoImplicit false

namespace RoomControl

/-- Why a call to the builder is refused. -/
inductive BuildError where
  /-- There is no room left. -/
  | full
  /-- The value of an action is too long. -/
  | valueTooLong
  /-- There is no state to add to. -/
  | noState
  /-- A reference names an action that is not there. -/
  | unknownAction
  /-- The program fits neither the buffer nor the memory. -/
  | tooLarge
  deriving DecidableEq, Repr

/-! ## The tables -/

/-- The size of parts that follow each other. -/
def totalSize (sizes : List Nat) : Nat := sizes.foldr (· + ·) 0

/-- An action, and where its value stands. -/
structure ActionEntry where
  device : UInt8
  valueStart : UInt16
  valueLength : UInt8
  deriving DecidableEq

/-- An evaluation, and where its references stand. -/
structure EvaluationEntry where
  conditions : Conditions
  referencesStart : UInt8
  referencesLength : UInt8
  deriving DecidableEq

/-- Where the evaluations of a state stand. -/
structure StateEntry where
  evaluationsStart : UInt8
  evaluationsLength : UInt8
  deriving DecidableEq

/-- The number of bytes of an action in the stored form. -/
def ActionEntry.size (a : ActionEntry) : Nat := 2 + a.valueLength.toNat

/-- The number of bytes of an evaluation in the stored form. -/
def EvaluationEntry.size (e : EvaluationEntry) : Nat :=
  Conditions.size + 1 + 2 * e.referencesLength.toNat

/-- The state with one more evaluation. -/
def StateEntry.lengthen (s : StateEntry) : StateEntry :=
  { s with evaluationsLength := s.evaluationsLength + 1 }

/-- A program that grows call by call. -/
structure ProgramBuilder where
  actions : List ActionEntry := []
  /-- The values of all actions. -/
  values : Bytes := []
  /-- The evaluations of all states. -/
  evaluations : List EvaluationEntry := []
  /-- The handles that all evaluations name. -/
  references : Bytes := []
  states : List StateEntry := []
  deriving DecidableEq

namespace ProgramBuilder

def maxStates : Nat := 32

/-- The limit over all states. -/
def maxEvaluations : Nat := 64

def maxActions : Nat := 64

/-- The limit over all evaluations. -/
def maxReferences : Nat := 128

/-- The limit over the values of all actions. -/
def maxValueBytes : Nat := 512

/-- The largest program that 16-bit offsets reach. -/
def maxLength : Nat := 65535

variable (b : ProgramBuilder)

/-- No state has been added. -/
def isEmpty : Bool := b.states.isEmpty

/-! ## The calls -/

/-- Adds an action to the table and answers its handle. -/
def action (device : UInt8) (value : Bytes) : Except BuildError UInt8 × ProgramBuilder :=
  if value.length > Action.maxValue then (.error .valueTooLong, b)
  else if b.values.length + value.length > maxValueBytes then (.error .full, b)
  else
    let values := b.values ++ value
    if b.actions.length < maxActions then
      let entry : ActionEntry :=
        ⟨device, UInt16.ofNat b.values.length, UInt8.ofNat value.length⟩
      (.ok (UInt8.ofNat b.actions.length), { b with values, actions := b.actions ++ [entry] })
    else (.error .full, { b with values })

/-- Starts another state and answers its number. -/
def state : Except BuildError UInt8 × ProgramBuilder :=
  if b.states.length < maxStates then
    let entry : StateEntry := ⟨UInt8.ofNat b.evaluations.length, 0⟩
    (.ok (UInt8.ofNat b.states.length), { b with states := b.states ++ [entry] })
  else (.error .full, b)

/-- Adds an evaluation to the last state. -/
def evaluation (conditions : Conditions) (actions : List Nat) :
    Except BuildError Unit × ProgramBuilder :=
  if b.isEmpty then (.error .noState, b)
  else if ∃ i ∈ actions, i ≥ b.actions.length then (.error .unknownAction, b)
  else if b.references.length + actions.length > maxReferences then (.error .full, b)
  else
    let references := b.references ++ actions.map UInt8.ofNat
    if b.evaluations.length < maxEvaluations then
      let entry : EvaluationEntry :=
        ⟨conditions, UInt8.ofNat b.references.length, UInt8.ofNat actions.length⟩
      let states := b.states.dropLast ++ (b.states.getLast?.map StateEntry.lengthen).toList
      (.ok (), { b with references, evaluations := b.evaluations ++ [entry], states })
    else (.error .full, { b with references })

/-! ## Looking an entry up -/

/-- The value of an action. -/
def valueOf (a : ActionEntry) : Bytes :=
  (b.values.drop a.valueStart.toNat).take a.valueLength.toNat

/-- The handles that an evaluation names. -/
def referencesOf (e : EvaluationEntry) : Bytes :=
  (b.references.drop e.referencesStart.toNat).take e.referencesLength.toNat

/-- The evaluations of a state. -/
def evaluationsOf (s : StateEntry) : List EvaluationEntry :=
  (b.evaluations.drop s.evaluationsStart.toNat).take s.evaluationsLength.toNat

/-! ## Offsets -/

/-- The number of bytes of a state. -/
def stateLength (s : StateEntry) : Nat :=
  1 + totalSize ((b.evaluationsOf s).map EvaluationEntry.size)

/-- The end of the header. -/
def headerLength : Nat := Layout.headerEnd b.states.length

/-- The offset of the action table. -/
def actionTable : Nat := b.headerLength + totalSize (b.states.map b.stateLength)

/-- The offset of the action with a handle. -/
def actionOffset (handle : UInt8) : Nat :=
  b.actionTable + 1 + totalSize ((b.actions.take handle.toNat).map ActionEntry.size)

/-- The number of bytes of the whole program. -/
def length : Nat := b.actionOffset (UInt8.ofNat b.actions.length)

/-! ## The stored form -/

/-- An offset as it is stored. -/
def offsetBytes (offset : Nat) : Bytes := wordBytes (UInt16.ofNat offset)

/-- The offsets of states that follow each other from `offset` on. -/
def stateTable (offset : Nat) : List StateEntry → Bytes
  | [] => []
  | s :: rest => offsetBytes offset ++ stateTable (offset + b.stateLength s) rest

/-- The bytes of an evaluation. -/
def evaluationBytes (e : EvaluationEntry) : Bytes :=
  e.conditions.toBytes ++ e.referencesLength ::
    (b.referencesOf e).flatMap fun handle => offsetBytes (b.actionOffset handle)

/-- The bytes of a state. -/
def stateBytes (s : StateEntry) : Bytes :=
  s.evaluationsLength :: (b.evaluationsOf s).flatMap b.evaluationBytes

/-- The bytes of an action in the table. -/
def actionBytes (a : ActionEntry) : Bytes := a.device :: a.valueLength :: b.valueOf a

/-- The stored form, enabled. -/
def image : Bytes :=
  statusEnabled :: UInt8.ofNat b.states.length ::
    b.stateTable b.headerLength b.states ++
    offsetBytes b.actionTable ++
    b.states.flatMap b.stateBytes ++
    UInt8.ofNat b.actions.length :: b.actions.flatMap b.actionBytes

/-- Writes the program over the start of `buffer`: how many bytes were written, and the buffer
after it. -/
def write (buffer : Bytes) : Except BuildError (Nat × Bytes) :=
  if b.length > buffer.length ∨ b.length > maxLength then .error .tooLarge
  else .ok (b.image.length, b.image ++ buffer.drop b.image.length)

/-- The buffer after the program was written over its start. -/
def build (buffer : Bytes) : Except BuildError Bytes := (b.write buffer).map Prod.snd

end ProgramBuilder

end RoomControl
