import RoomControl.Bytes.Buffer
import RoomControl.Program.Memory

/-!
# The layout of a program

    0    status
    1    number of states
    2    offset of each state, then the offset of the action table (big-endian words)
    ..   states: number of evaluations; each evaluation is four (value, mask) pairs, the number of
         its actions and their offsets
    ..   action table: number of actions; each action is a device byte, a length and a value

All offsets count from the start of the memory. `Layout.read` walks the whole structure once and
refuses what leaves its region or refers to something that is no action. Whether a reference is an
action is asked of the record starts that the walk over the table has found, in increasing order; to
scan the table again for each reference would read the same bytes and find the same starts. The walk
does not look at the status byte. `Layout.stateOffset` and `Layout.action` follow one offset at run time, and check it
again.
-/

set_option autoImplicit false

namespace RoomControl

/-- Why a memory holds no program, or a program cannot go on. -/
inductive ProgramError where
  /-- The status byte does not enable the program. -/
  | notEnabled
  /-- The program has no states. -/
  | noStates
  /-- A read leaves its region. -/
  | outOfBounds
  /-- The action table overlaps the header or lies past the memory. -/
  | badActionTable
  /-- The offset of this state is outside the region of states. -/
  | badStateOffset (state : UInt8)
  /-- This offset is no action. -/
  | badActionRef (offset : UInt16)
  /-- The value of an action is too long. -/
  | actionTooLong
  /-- The program has no such state. -/
  | noSuchState (state : UInt8)
  /-- The memory itself failed. -/
  | memory (error : MemoryError)
  deriving DecidableEq, Repr

/-- A memory access that leaves the image counts as leaving the region. -/
def ProgramError.ofMemory : MemoryError → ProgramError
  | .outOfBounds => .outOfBounds
  | e => .memory e

/-- The status byte of a program that may run. -/
def statusEnabled : UInt8 := 0x5A

/-- The status byte of a program that may not. -/
def statusDisabled : UInt8 := 0x00

/-- The number that stands for "no state". -/
def noState : UInt8 := 0xFF

/-! ## Regions -/

/-- The part of a memory that a walk may read: everything before `stop`. -/
structure Region where
  memory : ProgramMemory
  stop : Nat

namespace Region

/-- Steps over `n` bytes at `pos`. -/
def skip (r : Region) (pos n : Nat) : Except ProgramError Nat :=
  if pos + n ≤ r.stop then .ok (pos + n) else .error .outOfBounds

/-- The byte at `pos`. -/
def byte (r : Region) (pos : Nat) : Except ProgramError UInt8 :=
  if pos + 1 ≤ r.stop then (r.memory.readByte pos).mapError .ofMemory else .error .outOfBounds

/-- The word at `pos`. -/
def word (r : Region) (pos : Nat) : Except ProgramError UInt16 :=
  if pos + 2 ≤ r.stop then (r.memory.readWord pos).mapError .ofMemory else .error .outOfBounds

/-- The `n` bytes at `pos`. -/
def bytes (r : Region) (pos n : Nat) : Except ProgramError Bytes :=
  if pos + n ≤ r.stop then (r.memory.read pos n).mapError .ofMemory else .error .outOfBounds

end Region

/-! ## Actions -/

/-- One action of a program. -/
structure Action where
  /-- The device byte, with its entry flag. -/
  device : UInt8
  /-- What the device is told. -/
  value : Buffer 32
  deriving DecidableEq, Repr

/-- The longest value of an action. -/
def Action.maxValue : Nat := 32

/-! ## The layout -/

/-- Where the parts of a program lie. -/
structure Layout where
  /-- The number of states. -/
  stateCount : Nat
  /-- The offset of the action table. -/
  actionTable : Nat
  /-- The end of the action table, which is the end of the program. -/
  length : Nat
  deriving DecidableEq, Repr

namespace Layout

/-- The end of the header of a program with this many states. -/
def headerEnd (stateCount : Nat) : Nat := 2 + 2 * stateCount + 2

/-- Walks `n` action records from `pos`: where each starts, and where the last ends. -/
def walkRecords (r : Region) : (n : Nat) → (pos : Nat) → Except ProgramError (List Nat × Nat)
  | 0, pos => .ok ([], pos)
  | n + 1, pos => do
    let _ ← r.byte pos
    let length ← r.byte (pos + 1)
    if length.toNat > Action.maxValue then .error .actionTooLong
    else
      let next ← r.skip (pos + 2) length.toNat
      let (starts, stop) ← walkRecords r n next
      .ok (pos :: starts, stop)

/-- Walks the action table. -/
def walkTable (m : ProgramMemory) (actionTable : Nat) : Except ProgramError (List Nat × Nat) := do
  let r : Region := ⟨m, m.size⟩
  let count ← r.byte actionTable
  walkRecords r count.toNat (actionTable + 1)

/-- Walks `n` references from `pos`; each must be the start of an action record. -/
def walkReferences (r : Region) (starts : List Nat) :
    (n : Nat) → (pos : Nat) → Except ProgramError Nat
  | 0, pos => .ok pos
  | n + 1, pos => do
    let offset ← r.word pos
    if offset.toNat ∈ starts then walkReferences r starts n (pos + 2)
    else .error (.badActionRef offset)

/-- Walks `n` evaluations from `pos`. -/
def walkEvaluations (r : Region) (starts : List Nat) :
    (n : Nat) → (pos : Nat) → Except ProgramError Nat
  | 0, pos => .ok pos
  | n + 1, pos => do
    let pos ← r.skip pos 8
    let count ← r.byte pos
    let pos ← walkReferences r starts count.toNat (pos + 1)
    walkEvaluations r starts n pos

/-- Walks the evaluations of the state at `offset`. -/
def walkState (r : Region) (starts : List Nat) (offset : Nat) : Except ProgramError Nat := do
  let count ← r.byte offset
  walkEvaluations r starts count.toNat (offset + 1)

/-- The offset of a state. -/
def stateOffset (layout : Layout) (m : ProgramMemory) (state : UInt8) : Except ProgramError Nat :=
  if state.toNat ≥ layout.stateCount then .error (.noSuchState state)
  else do
    let offset ← (m.readWord (2 + 2 * state.toNat)).mapError .ofMemory
    if offset.toNat < headerEnd layout.stateCount ∨ offset.toNat ≥ layout.actionTable then
      .error (.badStateOffset state)
    else .ok offset.toNat

/-- Walks `n` states, the first of which has the number `first`. -/
def walkStates (layout : Layout) (m : ProgramMemory) (starts : List Nat) :
    (n : Nat) → (first : Nat) → Except ProgramError Unit
  | 0, _ => .ok ()
  | n + 1, first => do
    let offset ← layout.stateOffset m (UInt8.ofNat first)
    let _ ← walkState ⟨m, layout.actionTable⟩ starts offset
    walkStates layout m starts n (first + 1)

/-- The layout of the program in a memory, when it is well-formed. -/
def read (m : ProgramMemory) : Except ProgramError Layout := do
  let count ← (m.readByte 1).mapError .ofMemory
  let header := headerEnd count.toNat
  if header > m.size then .error .outOfBounds
  else
    let table ← (m.readWord (header - 2)).mapError .ofMemory
    if table.toNat < header ∨ table.toNat ≥ m.size then .error .badActionTable
    else
      let (starts, stop) ← walkTable m table.toNat
      let layout : Layout := ⟨count.toNat, table.toNat, stop⟩
      layout.walkStates m starts count.toNat 0
      .ok layout

/-- The action at an offset inside the action table. -/
def action (layout : Layout) (m : ProgramMemory) (offset : UInt16) : Except ProgramError Action :=
  if offset.toNat ≤ layout.actionTable ∨ offset.toNat ≥ layout.length then
    .error (.badActionRef offset)
  else do
    let r : Region := ⟨m, layout.length⟩
    let device ← r.byte offset.toNat
    let length ← r.byte (offset.toNat + 1)
    let _ ← r.skip (offset.toNat + 2) length.toNat
    if length.toNat > Action.maxValue then .error .actionTooLong
    else
      let bytes ← (m.read (offset.toNat + 2) length.toNat).mapError .ofMemory
      match Buffer.ofBytes? bytes with
      | some value => .ok ⟨device, value⟩
      | none => .error .actionTooLong

end Layout

/-! ## The stored program as a whole -/

namespace ProgramMemory

/-- The status byte enables the program. -/
def isEnabled (m : ProgramMemory) : Except ProgramError Bool :=
  ((m.readByte 0).map (· == statusEnabled)).mapError .ofMemory

/-- The length of the stored program, or zero when there is none that is well-formed. -/
def programLength (m : ProgramMemory) : Nat :=
  match Layout.read m with
  | .ok layout => layout.length
  | .error _ => 0

/-- The additive sum of `left` bytes from `addr` on, read in pieces of at most 32. -/
def sumFrom (m : ProgramMemory) (addr left : Nat) : Except ProgramError UInt8 :=
  if left = 0 then .ok 0
  else
    match m.read addr (min left 32) with
    | .ok piece => (m.sumFrom (addr + min left 32) (left - min left 32)).map (additiveSum piece + ·)
    | .error e => .error (.ofMemory e)
termination_by left
decreasing_by omega

/-- The additive sum of the first `length` bytes. -/
def programSum (m : ProgramMemory) (length : Nat) : Except ProgramError UInt8 := m.sumFrom 0 length

end ProgramMemory

end RoomControl
