import RoomControl.Channel
import RoomControl.Program.Layout

/-!
# Uploading and downloading a program

An upload writes the stored program in chunks, in any order. Its first two bytes, the status and
the number of states, stay out of the memory: while the upload is open it holds a disabled program
without states. The chunk that ends at the announced length closes the upload. Then the number of
states is written, and the program is enabled when it is well-formed and exactly that long. The
status byte that the peer sends plays no part: nothing ever reads it back, so of the two bytes that
are held an open `Upload` keeps the number of states only.

A download reads the stored program in pieces of `chunkData` bytes.
-/

set_option autoImplicit false

namespace RoomControl

/-- Why a transfer is refused. -/
inductive TransferError where
  /-- No upload is open. -/
  | notStarted
  /-- The announced length is too small, or larger than the memory. -/
  | invalidLength
  /-- The chunk is empty or goes past the announced length. -/
  | outOfRange
  /-- The finished program is not well-formed. -/
  | invalidProgram
  /-- The memory failed. -/
  | memory (error : MemoryError)
  deriving DecidableEq, Repr

/-- A failure of the memory stays one; any other means that the program is not well-formed. -/
def TransferError.ofProgram : ProgramError → TransferError
  | .memory e => .memory e
  | _ => .invalidProgram

/-- What a chunk that was taken led to. -/
inductive ChunkOutcome where
  | stored
  /-- The chunk was the last and the program is enabled. -/
  | complete
  deriving DecidableEq, Repr

/-- An open upload. -/
structure Upload where
  /-- The announced length. -/
  total : Nat
  /-- The channel that the upload arrives on. -/
  source : Channel
  /-- The number of states of the new program, as far as it is known. -/
  heldCount : UInt8 := 0
  deriving DecidableEq, Repr

namespace Upload

/-- The number of bytes held back. -/
def heldLength : Nat := 2

/-- The shortest program. -/
def minLength : Nat := 3

/-- Opens an upload of `total` bytes and disables the stored program. An upload that was open is
given up, unless the length is refused. -/
def begin (open? : Option Upload) (memory : ProgramMemory) (total : Nat) (source : Channel) :
    Except TransferError Unit × Option Upload × ProgramMemory :=
  if total < minLength ∨ total > memory.size then (.error .invalidLength, open?, memory)
  else
    match memory.write 0 [statusDisabled, 0] with
    | .ok memory => (.ok (), some { total, source }, memory)
    | .error e => (.error (.memory e), none, memory)

/-- The upload after holding back the number of states, if `data` supplies it. -/
def hold (u : Upload) (addr : Nat) (data : Bytes) : Upload :=
  if addr ≤ 1 then { u with heldCount := data.getD (1 - addr) u.heldCount } else u

/-- Closes a finished upload: writes the held number of states and enables the program when it is
well-formed and as long as announced. -/
def finish (u : Upload) (memory : ProgramMemory) :
    Except TransferError ChunkOutcome × ProgramMemory :=
  match memory.write 1 [u.heldCount] with
  | .error e => (.error (.memory e), memory)
  | .ok memory =>
    if memory.programLength ≠ u.total then (.error .invalidProgram, memory)
    else
      match memory.write 0 [statusEnabled] with
      | .error e => (.error (.memory e), memory)
      | .ok memory => (.ok .complete, memory)

/-- Stores the part of a chunk that is not held back. -/
def store (memory : ProgramMemory) (addr : Nat) (data : Bytes) :
    Except MemoryError ProgramMemory :=
  match data.drop (heldLength - addr) with
  | [] => .ok memory
  | rest => memory.write (max addr heldLength) rest

/-- Takes one chunk. -/
def chunk (open? : Option Upload) (memory : ProgramMemory) (addr : Nat) (data : Bytes) :
    Except TransferError ChunkOutcome × Option Upload × ProgramMemory :=
  match open? with
  | none => (.error .notStarted, none, memory)
  | some u =>
    let stop := addr + data.length
    if data = [] ∨ stop > u.total then (.error .outOfRange, open?, memory)
    else
      let u := u.hold addr data
      match store memory addr data with
      | .error e => (.error (.memory e), some u, memory)
      | .ok memory =>
        if stop < u.total then (.ok .stored, some u, memory)
        else
          let (result, memory) := u.finish memory
          (result, none, memory)

/-- Gives up an upload that arrives on `channel`: whether there was one, and what is left. -/
def abortFrom (open? : Option Upload) (channel : Channel) : Bool × Option Upload :=
  if open?.map Upload.source = some channel then (true, none) else (false, open?)

end Upload

/-! ## Downloading -/

namespace ProgramMemory

/-- The number of program bytes in one piece of a download. -/
def chunkData : Nat := 24

/-- The number of pieces that the stored program comes in. -/
def chunkCount (m : ProgramMemory) : Nat := (m.programLength + chunkData - 1) / chunkData

/-- One piece of the stored program, with its address and size in front; nothing past the end of
the program. The piece must fit `room` bytes. -/
def readChunk (m : ProgramMemory) (index room : Nat) : Except TransferError (Option Bytes) :=
  let length := m.programLength
  let addr := index * chunkData
  if addr ≥ length then .ok none
  else
    let n := min (length - addr) chunkData
    if room < 3 + n then .error .outOfRange
    else
      match m.read addr n with
      | .ok data => .ok (some (wordBytes (UInt16.ofNat addr) ++ UInt8.ofNat n :: data))
      | .error e => .error (.memory e)

/-- What a peer compares its copy with: the length of the stored program and its additive sum. -/
def consistency (m : ProgramMemory) : Except TransferError Bytes :=
  match m.programSum m.programLength with
  | .ok sum => .ok (wordBytes (UInt16.ofNat m.programLength) ++ [sum])
  | .error e => .error (.ofProgram e)

end ProgramMemory

end RoomControl
