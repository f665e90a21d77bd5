import RoomControl.Bytes

/-!
# Program memory

The program lives in a flat image of bytes. An access that leaves the image is an error and never
wraps. Beside the image the memory keeps whether it has changed since the owner last asked, and what
the device behind it still does: it may refuse some reads or all of them, and it may take only so
many more writes. `ProgramMemory.confined` is the device that answers inside one stretch only; what
runs on it as it runs elsewhere reads nothing outside that stretch.

`ProgramMemory.byteAt` is the view that laws are stated on: what each address holds.
-/

set_option autoImplicit false

namespace RoomControl

/-- Why an access failed. -/
inductive MemoryError where
  /-- The access leaves the image. -/
  | outOfBounds
  /-- The device refused. -/
  | writeFailed
  deriving DecidableEq, Repr

/-- The program memory. -/
structure ProgramMemory where
  /-- What the memory holds. -/
  image : Array UInt8
  /-- The image has changed since the owner last asked. -/
  dirty : Bool := false
  /-- The device refuses to read so many bytes at this address. -/
  refusesRead : Nat → Nat → Bool := fun _ _ => false
  /-- How many more writes the device takes; without a number it takes them all. -/
  writesLeft : Option Nat := none

namespace ProgramMemory

/-- What an erased byte holds. -/
def erasedByte : UInt8 := 0xFF

/-- An erased memory of `capacity` bytes. -/
def erased (capacity : Nat) : ProgramMemory := { image := Array.replicate capacity erasedByte }

/-- The number of bytes in the image. -/
def capacity (m : ProgramMemory) : Nat := m.image.size

/-- The size the memory declares, which is a 16-bit number. -/
def size (m : ProgramMemory) : Nat := min m.capacity 65535

/-- What an address holds. -/
def byteAt (m : ProgramMemory) (addr : Nat) : UInt8 := m.image.getD addr erasedByte

/-- The bytes from `addr` on, as many as there are up to `n`. -/
def slice (m : ProgramMemory) (addr n : Nat) : Bytes := (m.image.extract addr (addr + n)).toList

/-- An access of `n` bytes at `addr` stays inside an image that 16-bit addresses can cover. -/
def Covers (m : ProgramMemory) (addr n : Nat) : Prop := addr + n ≤ m.capacity ∧ m.capacity ≤ 65536

instance (m : ProgramMemory) (addr n : Nat) : Decidable (m.Covers addr n) :=
  inferInstanceAs (Decidable (_ ∧ _))

/-- Reads `n` bytes at `addr`. -/
def read (m : ProgramMemory) (addr n : Nat) : Except MemoryError Bytes :=
  if m.refusesRead addr n then .error .writeFailed
  else if m.Covers addr n then .ok (m.slice addr n)
  else .error .outOfBounds

/-- Reads one byte. -/
def readByte (m : ProgramMemory) (addr : Nat) : Except MemoryError UInt8 :=
  (m.read addr 1).map fun bytes => bytes.headD erasedByte

/-- Reads a big-endian word. -/
def readWord (m : ProgramMemory) (addr : Nat) : Except MemoryError UInt16 :=
  (m.read addr 2).map fun bytes => word (bytes.headD erasedByte) (bytes.getD 1 erasedByte)

/-- The image with `data` in place of what stood at `addr`. -/
def patch (image : Array UInt8) (addr : Nat) : Bytes → Array UInt8
  | [] => image
  | b :: rest => patch (image.setIfInBounds addr b) (addr + 1) rest

/-- Writes `data` at `addr`. Writing what is already there changes nothing. -/
def write (m : ProgramMemory) (addr : Nat) (data : Bytes) : Except MemoryError ProgramMemory :=
  if m.writesLeft = some 0 then .error .writeFailed
  else if m.Covers addr data.length then
    let writesLeft := m.writesLeft.map (· - 1)
    if m.slice addr data.length = data then .ok { m with writesLeft }
    else .ok { m with image := patch m.image addr data, dirty := true, writesLeft }
  else .error .outOfBounds

/-- Replaces the whole image, as after reading it from storage: what `data` does not reach is
erased, and the image counts as unchanged. -/
def load (m : ProgramMemory) (data : Bytes) : ProgramMemory :=
  { m with
    image := patch (Array.replicate m.capacity erasedByte) 0 (data.take m.capacity)
    dirty := false }

/-- Whether the image has changed, and the memory with that noted. -/
def takeDirty (m : ProgramMemory) : Bool × ProgramMemory := (m.dirty, { m with dirty := false })

/-- The memory with other refusals in force. -/
def withRefusals (m : ProgramMemory) (reads writes : Bool) : ProgramMemory :=
  { m with refusesRead := fun _ _ => reads, writesLeft := if writes then some 0 else none }

/-- The memory on a device that answers no read but those inside `[low, high)`. -/
def confined (m : ProgramMemory) (low high : Nat) : ProgramMemory :=
  { m with refusesRead := fun addr n => !decide (low ≤ addr ∧ addr + n ≤ high) }

@[simp] theorem size_patch (image : Array UInt8) (addr : Nat) (data : Bytes) :
    (patch image addr data).size = image.size := by
  induction data generalizing image addr with
  | nil => rfl
  | cons b rest ih => simp [patch, ih]

@[simp] theorem capacity_load (m : ProgramMemory) (data : Bytes) :
    (m.load data).capacity = m.capacity := by
  simp [load, capacity]

end ProgramMemory

end RoomControl
