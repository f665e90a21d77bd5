import RoomControl.Bytes

/-!
# Buffers of a fixed capacity

The controller has no heap: every byte string it keeps lives in a buffer whose capacity is part of
its type. A `Buffer n` is a byte string together with the fact that it fits, so a value of a type
built from buffers can always be written to the wire.
-/

set_option autoImplicit false

namespace RoomControl

/-- A byte string of at most `capacity` bytes. -/
@[ext] structure Buffer (capacity : Nat) where
  /-- What the buffer holds. -/
  bytes : Bytes
  /-- The contents fit. -/
  fits : bytes.length ≤ capacity
  deriving DecidableEq, Repr

namespace Buffer

variable {capacity : Nat}

/-- The empty buffer. -/
def empty : Buffer capacity := ⟨[], Nat.zero_le _⟩

instance : Inhabited (Buffer capacity) := ⟨empty⟩

/-- The number of bytes held. -/
def size (b : Buffer capacity) : Nat := b.bytes.length

/-- A buffer that holds `bytes`, when they fit. -/
def ofBytes? (bytes : Bytes) : Option (Buffer capacity) :=
  if h : bytes.length ≤ capacity then some ⟨bytes, h⟩ else none

/-- The longest prefix of `bytes` that fits. -/
def ofPrefix (bytes : Bytes) : Buffer capacity :=
  ⟨bytes.take capacity, List.length_take_le capacity bytes⟩

/-- Appends one byte, when there is room for it. -/
def push? (b : Buffer capacity) (byte : UInt8) : Option (Buffer capacity) :=
  ofBytes? (b.bytes ++ [byte])

@[simp] theorem bytes_empty : (empty : Buffer capacity).bytes = [] := rfl

@[simp] theorem ofBytes?_bytes (b : Buffer capacity) : ofBytes? b.bytes = some b := by
  simp [ofBytes?, b.fits]

theorem ofBytes?_eq_some_iff {bytes : Bytes} {b : Buffer capacity} :
    ofBytes? bytes = some b ↔ bytes = b.bytes := by
  constructor
  · intro h
    unfold ofBytes? at h
    split at h
    · cases h; rfl
    · cases h
  · rintro rfl
    exact ofBytes?_bytes b

theorem ofBytes?_eq_none_iff {bytes : Bytes} :
    (ofBytes? bytes : Option (Buffer capacity)) = none ↔ capacity < bytes.length := by
  simp [ofBytes?]

theorem ofBytes?_of_le {bytes : Bytes} (h : bytes.length ≤ capacity) :
    ofBytes? bytes = some ⟨bytes, h⟩ := dif_pos h

theorem ofBytes?_eq_ofPrefix {bytes : Bytes} (h : bytes.length ≤ capacity) :
    ofBytes? bytes = some (ofPrefix bytes : Buffer capacity) :=
  ofBytes?_eq_some_iff.mpr (List.take_of_length_le h).symm

theorem push?_eq_some_iff {b b' : Buffer capacity} {byte : UInt8} :
    b.push? byte = some b' ↔ b'.bytes = b.bytes ++ [byte] := by
  rw [push?, ofBytes?_eq_some_iff, eq_comm]

theorem push?_eq_none_iff {b : Buffer capacity} {byte : UInt8} :
    b.push? byte = none ↔ b.size = capacity := by
  have := b.fits
  simp only [push?, ofBytes?_eq_none_iff, List.length_append, List.length_singleton, size]
  omega

/-- A buffer that is not full takes one more byte. -/
theorem exists_push? {b : Buffer capacity} (h : b.size < capacity) (byte : UInt8) :
    ∃ longer, b.push? byte = some longer ∧ longer.bytes = b.bytes ++ [byte] ∧
      longer.size = b.size + 1 := by
  have hfits : (b.bytes ++ [byte]).length ≤ capacity := by
    rw [List.length_append]
    exact h
  exact ⟨⟨b.bytes ++ [byte], hfits⟩, push?_eq_some_iff.mpr rfl, rfl, by simp [size]⟩

end Buffer

end RoomControl
