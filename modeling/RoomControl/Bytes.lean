/-!
# Bytes

A byte string is a list of octets. This module holds what every format of the library shares: the
additive checksum, the big-endian split of a 16-bit word, and writing a byte string over the start
of a larger buffer.

The laws are the small ones that later modules cite: the checksum of an append, the two halves of a
word, and what a buffer holds after it has been overwritten.
-/

set_option autoImplicit false

namespace RoomControl

/-- A byte string: a packet, a payload, a stored value. -/
abbrev Bytes := List UInt8

/-! ## The additive checksum -/

/-- The sum of all bytes modulo 256. Messages carry it, and an acknowledgement echoes it. -/
def additiveSum : Bytes → UInt8
  | [] => 0
  | b :: rest => b + additiveSum rest

/-- The byte that brings the sum of `bytes` back to zero. Frames carry it. -/
def balancingByte (bytes : Bytes) : UInt8 := -additiveSum bytes

@[simp] theorem additiveSum_nil : additiveSum [] = 0 := rfl

@[simp] theorem additiveSum_cons (b : UInt8) (rest : Bytes) :
    additiveSum (b :: rest) = b + additiveSum rest := rfl

@[simp] theorem additiveSum_append (left right : Bytes) :
    additiveSum (left ++ right) = additiveSum left + additiveSum right := by
  induction left with
  | nil => simp
  | cons b rest ih => simp [ih, UInt8.add_assoc]

/-! ## Big-endian words -/

/-- The 16-bit word whose high byte is `high` and whose low byte is `low`. -/
def word (high low : UInt8) : UInt16 := UInt16.ofNat (256 * high.toNat + low.toNat)

/-- The high byte of a word. -/
def highByte (w : UInt16) : UInt8 := UInt8.ofNat (w.toNat / 256)

/-- The low byte of a word. -/
def lowByte (w : UInt16) : UInt8 := UInt8.ofNat w.toNat

/-- The two bytes of a word, high byte first. -/
def wordBytes (w : UInt16) : Bytes := [highByte w, lowByte w]

theorem toNat_word (high low : UInt8) : (word high low).toNat = 256 * high.toNat + low.toNat := by
  have hh := high.toNat_lt
  have hl := low.toNat_lt
  simp only [word, UInt16.toNat_ofNat']
  omega

@[simp] theorem word_highByte_lowByte (w : UInt16) : word (highByte w) (lowByte w) = w := by
  apply UInt16.toNat_inj.mp
  have hw := w.toNat_lt
  simp only [toNat_word, highByte, lowByte, UInt8.toNat_ofNat']
  omega

@[simp] theorem highByte_word (high low : UInt8) : highByte (word high low) = high := by
  apply UInt8.toNat_inj.mp
  have hh := high.toNat_lt
  have hl := low.toNat_lt
  simp only [highByte, toNat_word, UInt8.toNat_ofNat']
  omega

@[simp] theorem lowByte_word (high low : UInt8) : lowByte (word high low) = low := by
  apply UInt8.toNat_inj.mp
  have hh := high.toNat_lt
  have hl := low.toNat_lt
  simp only [lowByte, toNat_word, UInt8.toNat_ofNat']
  omega

/-! ## Writing over a buffer -/

/-- Writes `data` over the start of `buffer`: how many bytes were written, and the buffer after it.
Refused when the buffer is shorter. What lies past the data stays as it was. -/
def overwrite? (buffer data : Bytes) : Option (Nat × Bytes) :=
  if data.length ≤ buffer.length then some (data.length, data ++ buffer.drop data.length) else none

theorem overwrite?_eq_none_iff {buffer data : Bytes} :
    overwrite? buffer data = none ↔ buffer.length < data.length := by
  simp [overwrite?]

theorem overwrite?_of_le {buffer data : Bytes} (h : data.length ≤ buffer.length) :
    overwrite? buffer data = some (data.length, data ++ buffer.drop data.length) := if_pos h

end RoomControl
