import RoomControl.Bytes

/-!
# Conditions on the input ports

A program watches four input ports. A condition looks at the bits of one port that its mask picks:
it holds when they have the condition's value, and it notices a change of any of them. Bits outside
the mask play no part in either, which `Condition.holds_congr` and `Condition.notices_congr` state.
-/

set_option autoImplicit false

namespace RoomControl

/-- The number of input ports. -/
def portCount : Nat := 4

/-- The levels of all input ports. -/
abbrev Ports := Vector UInt8 portCount

/-- What is asked of one port. -/
structure Condition where
  value : UInt8
  mask : UInt8
  deriving DecidableEq, Repr

namespace Condition

/-- The picked bits have the condition's value. -/
def Holds (c : Condition) (input : UInt8) : Prop := input &&& c.mask = c.value &&& c.mask

/-- One of the picked bits differs between `old` and `new`. -/
def Notices (c : Condition) (old new : UInt8) : Prop := (new ^^^ old) &&& c.mask ≠ 0

instance (c : Condition) (input : UInt8) : Decidable (c.Holds input) :=
  inferInstanceAs (Decidable (_ = _))

instance (c : Condition) (old new : UInt8) : Decidable (c.Notices old new) :=
  inferInstanceAs (Decidable (_ ≠ _))

theorem holds_congr (c : Condition) {a b : UInt8} (h : a &&& c.mask = b &&& c.mask) :
    c.Holds a ↔ c.Holds b := by
  rw [Holds, Holds, h]

theorem notices_iff (c : Condition) {old new : UInt8} :
    c.Notices old new ↔ new &&& c.mask ≠ old &&& c.mask := by
  have key : (new ^^^ old) &&& c.mask = (new &&& c.mask) ^^^ (old &&& c.mask) := by
    apply UInt8.toBitVec_inj.mp
    simp only [UInt8.toBitVec_and, UInt8.toBitVec_xor]
    ext i hi
    simp only [BitVec.getElem_and, BitVec.getElem_xor]
    cases c.mask.toBitVec[i] <;> simp
  rw [Notices, key, ne_eq, UInt8.xor_eq_zero_iff]

theorem notices_congr (c : Condition) {a b a' b' : UInt8} (ha : a &&& c.mask = a' &&& c.mask)
    (hb : b &&& c.mask = b' &&& c.mask) : c.Notices a b ↔ c.Notices a' b' := by
  rw [notices_iff, notices_iff, ha, hb]

end Condition

/-- One condition for each port. -/
abbrev Conditions := Vector Condition portCount

namespace Conditions

/-- Every port meets its condition. -/
def Hold (cs : Conditions) (inputs : Ports) : Prop := ∀ i : Fin portCount, cs[i].Holds inputs[i]

/-- Some port shows a change that its condition looks at. -/
def Notice (cs : Conditions) (old new : Ports) : Prop :=
  ∃ i : Fin portCount, cs[i].Notices old[i] new[i]

instance (cs : Conditions) (inputs : Ports) : Decidable (cs.Hold inputs) :=
  inferInstanceAs (Decidable (∀ i : Fin portCount, cs[i].Holds inputs[i]))

instance (cs : Conditions) (old new : Ports) : Decidable (cs.Notice old new) :=
  inferInstanceAs (Decidable (∃ i : Fin portCount, cs[i].Notices old[i] new[i]))

/-- The stored form: value and mask of each port in turn. -/
def toBytes (cs : Conditions) : Bytes := cs.toList.flatMap fun c => [c.value, c.mask]

/-- The number of bytes in the stored form. -/
def size : Nat := 2 * portCount

/-- The conditions in a stored form; what is missing asks for nothing. -/
def ofBytes (bytes : Bytes) : Conditions :=
  Vector.ofFn fun i => ⟨bytes.getD (2 * i.val) 0, bytes.getD (2 * i.val + 1) 0⟩

@[simp] theorem length_toBytes (cs : Conditions) : cs.toBytes.length = size := by
  simp only [toBytes, List.length_flatMap, List.length_cons, List.length_nil, List.map_const',
    List.sum_replicate_nat, Vector.length_toList]
  rfl

theorem ofBytes_toBytes (cs : Conditions) : ofBytes cs.toBytes = cs := by
  match cs with
  | ⟨⟨[_, _, _, _]⟩, _⟩ => rfl

theorem toBytes_ofBytes {bytes : Bytes} (h : bytes.length = size) :
    (ofBytes bytes).toBytes = bytes := by
  match bytes, h with
  | [_, _, _, _, _, _, _, _], _ => rfl

end Conditions

end RoomControl
