/-!
# Numerals

A natural number in a settings file: digits of some base, at least one, with an optional plus sign
in front. There is no minus sign, no separator and no blank inside.
-/

set_option autoImplicit false

namespace RoomControl

/-- The value of a digit, in bases up to sixteen; letters count in either case. -/
def digitValue? (base : Nat) (c : Char) : Option Nat :=
  let value : Option Nat :=
    if '0' ≤ c ∧ c ≤ '9' then some (c.toNat - '0'.toNat)
    else if 'a' ≤ c ∧ c ≤ 'f' then some (c.toNat - 'a'.toNat + 10)
    else if 'A' ≤ c ∧ c ≤ 'F' then some (c.toNat - 'A'.toNat + 10)
    else none
  value.filter (· < base)

/-- The number that digits stand for, continuing from the value of the digits before them. -/
def digitsValue? (base before : Nat) : List Char → Option Nat
  | [] => some before
  | c :: rest => (digitValue? base c).bind fun d => digitsValue? base (base * before + d) rest

/-- A numeral in the given base, with or without a plus sign. -/
def numeralIn? (base : Nat) (text : List Char) : Option Nat :=
  let digits := match text with
    | '+' :: rest => rest
    | _ => text
  if digits = [] then none else digitsValue? base 0 digits

/-- A numeral: hexadecimal after "0x" or "0X", else decimal. -/
def numeral? (text : List Char) : Option Nat :=
  match text with
  | '0' :: 'x' :: rest => numeralIn? 16 rest
  | '0' :: 'X' :: rest => numeralIn? 16 rest
  | _ => numeralIn? 10 text

end RoomControl
