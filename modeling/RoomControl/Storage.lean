import RoomControl.Bytes

/-!
# Flash storage

Three values outlive a reboot, each under its own key: the configuration in packed form, its text,
and the image of the program. A `FlashStore` is a map from keys to values together with whether the
chip behind it currently fails. A value that was stored empty is present.
-/

set_option autoImplicit false

namespace RoomControl

/-- What a stored value is. -/
inductive StorageKey where
  /-- The configuration in packed form. -/
  | config
  /-- The configuration as text. -/
  | configText
  /-- The image of the program. -/
  | program
  deriving DecidableEq, Repr

/-- Why bytes are no key, or a key cannot be written. -/
inductive KeyError where
  | bufferTooSmall
  | invalidFormat
  deriving DecidableEq, Repr

namespace StorageKey

/-- The byte of a key. -/
def toByte : StorageKey → UInt8
  | config => 0
  | configText => 1
  | program => 2

/-- The key of a byte. -/
def ofByte? (byte : UInt8) : Option StorageKey :=
  match byte with
  | 0 => some config
  | 1 => some configText
  | 2 => some program
  | _ => none

/-- Writes the key over the start of `buffer`: its length, and the buffer after it. -/
def encodeInto (key : StorageKey) (buffer : Bytes) : Except KeyError (Nat × Bytes) :=
  match overwrite? buffer [key.toByte] with
  | some written => .ok written
  | none => .error .bufferTooSmall

/-- The key that `bytes` start with. -/
def decode : Bytes → Except KeyError StorageKey
  | [] => .error .bufferTooSmall
  | byte :: _ =>
    match ofByte? byte with
    | some key => .ok key
    | none => .error .invalidFormat

end StorageKey

/-- Why an access to the storage failed. -/
inductive FlashError where
  /-- The chip failed to erase. -/
  | flash
  /-- The chip failed to read or write. -/
  | storage
  /-- There is no value under the key. -/
  | notFound
  /-- The value exceeds the buffer, or what can be stored. -/
  | bufferTooSmall
  deriving DecidableEq, Repr

/-- What is stored. -/
structure FlashStore where
  /-- The value under each key. -/
  value? : StorageKey → Option Bytes := fun _ => none
  /-- The chip fails. -/
  failing : Bool := false

namespace FlashStore

/-- The longest value that can be stored. -/
def maxValue : Nat := 2048

/-- Reads a value that fits `room` bytes. -/
def read (s : FlashStore) (key : StorageKey) (room : Nat) : Except FlashError Bytes :=
  if s.failing then .error .storage
  else
    match s.value? key with
    | none => .error .notFound
    | some value => if value.length ≤ room then .ok value else .error .bufferTooSmall

/-- Stores a value in place of what was under the key. -/
def write (s : FlashStore) (key : StorageKey) (value : Bytes) : Except FlashError FlashStore :=
  if value.length > maxValue then .error .bufferTooSmall
  else if s.failing then .error .storage
  else .ok { s with value? := fun k => if k = key then some value else s.value? k }

/-- Removes every value. -/
def erase (s : FlashStore) : Except FlashError FlashStore :=
  if s.failing then .error .flash else .ok { s with value? := fun _ => none }

end FlashStore

end RoomControl
