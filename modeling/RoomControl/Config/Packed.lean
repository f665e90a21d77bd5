import RoomControl.Config

/-!
# The packed configuration

The form in which a configuration is stored: its fields in order, with no names and no padding.
Bytes and truth values take one byte, 16-bit numbers and lengths are little-endian base-128
varints, texts and byte lists follow their length.

Writing uses the shortest varints. Reading also accepts longer ones, within a limit of groups and of
the last group's value, and leaves whatever follows the last field.
-/

set_option autoImplicit false

namespace RoomControl.Packed

/-- A reader takes a value off the front of the bytes, or fails. -/
abbrev Reader := StateT Bytes Option

/-! ## Writing -/

/-- A number as a base-128 varint: seven bits to a byte, lowest first, the high bit on all but the
last. -/
def varint (n : Nat) : Bytes :=
  if n < 128 then [UInt8.ofNat n] else UInt8.ofNat (n % 128 + 128) :: varint (n / 128)
termination_by n
decreasing_by omega

/-- A truth value. -/
def bool (b : Bool) : Bytes := [if b then 1 else 0]

/-- A byte string after its length. -/
def counted (bytes : Bytes) : Bytes := varint bytes.length ++ bytes

/-- The radio settings. -/
def radio (r : RadioSettings) : Bytes :=
  counted r.name.bytes ++ bool r.keepName ++ counted r.pin.bytes ++
    varint r.pairingMode.toByte.toNat ++ counted r.advData.bytes ++ counted r.scanResponse.bytes ++
    varint r.advInterval.toNat ++ bool r.visible

/-- The timing. -/
def timing (t : TimingSettings) : Bytes :=
  varint t.tickMs.toNat ++ varint t.responseTimeout.toNat ++ varint t.resetSettle.toNat ++
    varint t.retryTimeout.toNat ++ [t.maxRetries] ++ varint t.evalInterval.toNat

/-- The whole configuration. -/
def config (c : NodeConfig) : Bytes := [c.version] ++ radio c.radio ++ timing c.timing

/-! ## Reading -/

/-- Takes one byte. -/
def takeByte : Reader UInt8 := fun bytes =>
  match bytes with
  | b :: rest => some (b, rest)
  | [] => none

/-- Takes `n` bytes. -/
def takeBytes (n : Nat) : Reader Bytes := fun bytes =>
  if n ≤ bytes.length then some (bytes.take n, bytes.drop n) else none

/-- Takes a varint: up to `more` groups that announce another, then one that is at most `last`. A
group that announces no other ends the number early. -/
def takeVarint (last : Nat) : (more : Nat) → Bytes → Option (Nat × Bytes)
  | 0, b :: rest => if b.toNat ≤ last then some (b.toNat, rest) else none
  | more + 1, b :: rest =>
    if b.toNat < 128 then some (b.toNat, rest)
    else
      match takeVarint last more rest with
      | some (high, left) => some (128 * high + (b.toNat - 128), left)
      | none => none
  | _, [] => none

/-- Takes a 16-bit number: three groups at most. -/
def takeWord : Reader UInt16 := do
  let n ← takeVarint 3 2
  return UInt16.ofNat n

/-- Takes a length: ten groups at most. -/
def takeLength : Reader Nat := takeVarint 1 9

/-- Takes a truth value. -/
def takeBool : Reader Bool := do
  match ← takeByte with
  | 0 => return false
  | 1 => return true
  | _ => failure

/-- Takes a pairing mode: five groups at most. -/
def takePairingMode : Reader PairingMode := do
  match ← takeVarint 15 4 with
  | 0 => return .displayOnly
  | 1 => return .displayYesNo
  | 2 => return .keyboardOnly
  | 3 => return .noInputNoOutput
  | 4 => return .justWork
  | _ => failure

/-- Takes a text that fits its capacity. -/
def takeText (capacity : Nat) : Reader (Text capacity) := do
  let n ← takeLength
  let bytes ← takeBytes n
  StateT.lift (Text.ofBytes? bytes)

/-- Takes a byte list that fits its capacity. -/
def takeBuffer (capacity : Nat) : Reader (Buffer capacity) := do
  let n ← takeLength
  let bytes ← takeBytes n
  StateT.lift (Buffer.ofBytes? bytes)

/-- Takes the radio settings. -/
def takeRadio : Reader RadioSettings := do
  let name ← takeText 16
  let keepName ← takeBool
  let pin ← takeText 6
  let pairingMode ← takePairingMode
  let advData ← takeBuffer 31
  let scanResponse ← takeBuffer 31
  let advInterval ← takeWord
  let visible ← takeBool
  return { name, keepName, pin, pairingMode, advData, scanResponse, advInterval, visible }

/-- Takes the timing. -/
def takeTiming : Reader TimingSettings := do
  let tickMs ← takeWord
  let responseTimeout ← takeWord
  let resetSettle ← takeWord
  let retryTimeout ← takeWord
  let maxRetries ← takeByte
  let evalInterval ← takeWord
  return { tickMs, responseTimeout, resetSettle, retryTimeout, maxRetries, evalInterval }

/-- Takes a configuration. -/
def takeConfig : Reader NodeConfig := do
  let version ← takeByte
  let radio ← takeRadio
  let timing ← takeTiming
  return { version, radio, timing }

/-- The configuration at the start of the bytes; what follows it is ignored. -/
def readConfig? (bytes : Bytes) : Option NodeConfig := (takeConfig bytes).map (·.1)

end RoomControl.Packed
