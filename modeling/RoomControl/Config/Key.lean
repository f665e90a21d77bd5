import RoomControl.Config
import RoomControl.Text.Lines
import RoomControl.Text.Numeral

/-!
# Keys and their values

Each setting has a key, which lives in one section and has values of one type. `Key.Value` names
that type and `Key.read` reads it from text. A configuration is the same as a value for every key:
`NodeConfig.get` and `NodeConfig.set` are the two halves, and the laws at the end say that setting
one key is seen by that key alone.
-/

set_option autoImplicit false

namespace RoomControl

/-- Why a settings file is refused. -/
inductive ConfigError where
  /-- A header names no section. -/
  | invalidSection
  /-- The section in force has no such key. -/
  | unknownKey
  /-- The value has the wrong form or is out of range. -/
  | invalidValue
  /-- A text or a byte list exceeds its capacity. -/
  | tooLong
  /-- The PIN is not four to six digits. -/
  | invalidPin
  /-- The line is neither a header nor an assignment. -/
  | invalidSyntax
  deriving DecidableEq, Repr

/-- A part of the settings file; `root` is in force before the first header. -/
inductive Section where
  | root
  | radio
  | timing
  deriving DecidableEq, Repr

/-- The section that a header names. -/
def Section.named? (name : List Char) : Option Section :=
  if name = "radio".toList then some .radio
  else if name = "timing".toList then some .timing
  else none

/-- The settings. -/
inductive Key where
  | version
  | name
  | keepName
  | pin
  | pairingMode
  | advData
  | scanResponse
  | advInterval
  | visible
  | tickMs
  | responseTimeout
  | resetSettle
  | retryTimeout
  | maxRetries
  | evalInterval
  deriving DecidableEq, Repr

namespace Key

/-- All settings. -/
def all : List Key :=
  [version, name, keepName, pin, pairingMode, advData, scanResponse, advInterval, visible, tickMs,
    responseTimeout, resetSettle, retryTimeout, maxRetries, evalInterval]

/-- The section that a key belongs to. -/
def home : Key → Section
  | version => .root
  | name | keepName | pin | pairingMode | advData | scanResponse | advInterval | visible => .radio
  | tickMs | responseTimeout | resetSettle | retryTimeout | maxRetries | evalInterval => .timing

/-- The key as it is written. -/
def spelling : Key → String
  | version => "version"
  | name => "name"
  | keepName => "keep_name"
  | pin => "pin"
  | pairingMode => "pairing_mode"
  | advData => "adv_data"
  | scanResponse => "scan_response"
  | advInterval => "adv_interval"
  | visible => "visible"
  | tickMs => "tick_ms"
  | responseTimeout => "response_timeout_ticks"
  | resetSettle => "reset_settle_ticks"
  | retryTimeout => "retry_timeout_ticks"
  | maxRetries => "max_retries"
  | evalInterval => "eval_interval_ticks"

/-- The key of a section that is written so. -/
def find? (inside : Section) (written : List Char) : Option Key :=
  all.find? fun key => key.home = inside ∧ key.spelling.toList = written

/-- The type of a key's values. -/
abbrev Value : Key → Type
  | version => UInt8
  | name => Text 16
  | keepName => Bool
  | pin => Text 6
  | pairingMode => PairingMode
  | advData => Buffer 31
  | scanResponse => Buffer 31
  | advInterval => UInt16
  | visible => Bool
  | tickMs => UInt16
  | responseTimeout => UInt16
  | resetSettle => UInt16
  | retryTimeout => UInt16
  | maxRetries => UInt8
  | evalInterval => UInt16

theorem mem_all (key : Key) : key ∈ all := by
  cases key <;> decide

end Key

/-! ## Values as they are written -/

namespace Setting

/-- A number below `bound`. -/
def readBelow (bound : Nat) (text : List Char) : Except ConfigError Nat :=
  match numeral? text with
  | some n => if n < bound then .ok n else .error .invalidValue
  | none => .error .invalidValue

/-- A number of one byte. -/
def readByte (text : List Char) : Except ConfigError UInt8 :=
  (readBelow 256 text).map UInt8.ofNat

/-- A number of two bytes. -/
def readWord (text : List Char) : Except ConfigError UInt16 :=
  (readBelow 65536 text).map UInt16.ofNat

/-- A number of two bytes that is not zero. -/
def readPositive (text : List Char) : Except ConfigError UInt16 :=
  match readWord text with
  | .ok n => if n = 0 then .error .invalidValue else .ok n
  | .error e => .error e

/-- A truth value. -/
def readBool (text : List Char) : Except ConfigError Bool :=
  if text = "true".toList then .ok true
  else if text = "false".toList then .ok false
  else .error .invalidValue

/-- What stands between two quotes that are the first and the last character. -/
def readQuoted (text : List Char) : Except ConfigError (List Char) :=
  match text with
  | '"' :: rest => if rest.getLast? = some '"' then .ok rest.dropLast else .error .invalidValue
  | _ => .error .invalidValue

/-- A quoted text of at most `capacity` bytes. -/
def readText (capacity : Nat) (text : List Char) : Except ConfigError (Text capacity) :=
  match readQuoted text with
  | .ok inner =>
    match Text.ofString? (String.ofList inner) with
    | some t => .ok t
    | none => .error .tooLong
  | .error e => .error e

/-- A pairing mode, quoted. -/
def readPairingMode (text : List Char) : Except ConfigError PairingMode :=
  match readQuoted text with
  | .ok inner =>
    if inner = "display_only".toList then .ok .displayOnly
    else if inner = "display_yes_no".toList then .ok .displayYesNo
    else if inner = "keyboard_only".toList then .ok .keyboardOnly
    else if inner = "no_input_no_output".toList then .ok .noInputNoOutput
    else if inner = "just_work".toList then .ok .justWork
    else .error .invalidValue
  | .error e => .error e

/-- Appends the items of a list to a buffer, in order; blank items count for nothing. -/
def readItems {capacity : Nat} (held : Buffer capacity) :
    List (List Char) → Except ConfigError (Buffer capacity)
  | [] => .ok held
  | item :: rest =>
    if trim item = [] then readItems held rest
    else
      match readByte (trim item) with
      | .ok byte =>
        match held.push? byte with
        | some longer => readItems longer rest
        | none => .error .tooLong
      | .error e => .error e

/-- A list of bytes in brackets, separated by commas. -/
def readBytes (capacity : Nat) (text : List Char) : Except ConfigError (Buffer capacity) :=
  match text with
  | '[' :: rest =>
    if rest.getLast? = some ']' then readItems .empty (splitAt ',' rest.dropLast)
    else .error .invalidValue
  | _ => .error .invalidValue

end Setting

/-- Reads a value of a key. The four keys that count ticks to wait for may not be zero. -/
def Key.read : (key : Key) → List Char → Except ConfigError key.Value
  | version => Setting.readByte
  | name => Setting.readText 16
  | keepName => Setting.readBool
  | pin => Setting.readText 6
  | pairingMode => Setting.readPairingMode
  | advData => Setting.readBytes 31
  | scanResponse => Setting.readBytes 31
  | advInterval => Setting.readWord
  | visible => Setting.readBool
  | tickMs => Setting.readPositive
  | responseTimeout => Setting.readPositive
  | resetSettle => Setting.readWord
  | retryTimeout => Setting.readPositive
  | maxRetries => Setting.readByte
  | evalInterval => Setting.readPositive

/-! ## A configuration as a value for every key -/

namespace NodeConfig

/-- The value of a key. -/
def get (config : NodeConfig) : (key : Key) → key.Value
  | .version => config.version
  | .name => config.radio.name
  | .keepName => config.radio.keepName
  | .pin => config.radio.pin
  | .pairingMode => config.radio.pairingMode
  | .advData => config.radio.advData
  | .scanResponse => config.radio.scanResponse
  | .advInterval => config.radio.advInterval
  | .visible => config.radio.visible
  | .tickMs => config.timing.tickMs
  | .responseTimeout => config.timing.responseTimeout
  | .resetSettle => config.timing.resetSettle
  | .retryTimeout => config.timing.retryTimeout
  | .maxRetries => config.timing.maxRetries
  | .evalInterval => config.timing.evalInterval

/-- The configuration with another value for one key. -/
def set (config : NodeConfig) : (key : Key) → key.Value → NodeConfig
  | .version, v => { config with version := v }
  | .name, v => { config with radio := { config.radio with name := v } }
  | .keepName, v => { config with radio := { config.radio with keepName := v } }
  | .pin, v => { config with radio := { config.radio with pin := v } }
  | .pairingMode, v => { config with radio := { config.radio with pairingMode := v } }
  | .advData, v => { config with radio := { config.radio with advData := v } }
  | .scanResponse, v => { config with radio := { config.radio with scanResponse := v } }
  | .advInterval, v => { config with radio := { config.radio with advInterval := v } }
  | .visible, v => { config with radio := { config.radio with visible := v } }
  | .tickMs, v => { config with timing := { config.timing with tickMs := v } }
  | .responseTimeout, v => { config with timing := { config.timing with responseTimeout := v } }
  | .resetSettle, v => { config with timing := { config.timing with resetSettle := v } }
  | .retryTimeout, v => { config with timing := { config.timing with retryTimeout := v } }
  | .maxRetries, v => { config with timing := { config.timing with maxRetries := v } }
  | .evalInterval, v => { config with timing := { config.timing with evalInterval := v } }

@[simp] theorem get_set_self (config : NodeConfig) (key : Key) (v : key.Value) :
    (config.set key v).get key = v := by
  cases key <;> rfl

theorem get_set_of_ne (config : NodeConfig) {key other : Key} (v : key.Value) (h : other ≠ key) :
    (config.set key v).get other = config.get other := by
  cases key <;> cases other <;> first | rfl | exact absurd rfl h

/-- A configuration is known by the values of its keys. -/
theorem ext_get {c d : NodeConfig} (h : ∀ key, c.get key = d.get key) : c = d := by
  have hradio : c.radio = d.radio := by
    rw [RadioSettings.mk.injEq]
    exact ⟨h .name, h .keepName, h .pin, h .pairingMode, h .advData, h .scanResponse,
      h .advInterval, h .visible⟩
  have htiming : c.timing = d.timing := by
    rw [TimingSettings.mk.injEq]
    exact ⟨h .tickMs, h .responseTimeout, h .resetSettle, h .retryTimeout, h .maxRetries,
      h .evalInterval⟩
  rw [NodeConfig.mk.injEq]
  exact ⟨h .version, hradio, htiming⟩

/-- Setting two keys comes to the same in either order. -/
theorem set_comm (config : NodeConfig) {key other : Key} (v : key.Value) (w : other.Value)
    (h : other ≠ key) : (config.set key v).set other w = (config.set other w).set key v := by
  cases key <;> cases other <;> first | rfl | exact absurd rfl h

end NodeConfig

end RoomControl
