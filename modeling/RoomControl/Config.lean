import RoomControl.Bytes.Buffer
import RoomControl.Radio.Status
import RoomControl.Text

/-!
# The node's configuration

What the node is told about itself: the settings it gives the radio module, and its timing in
ticks. The capacities of texts and data are part of their types. The default configuration is the
one that an empty settings file yields.
-/

set_option autoImplicit false

namespace RoomControl

/-- The name of a node that was given none. -/
def factoryName : Text 16 := ⟨"homenode", by decide⟩

/-- The PIN of a node that was given none. -/
def factoryPin : Text 6 := ⟨"123456", by decide⟩

/-- The settings the radio module is brought up with. -/
structure RadioSettings where
  /-- The advertised name. -/
  name : Text 16 := factoryName
  /-- Leave whatever name the module already has. -/
  keepName : Bool := false
  /-- The pairing PIN. -/
  pin : Text 6 := factoryPin
  pairingMode : PairingMode := .justWork
  /-- Raw advertising payload. -/
  advData : Buffer 31 := .empty
  /-- Raw scan response. -/
  scanResponse : Buffer 31 := .empty
  /-- In units of 0.625 ms. -/
  advInterval : UInt16 := 160
  /-- Advertise once the module is configured. -/
  visible : Bool := true
  deriving DecidableEq, Repr

/-- Timing, counted in ticks. -/
structure TimingSettings where
  /-- The length of a tick in milliseconds. -/
  tickMs : UInt16 := 10
  /-- How long to wait for a command to complete. -/
  responseTimeout : UInt16 := 50
  /-- How long the module rests after a reset. -/
  resetSettle : UInt16 := 100
  /-- How long to wait before a message is sent again. -/
  retryTimeout : UInt16 := 20
  /-- How often a message is sent again before it is given up. -/
  maxRetries : UInt8 := 3
  /-- How many ticks lie between two checks of the program. -/
  evalInterval : UInt16 := 5
  deriving DecidableEq, Repr

/-- The whole configuration. -/
structure NodeConfig where
  version : UInt8 := 1
  radio : RadioSettings := {}
  timing : TimingSettings := {}
  deriving DecidableEq, Repr

instance : Inhabited NodeConfig := ⟨{}⟩

/-- The version of the stored format. -/
def NodeConfig.currentVersion : UInt8 := 1

/-- The byte is an ASCII digit. -/
def isDigitByte (b : UInt8) : Bool := 48 ≤ b && b ≤ 57

/-- A PIN is four to six ASCII digits. -/
def isPin (s : String) : Bool :=
  4 ≤ (utf8 s).length && (utf8 s).length ≤ 6 && (utf8 s).all isDigitByte

end RoomControl
