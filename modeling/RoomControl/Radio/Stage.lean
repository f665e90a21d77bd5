import RoomControl.Config
import RoomControl.Radio.Command

/-!
# The stages of bring-up

After power-up the radio module is walked through twelve stages, each of which issues one command:
the module is asked what it is and how it is set, and told what it should be.
-/

set_option autoImplicit false

namespace RoomControl

/-- A step of bring-up. -/
inductive Stage where
  | readIdentity
  | readName
  | writeName
  | writeAdvertisingData
  | writeScanResponse
  | readPairingMode
  | writePairingMode
  | readPin
  | writePin
  | readPairedDevices
  | setAdvertisingParameters
  | setVisibility
  deriving DecidableEq, Repr

namespace Stage

/-- The stages in order. -/
def all : List Stage :=
  [readIdentity, readName, writeName, writeAdvertisingData, writeScanResponse, readPairingMode,
    writePairingMode, readPin, writePin, readPairedDevices, setAdvertisingParameters, setVisibility]

/-- The position of a stage. -/
def index (s : Stage) : Nat := all.idxOf s

/-- The stage after this one. -/
def next? (s : Stage) : Option Stage := all[s.index + 1]?

/-- The command that a stage issues to have the module set this way. -/
def command (settings : RadioSettings) : Stage → Command
  | readIdentity => .readLocalInformation
  | readName => .readDeviceName
  | writeName => .writeDeviceName settings.name.bytes
  | writeAdvertisingData => .writeAdvertisingData settings.advData.bytes
  | writeScanResponse => .writeScanResponse settings.scanResponse.bytes
  | readPairingMode => .readPairingMode
  | writePairingMode => .writePairingMode settings.pairingMode
  | readPin => .readPin
  | writePin => .writePin settings.pin.bytes
  | readPairedDevices => .readPairedDevices
  | setAdvertisingParameters => .setAdvertisingParameters settings.advInterval
  | setVisibility => .setAdvertisingEnable settings.visible

/-- The opcode of the command that a stage issues. -/
def opcode (s : Stage) : UInt8 := (s.command {}).opcode

/-- The opcode does not depend on the settings. -/
theorem opcode_command (s : Stage) (settings : RadioSettings) :
    (s.command settings).opcode = s.opcode := by
  cases s <;> rfl

end Stage

end RoomControl
