import RoomControl.Config.Document
import RoomControl.Config.Packed
import RoomControl.Program.Memory
import RoomControl.Storage

/-!
# Loading what is stored

At power-up the configuration comes from its text, and when that fails for any reason from its
packed form, whose error is the one that is reported. The version is checked on the packed form
only, the PIN and the times on the text only. The program's image replaces the contents of the
program memory.
-/

set_option autoImplicit false

namespace RoomControl

/-- Why nothing could be loaded. -/
inductive LoadError where
  | flash (error : FlashError)
  /-- The packed form cannot be read. -/
  | deserialize
  /-- The text is no configuration. -/
  | invalidText
  /-- The text is not UTF-8. -/
  | invalidUtf8
  /-- The packed form has another version. -/
  | versionMismatch
  deriving DecidableEq, Repr

namespace NodeConfig

/-- The configuration in the stored text, with what came of reading the text. -/
def ofStoredText (stored : Except FlashError Bytes) : Except LoadError NodeConfig :=
  match stored with
  | .error e => .error (.flash e)
  | .ok bytes =>
    match ofUtf8? bytes with
    | none => .error .invalidUtf8
    | some text =>
      match ofText text with
      | .ok config => .ok config
      | .error _ => .error .invalidText

/-- The configuration in the stored packed form, with what came of reading it. -/
def ofStoredPacked (stored : Except FlashError Bytes) : Except LoadError NodeConfig :=
  match stored with
  | .error e => .error (.flash e)
  | .ok bytes =>
    match Packed.readConfig? bytes with
    | none => .error .deserialize
    | some config => if config.version = currentVersion then .ok config else .error .versionMismatch

/-- The stored configuration: that of the text, or else that of the packed form. -/
def ofStored (text packed : Except FlashError Bytes) : Except LoadError NodeConfig :=
  match ofStoredText text with
  | .ok config => .ok config
  | .error _ => ofStoredPacked packed

end NodeConfig

namespace FlashStore

/-- The longest packed form that is read. -/
def maxPacked : Nat := 256

/-- The stored configuration. -/
def loadConfig (s : FlashStore) : Except LoadError NodeConfig :=
  NodeConfig.ofStored (s.read .configText maxValue) (s.read .config maxPacked)

/-- Loads the stored image into a program memory and answers its length. -/
def loadProgram (s : FlashStore) (m : ProgramMemory) : Except LoadError (Nat × ProgramMemory) :=
  match s.read .program m.capacity with
  | .ok image => .ok (image.length, m.load image)
  | .error e => .error (.flash e)

end FlashStore

end RoomControl
