import RoomControl.Proofs.Config.Document
import RoomControl.Proofs.Config.Packing

/-!
# What loading checks

A configuration that is stored as a text and one that is stored packed pass different checks. The
text is checked for its PIN and its times, and may name any version; the packed form is checked for
its version, and may have any PIN and any times. So what is loaded is valid exactly when it happens to
pass the checks of the other form (`loaded_valid_iff`).
-/

set_option autoImplicit false

namespace RoomControl

namespace NodeConfig

/-- The configuration is one the node can run on. -/
structure Valid (config : NodeConfig) : Prop where
  version : config.version = currentVersion
  pin : isPin config.radio.pin.string = true
  times : config.PositiveTimes

/-- A text is stored that has no fault and says this. -/
def InText (stored : Except FlashError Bytes) (config : NodeConfig) : Prop :=
  ∃ text, stored = .ok (utf8 text) ∧ AllSound (lines text.toList) ∧
    Describes (lines text.toList) config ∧ isPin config.radio.pin.string = true

/-- A packed form of this is stored, and of the current version. -/
def InPacked (stored : Except FlashError Bytes) (config : NodeConfig) : Prop :=
  ∃ bytes, stored = .ok bytes ∧ Packed.readConfig? bytes = some config ∧
    config.version = currentVersion

variable {stored text packed : Except FlashError Bytes} {config : NodeConfig}

theorem ofStoredText_eq_ok_iff : ofStoredText stored = .ok config ↔ InText stored config := by
  unfold ofStoredText
  constructor
  · intro h
    split at h
    · cases h
    · split at h
      · cases h
      · rename_i bytes _ text htext
        split at h
        · rename_i read hread
          cases h
          rw [ofUtf8?_eq_some_iff.mp htext]
          exact ⟨text, rfl, ofText_eq_ok_iff.mp hread⟩
        · cases h
  · rintro ⟨text, rfl, h⟩
    simp only [ofUtf8?_utf8, ofText_eq_ok_iff.mpr h]

theorem ofStoredPacked_eq_ok_iff : ofStoredPacked stored = .ok config ↔ InPacked stored config := by
  unfold ofStoredPacked
  constructor
  · intro h
    split at h
    · cases h
    · split at h
      · cases h
      · rename_i bytes _ read hread
        split at h
        · rename_i hversion
          cases h
          exact ⟨bytes, rfl, hread, hversion⟩
        · cases h
  · rintro ⟨bytes, rfl, hread, hversion⟩
    simp only [hread, if_pos hversion]

/-- What is loaded stands in the text, or in the packed form when no text does. -/
theorem ofStored_eq_ok_iff : ofStored text packed = .ok config ↔
    InText text config ∨ (∀ other, ¬ InText text other) ∧ InPacked packed config := by
  unfold ofStored
  cases htext : ofStoredText text with
  | ok read =>
    have hread := ofStoredText_eq_ok_iff.mp htext
    constructor
    · intro h
      cases h
      exact .inl hread
    · rintro (h | ⟨hnone, -⟩)
      · exact htext.symm.trans (ofStoredText_eq_ok_iff.mpr h)
      · exact absurd hread (hnone read)
  | error e =>
    have hnone : ∀ other, ¬ InText text other := fun other h => by
      rw [ofStoredText_eq_ok_iff.mpr h] at htext
      cases htext
    exact ofStoredPacked_eq_ok_iff.trans
      ⟨fun h => .inr ⟨hnone, h⟩, fun h => (h.resolve_left (hnone config)).2⟩

/-- The checks that a text has passed. -/
theorem InText.checked (h : InText text config) :
    isPin config.radio.pin.string = true ∧ config.PositiveTimes := by
  obtain ⟨_, -, -, hdescribes, hpin⟩ := h
  exact ⟨hpin, hdescribes.positiveTimes⟩

/-- The check that a packed form has passed. -/
theorem InPacked.checked (h : InPacked packed config) : config.version = currentVersion := by
  obtain ⟨_, -, -, hversion⟩ := h
  exact hversion

/-- **Every configuration of the current version** is loaded from its packed form, valid or not, when
there is no text. -/
theorem ofStored_of_packed (hnone : ∀ other, ¬ InText text other)
    (hversion : config.version = currentVersion) (rest : Bytes) :
    ofStored text (.ok (Packed.config config ++ rest)) = .ok config :=
  ofStored_eq_ok_iff.mpr (.inr ⟨hnone, _, rfl, Packed.readConfig?_config config rest, hversion⟩)

/-- **What loading checks**: whatever came of reading the two keys, a configuration is loaded exactly
if it stands in the text, or in the packed form and no text does. From a text it is valid exactly if
its version is the current one; from a packed form, exactly if its PIN and its times are good. -/
theorem loaded_valid_iff (text packed : Except FlashError Bytes) (config : NodeConfig) :
    (ofStored text packed = .ok config ↔
      InText text config ∨ (∀ other, ¬ InText text other) ∧ InPacked packed config) ∧
      (InText text config → (config.Valid ↔ config.version = currentVersion)) ∧
      (InPacked packed config →
        (config.Valid ↔ isPin config.radio.pin.string = true ∧ config.PositiveTimes)) := by
  refine ⟨ofStored_eq_ok_iff, fun h => ⟨Valid.version, fun hversion => ?_⟩, fun h => ⟨?_, ?_⟩⟩
  · exact ⟨hversion, h.checked.1, h.checked.2⟩
  · exact fun hvalid => ⟨hvalid.pin, hvalid.times⟩
  · exact fun ⟨hpin, htimes⟩ => ⟨h.checked, hpin, htimes⟩

/-- A store that holds one value. -/
def holding (key : StorageKey) (value : Bytes) : FlashStore where
  value? k := if k = key then some value else none

theorem loadConfig_holding (hversion : config.version = currentVersion) :
    (holding .config (Packed.config config)).loadConfig = .ok config := by
  have hfits : (Packed.config config).length ≤ FlashStore.maxPacked :=
    Nat.le_trans (Packed.length_config_le config) (by decide)
  have hread : (holding .config (Packed.config config)).read .config FlashStore.maxPacked =
      .ok (Packed.config config ++ []) := by
    rw [List.append_nil]
    exact if_pos hfits
  rw [FlashStore.loadConfig, hread]
  refine ofStored_of_packed ?_ hversion []
  rintro other ⟨text, htext, -⟩
  cases htext

/-- The default configuration is loaded from its packed form, and valid. -/
theorem default_loaded_valid :
    (holding .config (Packed.config {})).loadConfig = .ok {} ∧ ({} : NodeConfig).Valid := by
  have hpacked : InPacked (.ok (Packed.config {})) {} := ⟨_, rfl, by decide +kernel, rfl⟩
  refine ⟨loadConfig_holding rfl, ?_⟩
  exact ((loaded_valid_iff (.error .notFound) (.ok (Packed.config {})) {}).2.2 hpacked).mpr
    ⟨by decide +kernel, by decide, by decide, by decide, by decide⟩

/-- A PIN of two digits, and no time between two ticks. -/
def unchecked : NodeConfig where
  radio := { pin := ⟨"12", by decide⟩ }
  timing := { tickMs := 0 }

/-- A text of another version is loaded, and so is a packed form with a bad PIN and a zero time. -/
theorem invalid_configs_loaded :
    ((holding .configText (utf8 "version = 2")).loadConfig = .ok { version := 2 } ∧
      ¬ ({ version := 2 } : NodeConfig).Valid) ∧
      (holding .config (Packed.config unchecked)).loadConfig = .ok unchecked ∧ ¬ unchecked.Valid := by
  refine ⟨⟨by decide +kernel, fun h => absurd h.version (by decide)⟩, loadConfig_holding rfl, ?_⟩
  exact fun h => h.times.tickMs rfl

end NodeConfig

end RoomControl
