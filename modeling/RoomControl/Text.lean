import RoomControl.Bytes

/-!
# Texts of a fixed capacity

Names, PINs and display lines are kept as UTF-8 in a fixed number of bytes, so a `Text n` is a
string together with the fact that its UTF-8 form fits `n` bytes. `utf8` and `ofUtf8?` are the two
directions between strings and bytes: reading accepts exactly the bytes that writing produces.
-/

set_option autoImplicit false

namespace RoomControl

/-! ## UTF-8 -/

/-- The UTF-8 form of a string. -/
def utf8 (s : String) : Bytes := s.toByteArray.data.toList

/-- The string whose UTF-8 form these bytes are, if they are well-formed. -/
def ofUtf8? (bytes : Bytes) : Option String := String.fromUTF8? ⟨bytes.toArray⟩

@[simp] theorem ofUtf8?_utf8 (s : String) : ofUtf8? (utf8 s) = some s := by
  simp [ofUtf8?, utf8, String.fromUTF8?, String.fromUTF8, s.isValidUTF8]

theorem ofUtf8?_eq_some_iff {bytes : Bytes} {s : String} : ofUtf8? bytes = some s ↔ bytes = utf8 s := by
  constructor
  · intro h
    unfold ofUtf8? String.fromUTF8? at h
    split at h
    · cases h
      simp [utf8, String.fromUTF8]
    · cases h
  · rintro rfl
    exact ofUtf8?_utf8 s

theorem length_utf8 (s : String) : (utf8 s).length = s.utf8ByteSize := rfl

theorem utf8_append (s t : String) : utf8 (s ++ t) = utf8 s ++ utf8 t := by
  simp [utf8, String.toByteArray_append]

theorem utf8_injective {s t : String} (h : utf8 s = utf8 t) : s = t := by
  have hread := congrArg ofUtf8? h
  simpa using hread

/-! ## Bounded texts -/

/-- A string whose UTF-8 form takes at most `capacity` bytes. -/
@[ext] structure Text (capacity : Nat) where
  /-- The text itself. -/
  string : String
  /-- It fits. -/
  fits : string.utf8ByteSize ≤ capacity
  deriving DecidableEq, Repr

namespace Text

variable {capacity : Nat}

/-- The empty text. -/
def empty : Text capacity := ⟨"", Nat.zero_le _⟩

instance : Inhabited (Text capacity) := ⟨empty⟩

/-- The text of a string, when it fits. -/
def ofString? (s : String) : Option (Text capacity) :=
  if h : s.utf8ByteSize ≤ capacity then some ⟨s, h⟩ else none

/-- The text with a string put behind it, when there is room. -/
def append? (t : Text capacity) (s : String) : Option (Text capacity) := ofString? (t.string ++ s)

/-- The bytes that the text takes. -/
def bytes (t : Text capacity) : Bytes := utf8 t.string

/-- The text whose bytes these are, when they are well-formed and fit. -/
def ofBytes? (bytes : Bytes) : Option (Text capacity) := (ofUtf8? bytes).bind ofString?

@[simp] theorem ofString?_string (t : Text capacity) : ofString? t.string = some t := by
  simp [ofString?, t.fits]

theorem ofString?_of_le {s : String} (h : s.utf8ByteSize ≤ capacity) :
    ofString? s = some (⟨s, h⟩ : Text capacity) := dif_pos h

@[simp] theorem append?_empty (s : String) : (empty : Text capacity).append? s = ofString? s := by
  simp [append?, empty]

@[simp] theorem ofBytes?_bytes (t : Text capacity) : ofBytes? t.bytes = some t := by
  simp [ofBytes?, bytes]

theorem ofBytes?_eq_some_iff {bytes : Bytes} {t : Text capacity} :
    ofBytes? bytes = some t ↔ bytes = t.bytes := by
  constructor
  · intro h
    obtain ⟨s, hs, h⟩ := Option.bind_eq_some_iff.mp h
    unfold ofString? at h
    split at h
    · cases h
      exact ofUtf8?_eq_some_iff.mp hs
    · cases h
  · rintro rfl
    exact ofBytes?_bytes t

theorem length_bytes_le (t : Text capacity) : t.bytes.length ≤ capacity := t.fits

end Text

end RoomControl
