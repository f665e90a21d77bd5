import Mathlib.Data.List.Basic
import RoomControl.Peripherals.Board

/-!
# Texts that are longer than a line

A line of the display holds twenty bytes, and a text is cut to them before it is read as UTF-8. So it
depends on where its characters end whether a longer text is shown. `CutTo` says what should be shown
of a text: as many whole characters from its start on as fit. `Divided` says that the cut falls inside
a character.

`text_shown_iff` is the law: a text that is not divided is shown as it should be, and one that is
divided is refused. So an `é` on the twentieth byte makes a text disappear of which nineteen bytes
could have been shown (`divided_text_refused`).
-/

set_option autoImplicit false

namespace RoomControl

/-! ## Cutting a text -/

/-- What should be shown of a text where so many bytes fit: the longest part from its start on that
ends with a character. -/
structure CutTo (width : Nat) (text shown : String) : Prop where
  begins : ∃ rest, text = shown ++ rest
  fits : shown.utf8ByteSize ≤ width
  longest : ∀ front rest, text = front ++ rest → front.utf8ByteSize ≤ width →
    front.utf8ByteSize ≤ shown.utf8ByteSize

/-- So many bytes of the text end inside a character. -/
def Divided (width : Nat) (text : String) : Prop :=
  width < text.utf8ByteSize ∧ ∀ front rest, text = front ++ rest → front.utf8ByteSize ≠ width

theorem utf8ByteSize_le_append (front rest : String) :
    front.utf8ByteSize ≤ (front ++ rest).utf8ByteSize := by
  rw [String.utf8ByteSize_append]
  exact Nat.le_add_right ..

theorem utf8_extract (text : String) (n : Nat) :
    (text.toByteArray.extract 0 n).data.toList = (utf8 text).take n := by
  simp [utf8, ByteArray.data_extract]

/-- A position in a text is valid where a character ends. -/
theorem isValid_iff {text : String} {n : Nat} :
    String.Pos.Raw.IsValid text ⟨n⟩ ↔
      ∃ front rest, text = front ++ rest ∧ front.utf8ByteSize = n := by
  rw [String.Pos.Raw.isValid_iff_exists_append]
  constructor
  · rintro ⟨front, rest, htext, hpos⟩
    exact ⟨front, rest, htext, (congrArg String.Pos.Raw.byteIdx hpos).symm⟩
  · rintro ⟨front, rest, htext, rfl⟩
    exact ⟨front, rest, htext, rfl⟩

/-- **The first bytes of a text** are well-formed if and only if a character ends behind them. -/
theorem ofUtf8?_take_eq_some_iff {text shown : String} {n : Nat} (h : n ≤ text.utf8ByteSize) :
    ofUtf8? ((utf8 text).take n) = some shown ↔
      shown.utf8ByteSize = n ∧ ∃ rest, text = shown ++ rest := by
  rw [ofUtf8?_eq_some_iff]
  constructor
  · intro hbytes
    have hdata : text.toByteArray.extract 0 n = shown.toByteArray := by
      ext1
      apply Array.toList_inj.mp
      rw [utf8_extract, hbytes, utf8]
    have hvalid : String.Pos.Raw.IsValid text ⟨n⟩ := by
      rw [String.Pos.Raw.isValid_iff_isValidUTF8_extract_zero]
      refine ⟨h, ?_⟩
      rw [hdata]
      exact shown.isValidUTF8
    obtain ⟨front, rest, rfl, rfl⟩ := isValid_iff.mp hvalid
    rw [utf8_append, ← length_utf8, List.take_left] at hbytes
    rw [utf8_injective hbytes]
    exact ⟨rfl, rest, rfl⟩
  · rintro ⟨rfl, rest, rfl⟩
    rw [utf8_append, ← length_utf8, List.take_left]

/-- **What is left of a text after the cut** is what should be shown of it, if it can be read. -/
theorem ofUtf8?_cut_eq_some_iff {text shown : String} {width : Nat} :
    ofUtf8? ((utf8 text).take width) = some shown ↔
      CutTo width text shown ∧ ¬ Divided width text := by
  rcases Nat.lt_or_ge width text.utf8ByteSize with hlong | hshort
  · rw [ofUtf8?_take_eq_some_iff (Nat.le_of_lt hlong)]
    constructor
    · rintro ⟨rfl, rest, htext⟩
      refine ⟨⟨⟨rest, htext⟩, Nat.le_refl _, fun _ _ _ hfits => hfits⟩, ?_⟩
      intro hdivided
      exact hdivided.2 shown rest htext rfl
    · rintro ⟨hcut, hwhole⟩
      refine ⟨?_, hcut.begins⟩
      by_contra hne
      apply hwhole
      refine ⟨hlong, ?_⟩
      intro front rest htext hfront
      have hle := hcut.longest front rest htext (Nat.le_of_eq hfront)
      have hfits := hcut.fits
      omega
  · have hall : (utf8 text).length ≤ width := hshort
    have htake : (utf8 text).take width = (utf8 text).take text.utf8ByteSize := by
      rw [List.take_of_length_le hall, ← length_utf8, List.take_length]
    rw [htake, ofUtf8?_take_eq_some_iff (Nat.le_refl _)]
    constructor
    · rintro ⟨hsize, rest, htext⟩
      refine ⟨⟨⟨rest, htext⟩, hsize ▸ hshort, ?_⟩, fun hdivided => Nat.not_lt_of_le hshort hdivided.1⟩
      rintro front rest rfl -
      rw [hsize]
      exact utf8ByteSize_le_append front rest
    · rintro ⟨hcut, -⟩
      obtain ⟨rest, rfl⟩ := hcut.begins
      have hall := hcut.longest (shown ++ rest) "" (String.append_empty).symm hshort
      exact ⟨Nat.le_antisymm (utf8ByteSize_le_append shown rest) hall, rest, rfl⟩

/-- What is left after the cut cannot be read exactly when a character is divided. -/
theorem ofUtf8?_cut_eq_none_iff {text : String} {width : Nat} :
    ofUtf8? ((utf8 text).take width) = none ↔ Divided width text := by
  constructor
  · intro hnone
    have hnever : ∀ shown, CutTo width text shown → Divided width text := by
      intro shown hcut
      by_contra hwhole
      have hsome := ofUtf8?_cut_eq_some_iff.mpr ⟨hcut, hwhole⟩
      rw [hnone] at hsome
      cases hsome
    rcases Nat.lt_or_ge width text.utf8ByteSize with hlong | hshort
    · refine ⟨hlong, ?_⟩
      intro front rest htext hfront
      have hcut : CutTo width text front :=
        ⟨⟨rest, htext⟩, Nat.le_of_eq hfront, fun _ _ _ hfits => hfront ▸ hfits⟩
      exact (hnever front hcut).2 front rest htext hfront
    · refine hnever text ⟨⟨"", String.append_empty.symm⟩, hshort, ?_⟩
      rintro front rest rfl -
      exact utf8ByteSize_le_append front rest
  · intro hdivided
    cases hcut : ofUtf8? ((utf8 text).take width) with
    | none => rfl
    | some shown => exact absurd hdivided (ofUtf8?_cut_eq_some_iff.mp hcut).2

namespace Board

/-! ## Showing a text -/

variable {b : Board} {line : UInt8} {text : Bytes}

theorem execute_of_readable {shown : String} (hline : line.toNat < 2)
    (h : ofUtf8? (text.take lineWidth) = some shown) :
    b.execute .displayMessage (line :: text) =
      (.ok (), { b with lines := b.lines.set line.toNat ⟨shown, fits_of_take h⟩ hline }) := by
  have hbytes : Text.ofBytes? (text.take lineWidth) = some (⟨shown, fits_of_take h⟩ : Text 20) := by
    rw [Text.ofBytes?, h]
    exact Text.ofString?_of_le (fits_of_take h)
  have hdisplay : b.display (line :: text) =
      .ok { b with lines := b.lines.set line.toNat ⟨shown, fits_of_take h⟩ hline } := by
    rw [display, dif_pos hline, hbytes]
  exact (b.displayInPlace_eq (line :: text)).trans (congrArg b.settle hdisplay)

theorem execute_of_unreadable (hline : line.toNat < 2) (h : ofUtf8? (text.take lineWidth) = none) :
    b.execute .displayMessage (line :: text) = (.error .invalidValue, b) := by
  have hbytes : (Text.ofBytes? (text.take lineWidth) : Option (Text 20)) = none := by
    rw [Text.ofBytes?, h]
    exact Option.bind_none _
  have hdisplay : b.display (line :: text) = .error .invalidValue := by
    rw [display, dif_pos hline, hbytes]
  exact (b.displayInPlace_eq (line :: text)).trans (congrArg b.settle hdisplay)

/-- A vector with one element set, as it is read by a byte. -/
theorem getElem?_set_toNat {α : Type} {n : Nat} (v : Vector α n) {i : UInt8} (hi : i.toNat < n)
    (new : α) (j : UInt8) :
    (v.set i.toNat new hi)[j.toNat]? = if j = i then some new else v[j.toNat]? := by
  split
  · rename_i heq
    rw [heq, Vector.getElem?_set_self]
  · rename_i hne
    have hother : i.toNat ≠ j.toNat := fun heq => hne (UInt8.toNat_inj.mp heq.symm)
    rw [Vector.getElem?_set_ne hi hother]

/-- The lines after a text was put on one of them. -/
theorem line?_set {line : UInt8} (hline : line.toNat < 2) (filled : Text 20) (other : UInt8) :
    Peripherals.line? { b with lines := b.lines.set line.toNat filled hline } other =
      if other = line then some filled.string else Peripherals.line? b other := by
  show ((b.lines.set line.toNat filled hline)[other.toNat]?).map Text.string = _
  rw [getElem?_set_toNat]
  split <;> rfl

/-- **A text is shown unless the cut divides it.** For every board, every line that it has and every
text of any length, the action succeeds and the line shows the longest part of the text that ends with
a character and has at most twenty bytes, the other lines being as before, if and only if the first
twenty bytes of the text do not end inside a character. If they do the action is refused and changes
nothing. -/
theorem text_shown_iff (b : Board) (line : UInt8) (text : String)
    (hline : line < Peripherals.lineCount b) :
    ((∃ shown, CutTo 20 text shown ∧
        (Peripherals.execute b .displayMessage (line :: utf8 text)).1 = .ok () ∧
        ∀ other,
          Peripherals.line? (Peripherals.execute b .displayMessage (line :: utf8 text)).2 other =
            if other = line then some shown else Peripherals.line? b other) ↔
      ¬ Divided 20 text) ∧
    (Divided 20 text →
      Peripherals.execute b .displayMessage (line :: utf8 text) = (.error .invalidValue, b)) := by
  have hlt : line.toNat < 2 := UInt8.lt_iff_toNat_lt.mp hline
  cases hcut : ofUtf8? ((utf8 text).take lineWidth) with
  | some shown =>
    obtain ⟨hshown, hwhole⟩ := ofUtf8?_cut_eq_some_iff.mp hcut
    have hexecute := execute_of_readable (b := b) hlt hcut
    refine ⟨iff_of_true ⟨shown, hshown, ?_, fun other => ?_⟩ hwhole,
      fun hdivided => absurd hdivided hwhole⟩
    · exact congrArg Prod.fst hexecute
    · show Peripherals.line? (b.execute .displayMessage (line :: utf8 text)).2 other = _
      rw [hexecute]
      exact line?_set hlt _ other
  | none =>
    have hexecute := execute_of_unreadable (b := b) hlt hcut
    have hdivided : Divided 20 text := ofUtf8?_cut_eq_none_iff.mp hcut
    refine ⟨iff_of_false ?_ (not_not_intro hdivided), fun _ => hexecute⟩
    rintro ⟨shown, -, hok, -⟩
    cases hok.symm.trans (congrArg Prod.fst hexecute)

/-- Nineteen bytes before a character of two: the text could be shown without it, and is refused. -/
theorem divided_text_refused :
    CutTo 20 "aaaaaaaaaaaaaaaaaaaé" "aaaaaaaaaaaaaaaaaaa" ∧
      Peripherals.execute ({} : Board) .displayMessage (0 :: utf8 "aaaaaaaaaaaaaaaaaaaé") =
        (.error .invalidValue, {}) := by
  have hnone : ofUtf8? ((utf8 "aaaaaaaaaaaaaaaaaaaé").take lineWidth) = none := by decide +kernel
  refine ⟨⟨⟨"é", by decide +kernel⟩, by decide +kernel, fun front rest htext hfits => ?_⟩,
    execute_of_unreadable (by decide) hnone⟩
  have hne := (ofUtf8?_cut_eq_none_iff.mp hnone).2 front rest htext
  have hsize : ("aaaaaaaaaaaaaaaaaaa" : String).utf8ByteSize = 19 := by decide +kernel
  rw [hsize]
  unfold lineWidth at hne
  omega

/-- Eighteen bytes before the same character: it ends with the line, and only what follows is cut. -/
theorem filled_line_shown :
    (1 : UInt8) < Peripherals.lineCount ({} : Board) ∧ ¬ Divided 20 "aaaaaaaaaaaaaaaaaaéb" ∧
      ∃ shown, CutTo 20 "aaaaaaaaaaaaaaaaaaéb" shown ∧
        (Peripherals.execute ({} : Board) .displayMessage (1 :: utf8 "aaaaaaaaaaaaaaaaaaéb")).1 =
          .ok () ∧
        ∀ other, Peripherals.line? (Peripherals.execute ({} : Board) .displayMessage
            (1 :: utf8 "aaaaaaaaaaaaaaaaaaéb")).2 other =
          if other = 1 then some shown else Peripherals.line? ({} : Board) other := by
  have hline : (1 : UInt8) < Peripherals.lineCount ({} : Board) := by decide
  have hwhole : ¬ Divided 20 "aaaaaaaaaaaaaaaaaaéb" := by
    intro hdivided
    exact hdivided.2 "aaaaaaaaaaaaaaaaaaé" "b" (by decide +kernel) (by decide +kernel)
  exact ⟨hline, hwhole, (text_shown_iff {} 1 "aaaaaaaaaaaaaaaaaaéb" hline).1.mpr hwhole⟩

end Board

end RoomControl
