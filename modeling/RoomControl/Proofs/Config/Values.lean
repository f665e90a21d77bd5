import Mathlib.Tactic.SplitIfs
import RoomControl.Config.Key
import RoomControl.Proofs.Text.Lines

/-!
# What the values of a settings file mean

For each key, `Key.Denotes` says which texts stand for which value, and `Key.Overflows` which are of
the right form but too long for the key. Reading agrees with both (`Key.answers_read`): a text that
denotes a value reads as it, one that overflows is too long, and any other is an invalid value.

The fifteen keys have seven types of values; the law is proved once for each type.
-/

set_option autoImplicit false

namespace RoomControl

/-- The name of a pairing mode. -/
def PairingMode.spelling : PairingMode → String
  | .displayOnly => "display_only"
  | .displayYesNo => "display_yes_no"
  | .keyboardOnly => "keyboard_only"
  | .noInputNoOutput => "no_input_no_output"
  | .justWork => "just_work"

namespace Setting

/-! ## What a text denotes -/

/-- The text stands between two quotes. -/
def Quotes (text inner : List Char) : Prop := text = '"' :: (inner ++ ['"'])

/-- The text stands between two brackets. -/
def Brackets (text inner : List Char) : Prop := text = '[' :: (inner ++ [']'])

/-- The items of a list are separated by commas; blanks around them do not count, and blank items
neither. -/
def items (inner : List Char) : List (List Char) :=
  ((splitAt ',' inner).map trim).filter (· ≠ [])

/-- A numeral that one byte can hold. -/
def IsByte (text : List Char) : Prop := ∃ n, n < 256 ∧ numeral? text = some n

def DenotesByte (text : List Char) (b : UInt8) : Prop := numeral? text = some b.toNat

def DenotesWord (text : List Char) (w : UInt16) : Prop := numeral? text = some w.toNat

def DenotesPositive (text : List Char) (w : UInt16) : Prop := DenotesWord text w ∧ w ≠ 0

def DenotesBool (text : List Char) (b : Bool) : Prop :=
  text = (if b then "true" else "false").toList

def DenotesText {capacity : Nat} (text : List Char) (t : Text capacity) : Prop :=
  Quotes text t.string.toList

def DenotesMode (text : List Char) (mode : PairingMode) : Prop := Quotes text mode.spelling.toList

/-- The items stand for these bytes, one each. -/
def Spell (these : List (List Char)) (bytes : Bytes) : Prop :=
  these.map numeral? = bytes.map fun x => some x.toNat

def DenotesBytes {capacity : Nat} (text : List Char) (b : Buffer capacity) : Prop :=
  ∃ inner, Brackets text inner ∧ Spell (items inner) b.bytes

def OverflowsText (capacity : Nat) (text : List Char) : Prop :=
  ∃ inner, Quotes text inner ∧ capacity < (String.ofList inner).utf8ByteSize

/-- The list goes on for longer than there is room, before any item that is no byte. -/
def OverflowsBytes (capacity : Nat) (text : List Char) : Prop :=
  ∃ inner front back, Brackets text inner ∧ items inner = front ++ back ∧
    front.length = capacity + 1 ∧ ∀ item ∈ front, IsByte item

/-! ## Readers that agree with it -/

section Readers

variable {α : Type} {Denotes : α → Prop} {Overflows : Prop}

/-- What a reader answers to a text: the only value that it denotes, or that it is too long, or that
it is neither. -/
inductive Answers (Denotes : α → Prop) (Overflows : Prop) : Except ConfigError α → Prop
  | value (v : α) (denotes : Denotes v) (only : ∀ v', Denotes v' → v' = v)
      (fits : ¬ Overflows) : Answers Denotes Overflows (.ok v)
  | tooLong (overflows : Overflows) (denotesNone : ∀ v, ¬ Denotes v) :
      Answers Denotes Overflows (.error .tooLong)
  | invalid (denotesNone : ∀ v, ¬ Denotes v) (fits : ¬ Overflows) :
      Answers Denotes Overflows (.error .invalidValue)

theorem Answers.eq_ok_iff {answer : Except ConfigError α} (h : Answers Denotes Overflows answer)
    {v : α} : answer = .ok v ↔ Denotes v := by
  cases h with
  | value v' denotes only =>
    refine ⟨fun h => ?_, fun h => by rw [only v h]⟩
    cases h
    exact denotes
  | tooLong _ none => exact ⟨fun h => (by cases h), fun h => absurd h (none v)⟩
  | invalid none _ => exact ⟨fun h => (by cases h), fun h => absurd h (none v)⟩

theorem Answers.eq_tooLong {answer : Except ConfigError α} (h : Answers Denotes Overflows answer)
    (overflows : Overflows) : answer = .error .tooLong := by
  cases h with
  | value _ _ _ fits => exact absurd overflows fits
  | tooLong _ _ => rfl
  | invalid _ fits => exact absurd overflows fits

theorem Answers.eq_invalidValue {answer : Except ConfigError α}
    (h : Answers Denotes Overflows answer) (denotesNone : ∀ v, ¬ Denotes v)
    (fits : ¬ Overflows) : answer = .error .invalidValue := by
  cases h with
  | value v denotes => exact absurd denotes (denotesNone v)
  | tooLong overflows _ => exact absurd overflows fits
  | invalid _ _ => rfl

/-- The same answer to the same question in other words. -/
theorem Answers.congr {Denotes' : α → Prop} {Overflows' : Prop} {answer : Except ConfigError α}
    (h : Answers Denotes Overflows answer) (denotes : ∀ v, Denotes v ↔ Denotes' v)
    (overflows : Overflows ↔ Overflows') : Answers Denotes' Overflows' answer := by
  rwa [← propext overflows, ← funext fun v => propext (denotes v)]

end Readers

/-! ## Numbers and truth values -/

/-- Numbers of a type that holds those below `bound`. -/
theorem answers_number {α : Type} {bound : Nat} {toNat : α → Nat} {ofNat : Nat → α}
    (hlt : ∀ v, toNat v < bound) (hofNat : ∀ n, n < bound → toNat (ofNat n) = n)
    (htoNat : ∀ v, ofNat (toNat v) = v) (text : List Char) :
    Answers (fun v => numeral? text = some (toNat v)) False ((readBelow bound text).map ofNat) := by
  unfold readBelow
  cases numeral? text with
  | none => exact .invalid (fun v h => by cases h) id
  | some n =>
    by_cases hn : n < bound
    · dsimp only
      rw [if_pos hn]
      refine .value _ (congrArg some (hofNat n hn).symm) (fun v h => ?_) id
      rw [Option.some.inj h, htoNat]
    · dsimp only
      rw [if_neg hn]
      refine .invalid (fun v h => hn ?_) id
      rw [Option.some.inj h]
      exact hlt v

theorem answers_readByte (text : List Char) : Answers (DenotesByte text) False (readByte text) :=
  answers_number UInt8.toNat_lt (fun n hn => by rw [UInt8.toNat_ofNat', Nat.mod_eq_of_lt hn])
    (fun _ => UInt8.ofNat_toNat) text

theorem answers_readWord (text : List Char) : Answers (DenotesWord text) False (readWord text) :=
  answers_number UInt16.toNat_lt (fun n hn => by rw [UInt16.toNat_ofNat', Nat.mod_eq_of_lt hn])
    (fun _ => UInt16.ofNat_toNat) text

theorem answers_readPositive (text : List Char) :
    Answers (DenotesPositive text) False (readPositive text) := by
  have word := answers_readWord text
  unfold readPositive
  generalize readWord text = answer at word
  cases word with
  | value n denotes only =>
    dsimp only
    split
    · rename_i hzero
      refine .invalid (fun v h => h.2 ?_) id
      rw [only v h.1, hzero]
    · rename_i hne
      exact .value _ ⟨denotes, hne⟩ (fun v h => only v h.1) id
  | tooLong overflows _ => exact overflows.elim
  | invalid none _ => exact .invalid (fun v h => none v h.1) id

theorem answers_readBool (text : List Char) : Answers (DenotesBool text) False (readBool text) := by
  unfold readBool
  split_ifs with htrue hfalse
  · refine .value _ htrue (fun b h => ?_) id
    cases b with
    | false => exact absurd (htrue.symm.trans h) (by decide)
    | true => rfl
  · refine .value _ hfalse (fun b h => ?_) id
    cases b with
    | false => rfl
    | true => exact absurd h htrue
  · refine .invalid (fun b h => ?_) id
    cases b with
    | false => exact hfalse h
    | true => exact htrue h

/-! ## Texts -/

theorem eq_append_of_getLast? {text : List Char} {c : Char} (h : text.getLast? = some c) :
    text = text.dropLast ++ [c] := by
  obtain ⟨front, rfl⟩ := List.getLast?_eq_some_iff.mp h
  rw [List.dropLast_concat]

theorem Quotes.unique {text inner inner' : List Char} (h : Quotes text inner)
    (h' : Quotes text inner') : inner' = inner := by
  rw [Quotes, h] at h'
  exact (List.append_cancel_right (List.cons.inj h').2).symm

theorem Brackets.unique {text inner inner' : List Char} (h : Brackets text inner)
    (h' : Brackets text inner') : inner' = inner := by
  rw [Brackets, h] at h'
  exact (List.append_cancel_right (List.cons.inj h').2).symm

/-- A quoted text is read as what stands between the quotes. -/
theorem readQuoted_cases (text : List Char) :
    (∃ inner, Quotes text inner ∧ readQuoted text = .ok inner) ∨
      (∀ inner, ¬ Quotes text inner) ∧ readQuoted text = .error .invalidValue := by
  by_cases hquotes : ∃ inner, Quotes text inner
  · obtain ⟨inner, rfl⟩ := hquotes
    refine .inl ⟨inner, rfl, ?_⟩
    show (if (inner ++ ['"']).getLast? = some '"' then _ else _) = _
    rw [List.getLast?_concat, if_pos rfl, List.dropLast_concat]
  · refine .inr ⟨not_exists.mp hquotes, ?_⟩
    unfold readQuoted
    split
    · rename_i rest
      exact if_neg fun hlast => hquotes ⟨_, congrArg _ (eq_append_of_getLast? hlast)⟩
    · rfl

theorem answers_readText (capacity : Nat) (text : List Char) :
    Answers (DenotesText text : Text capacity → Prop) (OverflowsText capacity text)
      (readText capacity text) := by
  unfold readText
  rcases readQuoted_cases text with ⟨inner, hinner, hread⟩ | ⟨hnone, hread⟩
  · rw [hread]
    dsimp only
    unfold Text.ofString?
    by_cases hfits : (String.ofList inner).utf8ByteSize ≤ capacity
    · rw [dif_pos hfits]
      refine .value _ ?_ (fun t h => ?_) fun ⟨inner', hinner', hlong⟩ => ?_
      · rw [DenotesText, String.toList_ofList]
        exact hinner
      · have hsame : t.string.toList = inner := hinner.unique h
        have hstring : t.string = String.ofList inner := by rw [← hsame, String.ofList_toList]
        exact Text.ext hstring
      · rw [hinner.unique hinner'] at hlong
        exact Nat.not_le_of_lt hlong hfits
    · rw [dif_neg hfits]
      refine .tooLong ⟨inner, hinner, Nat.lt_of_not_le hfits⟩ fun t h => hfits ?_
      have hsame : t.string.toList = inner := hinner.unique h
      rw [← hsame, String.ofList_toList]
      exact t.fits
  · rw [hread]
    exact .invalid (fun t => hnone _) fun ⟨inner, hinner, _⟩ => hnone inner hinner

theorem spelling_injective {mode mode' : PairingMode}
    (h : mode.spelling.toList = mode'.spelling.toList) : mode = mode' := by
  revert h
  cases mode <;> cases mode' <;> decide

theorem answers_readPairingMode (text : List Char) :
    Answers (DenotesMode text) False (readPairingMode text) := by
  unfold readPairingMode
  rcases readQuoted_cases text with ⟨inner, hinner, hread⟩ | ⟨hnone, hread⟩
  · have named : ∀ mode : PairingMode, inner = mode.spelling.toList →
        Answers (DenotesMode text) False (.ok mode) := by
      rintro mode rfl
      exact .value _ hinner (fun mode' h => spelling_injective (hinner.unique h)) id
    rw [hread]
    dsimp only
    split_ifs with h₁ h₂ h₃ h₄ h₅
    · exact named .displayOnly h₁
    · exact named .displayYesNo h₂
    · exact named .keyboardOnly h₃
    · exact named .noInputNoOutput h₄
    · exact named .justWork h₅
    · refine .invalid (fun mode h => ?_) id
      have hsame : mode.spelling.toList = inner := hinner.unique h
      cases mode with
      | displayOnly => exact h₁ hsame.symm
      | displayYesNo => exact h₂ hsame.symm
      | keyboardOnly => exact h₃ hsame.symm
      | noInputNoOutput => exact h₄ hsame.symm
      | justWork => exact h₅ hsame.symm
  · rw [hread]
    exact .invalid (fun mode => hnone _) id

/-! ## Lists of bytes -/

section Items

variable {capacity : Nat}

theorem spell_cons {item : List Char} {these : List (List Char)} {bytes : Bytes} :
    Spell (item :: these) bytes ↔
      ∃ b more, bytes = b :: more ∧ DenotesByte item b ∧ Spell these more := by
  cases bytes with
  | nil => exact ⟨fun h => (by cases h), fun ⟨_, _, h, _⟩ => (by cases h)⟩
  | cons b more =>
    refine ⟨fun h => ⟨b, more, rfl, List.cons.inj h⟩, ?_⟩
    rintro ⟨_, _, hbytes, hb, hmore⟩
    cases hbytes
    exact List.cons_eq_cons.mpr ⟨hb, hmore⟩

/-- These items are more than fit behind what is held, before any that is no byte. -/
def Exceed (held : Buffer capacity) (these : List (List Char)) : Prop :=
  ∃ front back, these = front ++ back ∧ held.size + front.length = capacity + 1 ∧
    ∀ item ∈ front, IsByte item

/-- There is room for one item less behind one byte more. -/
theorem exceed_cons {held longer : Buffer capacity} {item : List Char} {these : List (List Char)}
    (hsize : longer.size = held.size + 1) (hitem : IsByte item) :
    Exceed held (item :: these) ↔ Exceed longer these := by
  have hroom : longer.size ≤ capacity := longer.fits
  constructor
  · rintro ⟨front, back, hsplit, hlength, hbytes⟩
    cases front with
    | nil =>
      rw [List.length_nil] at hlength
      omega
    | cons first front =>
      rw [List.length_cons] at hlength
      refine ⟨front, back, (List.cons.inj hsplit).2, by omega, fun item h => ?_⟩
      exact hbytes item (List.mem_cons_of_mem _ h)
  · rintro ⟨front, back, rfl, hlength, hbytes⟩
    refine ⟨item :: front, back, rfl, ?_, List.forall_mem_cons.mpr ⟨hitem, hbytes⟩⟩
    rw [List.length_cons]
    omega

/-- An item that is no byte ends the list before it exceeds the room. -/
theorem isByte_of_exceed {held : Buffer capacity} {item : List Char} {these : List (List Char)}
    (h : Exceed held (item :: these)) : IsByte item := by
  have hroom : held.size ≤ capacity := held.fits
  obtain ⟨front, back, hsplit, hlength, hbytes⟩ := h
  cases front with
  | nil =>
    rw [List.length_nil] at hlength
    omega
  | cons first front =>
    rw [(List.cons.inj hsplit).1]
    exact hbytes first List.mem_cons_self

theorem isByte_iff {item : List Char} : IsByte item ↔ ∃ b, DenotesByte item b := by
  constructor
  · rintro ⟨n, hn, h⟩
    refine ⟨UInt8.ofNat n, ?_⟩
    rw [DenotesByte, h, UInt8.toNat_ofNat', Nat.mod_eq_of_lt hn]
  · rintro ⟨b, h⟩
    exact ⟨b.toNat, b.toNat_lt, h⟩

/-- The items are read one after the other, behind what is held. -/
theorem answers_readItems (pieces : List (List Char)) (held : Buffer capacity) :
    Answers
      (fun b : Buffer capacity => ∃ more,
        Spell ((pieces.map trim).filter (· ≠ [])) more ∧ b.bytes = held.bytes ++ more)
      (Exceed held ((pieces.map trim).filter (· ≠ []))) (readItems held pieces) := by
  have hroom : held.size ≤ capacity := held.fits
  induction pieces generalizing held with
  | nil =>
    refine .value _ ⟨[], rfl, (List.append_nil _).symm⟩ ?_ ?_
    · rintro b ⟨more, hmore, hb⟩
      have hnil : more = [] := List.map_eq_nil_iff.mp (Eq.symm hmore)
      rw [hnil, List.append_nil] at hb
      exact Buffer.ext hb
    · rintro ⟨front, back, hsplit, hlength, -⟩
      have hnil : front = [] := (List.append_eq_nil_iff.mp hsplit.symm).1
      rw [hnil, List.length_nil] at hlength
      omega
  | cons piece rest ih =>
    rw [List.map_cons, readItems]
    by_cases hblank : trim piece = []
    · rw [if_pos hblank, List.filter_cons_of_neg (by simp [hblank])]
      exact ih held hroom
    · rw [if_neg hblank, List.filter_cons_of_pos (by simp [hblank])]
      generalize (rest.map trim).filter (· ≠ []) = these at ih
      have item := answers_readByte (trim piece)
      generalize readByte (trim piece) = answer at item
      cases item with
      | value byte denotes only =>
        have hbyte : IsByte (trim piece) := isByte_iff.mpr ⟨byte, denotes⟩
        dsimp only
        cases hpush : held.push? byte with
        | some longer =>
          have hlonger := Buffer.push?_eq_some_iff.mp hpush
          have hsize : longer.size = held.size + 1 := by
            rw [Buffer.size, hlonger, List.length_append]
            rfl
          refine (ih longer longer.fits).congr (fun b => ?_) (exceed_cons hsize hbyte).symm
          constructor
          · rintro ⟨more, hmore, hb⟩
            refine ⟨byte :: more, spell_cons.mpr ⟨byte, more, rfl, denotes, hmore⟩, ?_⟩
            rw [hb, hlonger, List.append_assoc, List.singleton_append]
          · rintro ⟨all, hall, hb⟩
            obtain ⟨first, more, rfl, hfirst, hmore⟩ := spell_cons.mp hall
            refine ⟨more, hmore, ?_⟩
            rw [hb, hlonger, only first hfirst, List.append_assoc, List.singleton_append]
        | none =>
          have hfull := Buffer.push?_eq_none_iff.mp hpush
          refine .tooLong ⟨[trim piece], these, rfl, ?_, ?_⟩ ?_
          · rw [hfull, List.length_singleton]
          · exact List.forall_mem_singleton.mpr hbyte
          · rintro b ⟨all, hall, hb⟩
            obtain ⟨first, more, rfl, -, -⟩ := spell_cons.mp hall
            have hlength := b.fits
            rw [hb, List.length_append, List.length_cons, ← Buffer.size, hfull] at hlength
            omega
      | tooLong overflows _ => exact overflows.elim
      | invalid denotesNone _ =>
        refine .invalid ?_ fun h => ?_
        · rintro b ⟨all, hall, -⟩
          obtain ⟨first, more, -, hfirst, -⟩ := spell_cons.mp hall
          exact denotesNone first hfirst
        · obtain ⟨b, hb⟩ := isByte_iff.mp (isByte_of_exceed h)
          exact denotesNone b hb

end Items

theorem answers_readBytes (capacity : Nat) (text : List Char) :
    Answers (DenotesBytes text : Buffer capacity → Prop) (OverflowsBytes capacity text)
      (readBytes capacity text) := by
  by_cases hbrackets : ∃ inner, Brackets text inner
  · obtain ⟨inner, hinner⟩ := hbrackets
    have hread : readBytes capacity text = readItems .empty (splitAt ',' inner) := by
      rw [hinner]
      show (if (inner ++ [']']).getLast? = some ']' then _ else _) = _
      rw [List.getLast?_concat, if_pos rfl, List.dropLast_concat]
    rw [hread]
    refine (answers_readItems _ _).congr (fun b => ⟨?_, ?_⟩) ⟨?_, ?_⟩
    · rintro ⟨more, hmore, hb⟩
      exact ⟨inner, hinner, hb ▸ hmore⟩
    · rintro ⟨inner', hinner', hspell⟩
      rw [hinner.unique hinner'] at hspell
      exact ⟨b.bytes, hspell, rfl⟩
    · rintro ⟨front, back, hsplit, hlength, hbytes⟩
      exact ⟨inner, front, back, hinner, hsplit, (Nat.zero_add _).symm.trans hlength, hbytes⟩
    · rintro ⟨inner', front, back, hinner', hsplit, hlength, hbytes⟩
      rw [hinner.unique hinner'] at hsplit
      exact ⟨front, back, hsplit, (Nat.zero_add _).trans hlength, hbytes⟩
  · have hread : readBytes capacity text = .error .invalidValue := by
      unfold readBytes
      split
      · exact if_neg fun hlast => hbrackets ⟨_, congrArg _ (eq_append_of_getLast? hlast)⟩
      · rfl
    rw [hread]
    exact .invalid (fun b ⟨inner, hinner, _⟩ => hbrackets ⟨inner, hinner⟩)
      fun ⟨inner, _, _, hinner, _⟩ => hbrackets ⟨inner, hinner⟩

end Setting

/-! ## The values of each key -/

namespace Key

/-- What a text stands for as a value of this key. -/
def Denotes : (key : Key) → List Char → key.Value → Prop
  | version => Setting.DenotesByte
  | name => Setting.DenotesText
  | keepName => Setting.DenotesBool
  | pin => Setting.DenotesText
  | pairingMode => Setting.DenotesMode
  | advData => Setting.DenotesBytes
  | scanResponse => Setting.DenotesBytes
  | advInterval => Setting.DenotesWord
  | visible => Setting.DenotesBool
  | tickMs => Setting.DenotesPositive
  | responseTimeout => Setting.DenotesPositive
  | resetSettle => Setting.DenotesWord
  | retryTimeout => Setting.DenotesPositive
  | maxRetries => Setting.DenotesByte
  | evalInterval => Setting.DenotesPositive

/-- The text has the form of a value of this key, and exceeds the room for it. -/
def Overflows : Key → List Char → Prop
  | name => Setting.OverflowsText 16
  | pin => Setting.OverflowsText 6
  | advData => Setting.OverflowsBytes 31
  | scanResponse => Setting.OverflowsBytes 31
  | _ => fun _ => False

/-- **A value is read for what it denotes.** -/
theorem answers_read (key : Key) (text : List Char) :
    Setting.Answers (key.Denotes text) (key.Overflows text) (key.read text) := by
  cases key with
  | version => exact Setting.answers_readByte text
  | name => exact Setting.answers_readText 16 text
  | keepName => exact Setting.answers_readBool text
  | pin => exact Setting.answers_readText 6 text
  | pairingMode => exact Setting.answers_readPairingMode text
  | advData => exact Setting.answers_readBytes 31 text
  | scanResponse => exact Setting.answers_readBytes 31 text
  | advInterval => exact Setting.answers_readWord text
  | visible => exact Setting.answers_readBool text
  | tickMs => exact Setting.answers_readPositive text
  | responseTimeout => exact Setting.answers_readPositive text
  | resetSettle => exact Setting.answers_readWord text
  | retryTimeout => exact Setting.answers_readPositive text
  | maxRetries => exact Setting.answers_readByte text
  | evalInterval => exact Setting.answers_readPositive text

end Key

/-! ## Quotes in a value -/

theorem ne_quote_of_digitValue? {base d : Nat} {c : Char} (h : digitValue? base c = some d) :
    c ≠ '"' := by
  rintro rfl
  cases h

theorem not_mem_of_digitsValue? {base before n : Nat} {text : List Char}
    (h : digitsValue? base before text = some n) : '"' ∉ text := by
  induction text generalizing before with
  | nil => exact List.not_mem_nil
  | cons c rest ih =>
    obtain ⟨d, hd, hrest⟩ := Option.bind_eq_some_iff.mp h
    intro hmem
    rcases List.mem_cons.mp hmem with rfl | hmem
    · exact ne_quote_of_digitValue? hd rfl
    · exact ih hrest hmem

theorem not_mem_of_numeralIn? {base n : Nat} {text : List Char}
    (h : numeralIn? base text = some n) : '"' ∉ text := by
  have digits : ∀ text, (if text = [] then none else digitsValue? base 0 text) = some n →
      '"' ∉ text := by
    intro text h
    split at h
    · cases h
    · exact not_mem_of_digitsValue? h
  unfold numeralIn? at h
  dsimp only at h
  split at h
  · exact List.not_mem_cons_of_ne_of_not_mem (by decide) (digits _ h)
  · exact digits _ h

/-- No numeral holds a quote. -/
theorem not_mem_of_numeral? {n : Nat} {text : List Char} (h : numeral? text = some n) :
    '"' ∉ text := by
  unfold numeral? at h
  split at h
  · exact List.not_mem_cons_of_ne_of_not_mem (by decide)
      (List.not_mem_cons_of_ne_of_not_mem (by decide) (not_mem_of_numeralIn? h))
  · exact List.not_mem_cons_of_ne_of_not_mem (by decide)
      (List.not_mem_cons_of_ne_of_not_mem (by decide) (not_mem_of_numeralIn? h))
  · exact not_mem_of_numeralIn? h

namespace Setting

theorem not_mem_of_denotesBool {text : List Char} {b : Bool} (h : DenotesBool text b) :
    '"' ∉ text := by
  rw [h]
  cases b with
  | false => decide
  | true => decide

theorem not_mem_of_denotesBytes {capacity : Nat} {text : List Char} {b : Buffer capacity}
    (h : DenotesBytes text b) : '"' ∉ text := by
  obtain ⟨inner, rfl, hspell⟩ := h
  refine List.not_mem_cons_of_ne_of_not_mem (by decide) fun hmem => ?_
  rcases List.mem_append.mp hmem with hmem | hmem
  · obtain ⟨piece, hpiece, hquote⟩ := exists_piece_of_mem ',' (by decide) hmem
    have hquote := mem_trim (by decide) hquote
    have hitem : trim piece ∈ items inner := by
      refine List.mem_filter.mpr ⟨List.mem_map_of_mem hpiece, decide_eq_true fun hnil => ?_⟩
      rw [hnil] at hquote
      exact absurd hquote List.not_mem_nil
    have hvalue : numeral? (trim piece) ∈ b.bytes.map fun x => some x.toNat :=
      hspell ▸ List.mem_map_of_mem hitem
    obtain ⟨x, -, hx⟩ := List.mem_map.mp hvalue
    exact not_mem_of_numeral? hx.symm hquote
  · exact absurd (List.mem_singleton.mp hmem) (by decide)

theorem Quotes.getLast? {text inner : List Char} (h : Quotes text inner) :
    text.getLast? = some '"' := by
  rw [h, ← List.cons_append]
  exact List.getLast?_concat

end Setting

/-- **A value with a quote in it ends with one.** -/
theorem Key.Denotes.ends_with_quote {key : Key} {text : List Char} {v : key.Value}
    (h : key.Denotes text v) (hquote : '"' ∈ text) : text.getLast? = some '"' := by
  cases key with
  | version => exact absurd hquote (not_mem_of_numeral? h)
  | name => exact Setting.Quotes.getLast? h
  | keepName => exact absurd hquote (Setting.not_mem_of_denotesBool h)
  | pin => exact Setting.Quotes.getLast? h
  | pairingMode => exact Setting.Quotes.getLast? h
  | advData => exact absurd hquote (Setting.not_mem_of_denotesBytes h)
  | scanResponse => exact absurd hquote (Setting.not_mem_of_denotesBytes h)
  | advInterval => exact absurd hquote (not_mem_of_numeral? h)
  | visible => exact absurd hquote (Setting.not_mem_of_denotesBool h)
  | tickMs => exact absurd hquote (not_mem_of_numeral? h.1)
  | responseTimeout => exact absurd hquote (not_mem_of_numeral? h.1)
  | resetSettle => exact absurd hquote (not_mem_of_numeral? h)
  | retryTimeout => exact absurd hquote (not_mem_of_numeral? h.1)
  | maxRetries => exact absurd hquote (not_mem_of_numeral? h)
  | evalInterval => exact absurd hquote (not_mem_of_numeral? h.1)

end RoomControl
