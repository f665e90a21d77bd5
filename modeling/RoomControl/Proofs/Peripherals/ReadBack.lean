import Mathlib.Algebra.Group.Nat.Defs
import RoomControl.Proofs.Peripherals.Display

/-!
# What the board remembers of its actions

The board is told action after action, of any devices and with any values, and some it refuses. A
`Part` is what keeps a setting of its own: an output, an LED, a line or the backlight, and
`Board.reading` is the setting as the board reports it. There is nothing else to a board
(`eq_of_reading`). `sets` says what an action, when it is taken, makes of each part.

`execute_effect` is what one action does: it is taken and makes of each part what it sets, or it is
refused and the board is the same. Which of the two depends on the device and the value alone.
`actions_kept` is the law of whole histories: what is read of a part is what the last action that was
taken and addressed it has set it to.
-/

set_option autoImplicit false

namespace RoomControl.Board

/-! ## Parts and their settings -/

/-- What keeps a setting of its own. -/
inductive Part where
  | output (pin : UInt8)
  | led (index : UInt8)
  | line (index : UInt8)
  | backlight
  deriving DecidableEq, Repr

/-- The part is a line that the display has. -/
def Part.IsLine : Part → Prop
  | .line index => index.toNat < 2
  | .output _ | .led _ | .backlight => False

instance (part : Part) : Decidable part.IsLine :=
  match part with
  | .line index => inferInstanceAs (Decidable (index.toNat < 2))
  | .output _ | .led _ | .backlight => .isFalse id

/-- What a part is set to. -/
inductive Setting where
  | level (on : Bool)
  | colour (colour : Rgb)
  | text (text : String)
  deriving DecidableEq, Repr

/-- The setting of a part, as the board reports it. A pin that it does not have is low. -/
def reading (b : Board) : Part → Option Setting
  | .output pin => some (.level ((Peripherals.outputs b).toNat.testBit pin.toNat))
  | .led index => (Peripherals.led? b index).map .colour
  | .line index => (Peripherals.line? b index).map .text
  | .backlight => some (.level b.backlight)

/-- An action: the device and the value. -/
abbrev Call := Device × Bytes

/-- What an action that is taken sets a part to, if it addresses the part. -/
def sets (call : Call) (part : Part) : Option Setting :=
  match call with
  | (.output pin, value) => if part = .output pin then some (.level (isOn value)) else none
  | (.led index, value) => if part = .led index then (Rgb.ofBytes? value).map .colour else none
  | (.displayMessage, line :: text) =>
    if part = .line line then (ofUtf8? (text.take lineWidth)).map .text else none
  | (.displayBacklight, value) => if part = .backlight then some (.level (isOn value)) else none
  | (.displayClear, _) => if part.IsLine then some (.text "") else none
  | (.displayReset, _) =>
    if part.IsLine then some (.text "")
    else if part = .backlight then some (.level true) else none
  | _ => none

/-- The board has the device, and the value fits it. -/
def Takes : Call → Prop
  | (.output pin, _) => pin.toNat < 8
  | (.led index, value) => index.toNat < 8 ∧ 3 ≤ value.length
  | (.displayMessage, line :: text) =>
    line.toNat < 2 ∧ ∃ shown, ofUtf8? (text.take lineWidth) = some shown
  | (.displayBacklight, value) => value ≠ []
  | (.displayClear, _) | (.displayReset, _) => True
  | _ => False

/-! ## The levels of the outputs -/

theorem bits_lt (levels : List Bool) : bits levels < 2 ^ levels.length := by
  induction levels with
  | nil => exact Nat.one_pos
  | cons level rest ih =>
    have hlevel := level.toNat_lt
    rw [bits, List.length_cons, Nat.pow_succ]
    omega

theorem testBit_bits (levels : List Bool) (i : Nat) :
    (bits levels).testBit i = levels.getD i false := by
  induction levels generalizing i with
  | nil => simp [bits]
  | cons level rest ih =>
    cases i with
    | zero =>
      rw [bits, Nat.testBit_zero]
      cases level <;> simp
    | succ i =>
      have hhalf : (level.toNat + 2 * bits rest) / 2 = bits rest := by
        have hlevel := level.toNat_lt
        omega
      rw [bits, Nat.testBit_succ, hhalf, ih]
      rfl

variable {b : Board} {part : Part}

theorem reading_output (b : Board) (pin : UInt8) :
    b.reading (.output pin) = some (.level ((b.outputs[pin.toNat]?).getD false)) := by
  have hlt : bits b.outputs.toList < 2 ^ 8 := by
    have h := bits_lt b.outputs.toList
    rwa [Vector.length_toList] at h
  have hbits : (Peripherals.outputs b).toNat = bits b.outputs.toList :=
    UInt32.toNat_ofNat_of_lt' (Nat.lt_trans hlt (by decide))
  rw [reading, hbits, testBit_bits, List.getD_eq_getElem?_getD, Vector.getElem?_toList]

/-! ## One part set -/

theorem reading_set_output {pin : UInt8} (hpin : pin.toNat < 8) (level : Bool) :
    reading { b with outputs := b.outputs.set pin.toNat level hpin } part =
      if part = .output pin then some (.level level) else b.reading part := by
  cases part with
  | output other =>
    rw [reading_output, reading_output, getElem?_set_toNat]
    simp only [Part.output.injEq]
    split <;> rfl
  | _ => rfl

theorem reading_set_led {index : UInt8} (hindex : index.toNat < 8) (colour : Rgb) :
    reading { b with leds := b.leds.set index.toNat colour hindex } part =
      if part = .led index then some (.colour colour) else b.reading part := by
  cases part with
  | led other =>
    show ((b.leds.set index.toNat colour hindex)[other.toNat]?).map Setting.colour = _
    rw [getElem?_set_toNat]
    simp only [Part.led.injEq]
    split <;> rfl
  | _ => rfl

theorem reading_set_line {line : UInt8} (hline : line.toNat < 2) (shown : Text 20) :
    reading { b with lines := b.lines.set line.toNat shown hline } part =
      if part = .line line then some (.text shown.string) else b.reading part := by
  cases part with
  | line other =>
    rw [reading, line?_set hline shown other]
    simp only [Part.line.injEq]
    split <;> rfl
  | _ => rfl

theorem reading_set_backlight (on : Bool) :
    reading { b with backlight := on } part =
      if part = .backlight then some (.level on) else b.reading part := by
  cases part <;> rfl

theorem reading_clear :
    b.clear.reading part = if part.IsLine then some (.text "") else b.reading part := by
  cases part with
  | line index =>
    show (((Vector.replicate 2 Text.empty)[index.toNat]?).map Text.string).map Setting.text = _
    split
    · rename_i hline
      have hlt : index.toNat < 2 := hline
      rw [Vector.getElem?_replicate, if_pos hlt]
      rfl
    · rename_i hline
      have hlt : ¬ index.toNat < 2 := hline
      rw [Vector.getElem?_replicate, if_neg hlt]
      have hnone : b.lines[index.toNat]? = none :=
        Vector.getElem?_eq_none (Nat.le_of_not_lt hlt)
      exact congrArg (fun line => (line.map Text.string).map Setting.text) hnone.symm
  | _ => rfl

/-- **The readings are all there is of a board.** -/
theorem eq_of_reading {b' : Board} (h : ∀ part, b.reading part = b'.reading part) : b = b' := by
  have hbyte : ∀ {i : Nat}, i < 8 → (UInt8.ofNat i).toNat = i := by
    intro i hi
    exact UInt8.toNat_ofNat_of_lt' (Nat.lt_trans hi (by decide))
  have houtputs : b.outputs = b'.outputs := by
    ext i hi
    have hlevel := h (.output (UInt8.ofNat i))
    rw [reading_output, reading_output, hbyte hi, Vector.getElem?_eq_getElem hi,
      Vector.getElem?_eq_getElem hi] at hlevel
    simpa using hlevel
  have hleds : b.leds = b'.leds := by
    ext1 i hi
    have hcolour := h (.led (UInt8.ofNat i))
    simp only [reading, Peripherals.led?, hbyte hi, Vector.getElem?_eq_getElem hi] at hcolour
    simpa using hcolour
  have hlines : b.lines = b'.lines := by
    ext1 i hi
    have htext := h (.line (UInt8.ofNat i))
    have hindex := hbyte (Nat.lt_trans hi (by decide : 2 < 8))
    simp only [reading, Peripherals.line?, hindex, Vector.getElem?_eq_getElem hi] at htext
    apply Text.ext
    simpa using htext
  have hbacklight : b.backlight = b'.backlight := by
    simpa [reading] using h .backlight
  cases b
  cases b'
  congr

/-! ## One action -/

/-- What an action may make of the board, with its answer. -/
inductive Effect (b : Board) (call : Call) : Except PeripheralError Unit × Board → Prop where
  | taken (after : Board) (takes : Takes call)
      (readings : ∀ part, after.reading part = (sets call part).or (b.reading part)) :
      Effect b call (.ok (), after)
  | refused (e : PeripheralError) (unfit : ¬ Takes call) : Effect b call (.error e, b)

namespace Effect

variable {call : Call} {result : Except PeripheralError Unit × Board}

theorem ok_iff (h : Effect b call result) : result.1 = .ok () ↔ Takes call := by
  cases h with
  | taken after takes readings => exact iff_of_true rfl takes
  | refused e unfit => exact iff_of_false (by simp) unfit

theorem eq_of_error (h : Effect b call result) {e : PeripheralError} (herror : result.1 = .error e) :
    result.2 = b := by
  cases h with
  | taken after takes readings => cases herror
  | refused e unfit => rfl

theorem reading_of_ok (h : Effect b call result) (hok : result.1 = .ok ()) (part : Part) :
    result.2.reading part = (sets call part).or (b.reading part) := by
  cases h with
  | taken after takes readings => exact readings part
  | refused e unfit => cases hok

end Effect

theorem or_of_addressed {addressed : Prop} [Decidable addressed] (new : Setting)
    (old : Option Setting) :
    (if addressed then some new else none).or old = if addressed then some new else old := by
  split <;> rfl

/-- **An action** sets its own part and no other, or is refused and changes nothing. -/
theorem execute_effect (b : Board) (device : Device) (value : Bytes) :
    Effect b (device, value) (Peripherals.execute b device value) := by
  show Effect b (device, value) (b.execute device value)
  cases device with
  | output pin =>
    unfold execute
    dsimp only
    split
    · rename_i hpin
      refine .taken _ hpin ?_
      intro part
      rw [reading_set_output, sets, or_of_addressed]
    · rename_i hpin
      exact .refused _ hpin
  | led index =>
    unfold execute
    dsimp only
    split
    · rename_i hindex
      cases hcolour : Rgb.ofBytes? value with
      | some colour =>
        have hlong : 3 ≤ value.length := by
          by_contra hshort
          rw [Rgb.ofBytes?_eq_none_iff.mpr (Nat.lt_of_not_le hshort)] at hcolour
          cases hcolour
        refine .taken _ ⟨hindex, hlong⟩ ?_
        intro part
        rw [reading_set_led, sets, hcolour, Option.map_some, or_of_addressed]
      | none =>
        have hshort := Rgb.ofBytes?_eq_none_iff.mp hcolour
        exact .refused _ fun takes => Nat.not_le_of_lt hshort takes.2
    · rename_i hindex
      exact .refused _ fun takes => hindex takes.1
  | displayMessage =>
    -- The line is cleared before it takes the text, but only a text that has room gets that far.
    cases value with
    | nil => exact .refused _ id
    | cons line text =>
      by_cases hline : line.toNat < 2
      · cases hshown : ofUtf8? (text.take lineWidth) with
        | some shown =>
          rw [execute_of_readable hline hshown]
          refine .taken _ ⟨hline, shown, hshown⟩ ?_
          intro part
          rw [reading_set_line, sets, hshown, Option.map_some, or_of_addressed]
        | none =>
          rw [execute_of_unreadable hline hshown]
          refine .refused _ ?_
          rintro ⟨-, shown, hsome⟩
          cases hshown.symm.trans hsome
      · have hrefused : b.execute .displayMessage (line :: text) = (.error .noSuchDevice, b) :=
          dif_neg hline
        rw [hrefused]
        exact .refused _ fun takes => hline takes.1
  | displayBacklight =>
    unfold execute
    dsimp only
    split
    · rename_i hvalue
      exact .refused _ fun takes => takes hvalue
    · rename_i hvalue
      refine .taken _ hvalue ?_
      intro part
      rw [reading_set_backlight, sets, or_of_addressed]
  | displayClear =>
    refine .taken _ trivial ?_
    intro part
    rw [reading_clear, sets, or_of_addressed]
  | displayReset =>
    refine .taken _ trivial ?_
    intro part
    rw [reading_set_backlight, reading_clear, sets]
    cases part with
    | line index =>
      have hother : Part.line index ≠ .backlight := by simp
      rw [if_neg hother, if_neg hother, or_of_addressed]
    | _ => rfl
  | _ => exact .refused _ id

/-! ## Action after action -/

/-- The board after these actions. -/
def after (b : Board) (calls : List Call) : Board :=
  calls.foldl (fun b call => (Peripherals.execute b call.1 call.2).2) b

/-- Those of the actions that are taken, one after the other. -/
def taken (b : Board) : List Call → List Call
  | [] => []
  | call :: rest =>
    match Peripherals.execute b call.1 call.2 with
    | (.ok _, next) => call :: next.taken rest
    | (.error _, next) => next.taken rest

/-- What the last of the actions that addresses a part sets it to. -/
def lastSet (calls : List Call) (part : Part) : Option Setting :=
  calls.reverse.findSome? fun call => sets call part

theorem lastSet_cons (call : Call) (rest : List Call) (part : Part) :
    lastSet (call :: rest) part = (lastSet rest part).or (sets call part) := by
  rw [lastSet, List.reverse_cons, List.findSome?_append, List.findSome?_singleton]
  rfl

theorem reading_after (b : Board) (calls : List Call) (part : Part) :
    (b.after calls).reading part = (lastSet (b.taken calls) part).or (b.reading part) := by
  induction calls generalizing b with
  | nil => rfl
  | cons call rest ih =>
    have heffect := b.execute_effect call.1 call.2
    have hafter : b.after (call :: rest) = (Peripherals.execute b call.1 call.2).2.after rest := rfl
    rw [hafter, ih, taken]
    generalize Peripherals.execute b call.1 call.2 = result at heffect ⊢
    cases heffect with
    | taken next takes readings =>
      show _ = (lastSet (call :: next.taken rest) part).or (b.reading part)
      rw [lastSet_cons, Option.or_assoc, ← readings part]
    | refused e unfit => rfl

/-- **Actions are atomic and local, and are remembered.** However the board came to its state, by any
actions taken and refused, an action that is refused changes nothing, an action succeeds exactly when
the board has the device and the value fits it, and then it makes of every part what it sets, the
parts that it does not address being as before. And every output, LED, line and the backlight reads as
the last action that was taken and addressed it has set it, or as at the start if there is none. There
is nothing else on a board: two that read alike are the same. -/
theorem actions_kept (b : Board) (calls : List Call) :
    (∀ device value e, (Peripherals.execute (b.after calls) device value).1 = .error e →
      (Peripherals.execute (b.after calls) device value).2 = b.after calls) ∧
    (∀ device value, (Peripherals.execute (b.after calls) device value).1 = .ok () ↔
      Takes (device, value)) ∧
    (∀ device value, (Peripherals.execute (b.after calls) device value).1 = .ok () → ∀ part,
      (Peripherals.execute (b.after calls) device value).2.reading part =
        (sets (device, value) part).or ((b.after calls).reading part)) ∧
    (∀ part, (b.after calls).reading part = (lastSet (b.taken calls) part).or (b.reading part)) ∧
    ∀ b' : Board, (∀ part, (b.after calls).reading part = b'.reading part) → b.after calls = b' := by
  have heffect := (b.after calls).execute_effect
  refine ⟨?_, ?_, ?_, b.reading_after calls, fun b' => eq_of_reading⟩
  · intro device value e herror
    exact (heffect device value).eq_of_error herror
  · intro device value
    exact (heffect device value).ok_iff
  · intro device value hok part
    exact (heffect device value).reading_of_ok hok part

end RoomControl.Board
