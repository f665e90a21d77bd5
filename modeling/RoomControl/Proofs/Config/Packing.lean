import Mathlib.Algebra.Group.Nat.Defs
import RoomControl.Storage.Load

/-!
# The packed form is exact

Packed fields stand one behind the other, with nothing between them. So each reader must take exactly
the bytes that were written for its field, whatever follows, and fail on fewer (`Takes`). Both are
kept when one reader goes on where another has stopped (`Takes.bind`), and the laws of the fields
add up to that of the whole configuration (`takes_config`).

The readers accept more than is written: a number may take more groups than it needs. Such a form
takes more room, never less (`length_of_takeConfig`), and the configuration it stands for is written
in the shortest form when it is packed again.
-/

set_option autoImplicit false

namespace RoomControl.Packed

variable {α β : Type}

/-! ## Taking a field -/

/-- The reader takes these bytes for the value: it leaves what follows them, and fails when some of
them are missing at the end. -/
structure Takes (r : Reader α) (bytes : Bytes) (a : α) : Prop where
  whole : ∀ rest, r (bytes ++ rest) = some (a, rest)
  part : ∀ p q, bytes = p ++ q → q ≠ [] → r p = none

theorem bind_of_some {r : Reader α} {f : α → Reader β} {bytes rest : Bytes} {a : α}
    (h : r bytes = some (a, rest)) : (r >>= f) bytes = f a rest := by
  simp only [bind, StateT.bind, h, Option.bind_some]

theorem bind_of_none {r : Reader α} {f : α → Reader β} {bytes : Bytes} (h : r bytes = none) :
    (r >>= f) bytes = none := by
  simp only [bind, StateT.bind, h, Option.bind_none]

/-- A value costs no bytes when it is known. -/
theorem takes_pure (a : α) : Takes (pure a) [] a where
  whole _ := rfl
  part _ _ h hq := absurd (List.append_eq_nil_iff.mp h.symm).2 hq

theorem takes_lift {o : Option α} {a : α} (h : o = some a) : Takes (StateT.lift o) [] a := by
  subst h
  exact takes_pure a

/-- **One reader behind another** takes the bytes of both. -/
theorem Takes.bind {r : Reader α} {f : α → Reader β} {left right : Bytes} {a : α} {b : β}
    (first : Takes r left a) (second : Takes (f a) right b) : Takes (r >>= f) (left ++ right) b where
  whole rest := by
    rw [List.append_assoc, bind_of_some (first.whole _), second.whole]
  part p q h hq := by
    rcases List.append_eq_append_iff.mp h with ⟨more, rfl, rfl⟩ | ⟨missing, rfl, rfl⟩
    · -- all of the first field is there
      rw [bind_of_some (first.whole more)]
      exact second.part more q rfl hq
    · by_cases hmissing : missing = []
      · subst hmissing
        have hfirst := first.whole []
        rw [List.append_nil, List.append_nil] at hfirst
        rw [bind_of_some hfirst]
        exact second.part [] right rfl hq
      · exact bind_of_none (first.part p missing rfl hmissing)

/-- A reader that needs a first byte, and takes the others once it has it. -/
theorem takes_cons {r : Reader α} {b : UInt8} {bytes : Bytes} {a : α} (hnil : r [] = none)
    (whole : ∀ rest, r (b :: (bytes ++ rest)) = some (a, rest))
    (part : ∀ p q, bytes = p ++ q → q ≠ [] → r (b :: p) = none) : Takes r (b :: bytes) a where
  whole := whole
  part p q h hq := by
    rcases List.append_eq_cons_iff.mp h.symm with ⟨rfl, -⟩ | ⟨p', rfl, hp'⟩
    · exact hnil
    · exact part p' q hp' hq

theorem takes_single {r : Reader α} {b : UInt8} {a : α} (hnil : r [] = none)
    (whole : ∀ rest, r (b :: rest) = some (a, rest)) : Takes r [b] a :=
  takes_cons hnil whole fun _ _ h hq => absurd (List.append_eq_nil_iff.mp h.symm).2 hq

/-! ## Numbers -/

theorem takes_byte (b : UInt8) : Takes takeByte [b] b := takes_single rfl fun _ => rfl

theorem takes_bytes (bytes : Bytes) : Takes (takeBytes bytes.length) bytes bytes where
  whole rest := by
    have hle : bytes.length ≤ (bytes ++ rest).length := by
      rw [List.length_append]
      omega
    rw [takeBytes, if_pos hle, List.take_left, List.drop_left]
  part p q h hq := by
    have hlt : p.length < bytes.length := by
      have := List.length_pos_iff.mpr hq
      rw [h, List.length_append]
      omega
    exact if_neg (Nat.not_le_of_lt hlt)

theorem toNat_ofNat_of_lt {n : Nat} (h : n < 256) : (UInt8.ofNat n).toNat = n := by
  rw [UInt8.toNat_ofNat', Nat.mod_eq_of_lt h]

/-- A number within the limit of the reader is taken for what was written. -/
theorem takes_varint {last : Nat} (hlast : last < 128) {more n : Nat}
    (hn : n < 128 ^ more * (last + 1)) : Takes (takeVarint last more) (varint n) n := by
  induction more generalizing n with
  | zero =>
    have hbyte : (UInt8.ofNat n).toNat = n := toNat_ofNat_of_lt (by omega)
    have hle : n ≤ last := by omega
    rw [varint, if_pos (by omega)]
    refine takes_single rfl fun rest => ?_
    simp only [takeVarint, hbyte, if_pos hle]
  | succ more ih =>
    rw [varint]
    split
    · rename_i hsmall
      have hbyte : (UInt8.ofNat n).toNat = n := toNat_ofNat_of_lt (by omega)
      refine takes_single rfl fun rest => ?_
      simp only [takeVarint, hbyte, if_pos hsmall]
    · rename_i hbig
      have hbyte : (UInt8.ofNat (n % 128 + 128)).toNat = n % 128 + 128 :=
        toNat_ofNat_of_lt (by omega)
      have hnot : ¬ n % 128 + 128 < 128 := by omega
      have hhigh : n / 128 < 128 ^ more * (last + 1) := by
        rw [Nat.div_lt_iff_lt_mul (by decide), Nat.mul_right_comm, ← Nat.pow_succ]
        exact hn
      have high := ih hhigh
      refine takes_cons rfl (fun rest => ?_) fun p q h hq => ?_
      · have hsum : 128 * (n / 128) + (n % 128 + 128 - 128) = n := by omega
        simp only [takeVarint, hbyte, if_neg hnot, high.whole, hsum]
      · simp only [takeVarint, hbyte, if_neg hnot, high.part p q h hq]

theorem takes_word (w : UInt16) : Takes takeWord (varint w.toNat) w := by
  have hw := w.toNat_lt
  have number : Takes (takeVarint 3 2) (varint w.toNat) w.toNat :=
    takes_varint (by decide) (by omega)
  have read : Takes takeWord (varint w.toNat ++ []) (UInt16.ofNat w.toNat) :=
    number.bind (takes_pure _)
  rwa [List.append_nil, UInt16.ofNat_toNat] at read

theorem takes_length {n : Nat} (hn : n < 128) : Takes takeLength (varint n) n :=
  takes_varint (by decide) (by omega)

/-! ## Fields -/

theorem takes_bool (b : Bool) : Takes takeBool (bool b) b := by
  cases b with
  | false => exact (takes_byte 0).bind (takes_pure false)
  | true => exact (takes_byte 1).bind (takes_pure true)

theorem takes_pairingMode (mode : PairingMode) :
    Takes takePairingMode (varint mode.toByte.toNat) mode := by
  have number : Takes (takeVarint 15 4) (varint mode.toByte.toNat) mode.toByte.toNat :=
    takes_varint (by decide) (by have := mode.toByte.toNat_lt; omega)
  rw [← List.append_nil (varint _)]
  cases mode with
  | displayOnly => exact number.bind (takes_pure _)
  | displayYesNo => exact number.bind (takes_pure _)
  | keyboardOnly => exact number.bind (takes_pure _)
  | noInputNoOutput => exact number.bind (takes_pure _)
  | justWork => exact number.bind (takes_pure _)

/-- Bytes after their length, when `f` makes the value of them. -/
theorem takes_counted {f : Bytes → Option α} {bytes : Bytes} {a : α} (hlength : bytes.length < 128)
    (h : f bytes = some a) :
    Takes (do let n ← takeLength; let bytes ← takeBytes n; StateT.lift (f bytes)) (counted bytes)
      a := by
  have bounded : Takes (takeBytes bytes.length >>= fun bytes => StateT.lift (f bytes)) (bytes ++ [])
      a := (takes_bytes bytes).bind (takes_lift h)
  rw [List.append_nil] at bounded
  exact (takes_length hlength).bind bounded

theorem takes_text {capacity : Nat} (hcapacity : capacity < 128) (t : Text capacity) :
    Takes (takeText capacity) (counted t.bytes) t :=
  takes_counted (Nat.lt_of_le_of_lt t.length_bytes_le hcapacity) (Text.ofBytes?_bytes t)

theorem takes_buffer {capacity : Nat} (hcapacity : capacity < 128) (b : Buffer capacity) :
    Takes (takeBuffer capacity) (counted b.bytes) b :=
  takes_counted (Nat.lt_of_le_of_lt b.fits hcapacity) (Buffer.ofBytes?_bytes b)

/-! ## The whole configuration -/

theorem takes_radio (r : RadioSettings) : Takes takeRadio (radio r) r := by
  have read : Takes takeRadio (counted r.name.bytes ++ (bool r.keepName ++ (counted r.pin.bytes ++
      (varint r.pairingMode.toByte.toNat ++ (counted r.advData.bytes ++
      (counted r.scanResponse.bytes ++ (varint r.advInterval.toNat ++ (bool r.visible ++ [])))))))) r :=
    (takes_text (by decide) r.name).bind <| (takes_bool r.keepName).bind <|
    (takes_text (by decide) r.pin).bind <| (takes_pairingMode r.pairingMode).bind <|
    (takes_buffer (by decide) r.advData).bind <| (takes_buffer (by decide) r.scanResponse).bind <|
    (takes_word r.advInterval).bind <| (takes_bool r.visible).bind <| takes_pure r
  simpa only [radio, List.append_assoc, List.append_nil] using read

theorem takes_timing (t : TimingSettings) : Takes takeTiming (timing t) t := by
  have read : Takes takeTiming (varint t.tickMs.toNat ++ (varint t.responseTimeout.toNat ++
      (varint t.resetSettle.toNat ++ (varint t.retryTimeout.toNat ++ ([t.maxRetries] ++
      (varint t.evalInterval.toNat ++ [])))))) t :=
    (takes_word t.tickMs).bind <| (takes_word t.responseTimeout).bind <|
    (takes_word t.resetSettle).bind <| (takes_word t.retryTimeout).bind <|
    (takes_byte t.maxRetries).bind <| (takes_word t.evalInterval).bind <| takes_pure t
  simpa only [timing, List.append_assoc, List.append_nil] using read

/-- **A configuration is taken for what was written.** -/
theorem takes_config (c : NodeConfig) : Takes takeConfig (config c) c := by
  have read : Takes takeConfig ([c.version] ++ (radio c.radio ++ (timing c.timing ++ []))) c :=
    (takes_byte c.version).bind <| (takes_radio c.radio).bind <|
    (takes_timing c.timing).bind <| takes_pure c
  simpa only [config, List.append_assoc, List.append_nil] using read

/-! ## The room that a packed form takes -/

theorem length_varint_le (more : Nat) {n : Nat} (h : n < 128 ^ (more + 1)) :
    (varint n).length ≤ more + 1 := by
  induction more generalizing n with
  | zero =>
    rw [varint, if_pos (by omega)]
    exact Nat.le_refl 1
  | succ more ih =>
    rw [varint]
    split
    · exact Nat.le_add_left ..
    · have hhigh : n / 128 < 128 ^ (more + 1) := by
        rw [Nat.div_lt_iff_lt_mul (by decide), ← Nat.pow_succ]
        exact h
      rw [List.length_cons]
      exact Nat.succ_le_succ (ih hhigh)

theorem varint_ne_nil (n : Nat) : varint n ≠ [] := by
  rw [varint]
  split
  · exact List.cons_ne_nil _ _
  · exact List.cons_ne_nil _ _

theorem length_word_le (w : UInt16) : (varint w.toNat).length ≤ 3 :=
  length_varint_le 2 (by have := w.toNat_lt; omega)

theorem length_counted_le {bytes : Bytes} {capacity : Nat} (hcapacity : capacity < 128)
    (h : bytes.length ≤ capacity) : (counted bytes).length ≤ capacity + 1 := by
  have hvarint : (varint bytes.length).length ≤ 1 := length_varint_le 0 (by omega)
  rw [counted, List.length_append]
  omega

theorem length_pairingMode (mode : PairingMode) : (varint mode.toByte.toNat).length ≤ 1 :=
  length_varint_le 0 (by cases mode <;> decide)

theorem length_radio_le (r : RadioSettings) : (radio r).length ≤ 94 := by
  have hname := length_counted_le (by decide) r.name.length_bytes_le
  have hpin := length_counted_le (by decide) r.pin.length_bytes_le
  have hmode := length_pairingMode r.pairingMode
  have hadv := length_counted_le (by decide) r.advData.fits
  have hscan := length_counted_le (by decide) r.scanResponse.fits
  have hinterval := length_word_le r.advInterval
  simp only [radio, bool, List.length_append, List.length_singleton]
  omega

theorem length_timing_le (t : TimingSettings) : (timing t).length ≤ 16 := by
  have htick := length_word_le t.tickMs
  have hresponse := length_word_le t.responseTimeout
  have hsettle := length_word_le t.resetSettle
  have hretry := length_word_le t.retryTimeout
  have heval := length_word_le t.evalInterval
  simp only [timing, List.length_append, List.length_singleton]
  omega

/-- A packed configuration takes 111 bytes at most. -/
theorem length_config_le (c : NodeConfig) : (config c).length ≤ 111 := by
  have hradio := length_radio_le c.radio
  have htiming := length_timing_le c.timing
  simp only [config, List.length_append, List.length_singleton]
  omega

/-! ## Forms that are longer than they need to be -/

theorem exists_of_bind {r : Reader α} {f : α → Reader β} {bytes rest : Bytes} {b : β}
    (h : (r >>= f) bytes = some (b, rest)) :
    ∃ a mid, r bytes = some (a, mid) ∧ f a mid = some (b, rest) := by
  cases hr : r bytes with
  | none =>
    rw [bind_of_none hr] at h
    cases h
  | some taken =>
    rw [bind_of_some hr] at h
    exact ⟨taken.1, taken.2, rfl, h⟩

theorem eq_of_pure {a b : α} {bytes rest : Bytes} (h : (pure a : Reader α) bytes = some (b, rest)) :
    a = b ∧ bytes = rest := by
  cases h
  exact ⟨rfl, rfl⟩

theorem length_of_takeByte {bytes rest : Bytes} {b : UInt8} (h : takeByte bytes = some (b, rest)) :
    1 + rest.length ≤ bytes.length := by
  cases bytes with
  | nil => cases h
  | cons first more =>
    cases h
    exact Nat.le_of_eq (Nat.add_comm ..)

/-- A number that was taken is within the limit of the reader, and took at least the room that it
needs. -/
theorem fits_of_takeVarint {last : Nat} (hlast : last < 128) {more n : Nat} {bytes rest : Bytes}
    (h : takeVarint last more bytes = some (n, rest)) :
    n < 128 ^ more * (last + 1) ∧ (varint n).length + rest.length ≤ bytes.length := by
  induction more generalizing bytes n rest with
  | zero =>
    cases bytes with
    | nil => cases h
    | cons b tail =>
      simp only [takeVarint] at h
      split at h
      · cases h
        have hsize : (varint b.toNat).length ≤ 1 := length_varint_le 0 (by omega)
        rw [List.length_cons]
        omega
      · cases h
  | succ more ih =>
    have hlimit : 128 ^ (more + 1) * (last + 1) = 128 * (128 ^ more * (last + 1)) := by
      rw [Nat.pow_succ, Nat.mul_comm (128 ^ more), Nat.mul_assoc]
    have hpos : 0 < 128 ^ more * (last + 1) :=
      Nat.mul_pos (Nat.pow_pos (by decide)) (Nat.succ_pos last)
    rw [hlimit]
    generalize 128 ^ more * (last + 1) = limit at ih hpos
    cases bytes with
    | nil => cases h
    | cons b tail =>
      have hb := b.toNat_lt
      simp only [takeVarint] at h
      split at h
      · cases h
        have hsize : (varint b.toNat).length ≤ 1 := length_varint_le 0 (by omega)
        rw [List.length_cons]
        omega
      · split at h
        · rename_i high left hhigh
          obtain ⟨rfl, rfl⟩ := Prod.mk.inj (Option.some.inj h)
          obtain ⟨hlt, hlength⟩ := ih hhigh
          refine ⟨by omega, ?_⟩
          rw [varint, List.length_cons]
          split
          · have := List.length_pos_iff.mpr (varint_ne_nil high)
            rw [List.length_singleton]
            omega
          · have hdiv : (128 * high + (b.toNat - 128)) / 128 = high := by omega
            rw [hdiv, List.length_cons]
            omega
        · cases h

theorem length_of_takeWord {bytes rest : Bytes} {w : UInt16} (h : takeWord bytes = some (w, rest)) :
    (varint w.toNat).length + rest.length ≤ bytes.length := by
  obtain ⟨n, mid, hn, h⟩ := exists_of_bind h
  obtain ⟨rfl, rfl⟩ := eq_of_pure h
  obtain ⟨hlt, hlength⟩ := fits_of_takeVarint (by decide) hn
  have hword : (UInt16.ofNat n).toNat = n := by
    rw [UInt16.toNat_ofNat']
    omega
  rw [hword]
  exact hlength

theorem length_of_takeBool {bytes rest : Bytes} {b : Bool} (h : takeBool bytes = some (b, rest)) :
    (bool b).length + rest.length ≤ bytes.length := by
  obtain ⟨first, mid, hfirst, h⟩ := exists_of_bind h
  have hlength := length_of_takeByte hfirst
  have hrest : mid = rest := by
    split at h
    · exact (eq_of_pure h).2
    · exact (eq_of_pure h).2
    · cases h
  rw [← hrest]
  exact hlength

theorem length_of_takePairingMode {bytes rest : Bytes} {mode : PairingMode}
    (h : takePairingMode bytes = some (mode, rest)) :
    (varint mode.toByte.toNat).length + rest.length ≤ bytes.length := by
  obtain ⟨n, mid, hn, h⟩ := exists_of_bind h
  have hlength := (fits_of_takeVarint (by decide) hn).2
  have hvarint := List.length_pos_iff.mpr (varint_ne_nil n)
  have hmode := length_pairingMode mode
  have hrest : mid = rest := by
    split at h
    case h_6 => cases h
    all_goals exact (eq_of_pure h).2
  rw [← hrest]
  omega

/-- Bytes that were taken after their length, with the value that `f` makes of them. -/
theorem length_of_takeCounted {f : Bytes → Option α} {write : α → Bytes}
    (hf : ∀ bytes a, f bytes = some a → bytes = write a) {bytes rest : Bytes} {a : α}
    (h : (do let n ← takeLength; let bytes ← takeBytes n; StateT.lift (f bytes) : Reader α) bytes =
      some (a, rest)) : (counted (write a)).length + rest.length ≤ bytes.length := by
  obtain ⟨n, mid, hn, h⟩ := exists_of_bind h
  obtain ⟨taken, left, htaken, h⟩ := exists_of_bind h
  have hlength := (fits_of_takeVarint (by decide) hn).2
  unfold takeBytes at htaken
  split at htaken
  · rename_i hle
    obtain ⟨rfl, rfl⟩ := Prod.mk.inj (Option.some.inj htaken)
    cases hvalue : f (mid.take n) with
    | none =>
      rw [hvalue] at h
      cases h
    | some value =>
      rw [hvalue] at h
      obtain ⟨rfl, rfl⟩ := eq_of_pure h
      have hcount : (mid.take n).length = n := by
        rw [List.length_take]
        omega
      rw [← hf _ _ hvalue, counted, List.length_append, hcount, List.length_drop]
      omega
  · cases htaken

theorem length_of_takeText {capacity : Nat} {bytes rest : Bytes} {t : Text capacity}
    (h : takeText capacity bytes = some (t, rest)) :
    (counted t.bytes).length + rest.length ≤ bytes.length :=
  length_of_takeCounted (fun _ _ => Text.ofBytes?_eq_some_iff.mp) h

theorem length_of_takeBuffer {capacity : Nat} {bytes rest : Bytes} {b : Buffer capacity}
    (h : takeBuffer capacity bytes = some (b, rest)) :
    (counted b.bytes).length + rest.length ≤ bytes.length :=
  length_of_takeCounted (fun _ _ => Buffer.ofBytes?_eq_some_iff.mp) h

theorem length_of_takeRadio {bytes rest : Bytes} {r : RadioSettings}
    (h : takeRadio bytes = some (r, rest)) : (radio r).length + rest.length ≤ bytes.length := by
  obtain ⟨name, s₁, hname, h⟩ := exists_of_bind h
  obtain ⟨keepName, s₂, hkeepName, h⟩ := exists_of_bind h
  obtain ⟨pin, s₃, hpin, h⟩ := exists_of_bind h
  obtain ⟨pairingMode, s₄, hpairingMode, h⟩ := exists_of_bind h
  obtain ⟨advData, s₅, hadvData, h⟩ := exists_of_bind h
  obtain ⟨scanResponse, s₆, hscanResponse, h⟩ := exists_of_bind h
  obtain ⟨advInterval, s₇, hadvInterval, h⟩ := exists_of_bind h
  obtain ⟨visible, s₈, hvisible, h⟩ := exists_of_bind h
  obtain ⟨rfl, rfl⟩ := eq_of_pure h
  have := length_of_takeText hname
  have := length_of_takeBool hkeepName
  have := length_of_takeText hpin
  have := length_of_takePairingMode hpairingMode
  have := length_of_takeBuffer hadvData
  have := length_of_takeBuffer hscanResponse
  have := length_of_takeWord hadvInterval
  have := length_of_takeBool hvisible
  simp only [radio, List.length_append]
  omega

theorem length_of_takeTiming {bytes rest : Bytes} {t : TimingSettings}
    (h : takeTiming bytes = some (t, rest)) : (timing t).length + rest.length ≤ bytes.length := by
  obtain ⟨tickMs, s₁, htickMs, h⟩ := exists_of_bind h
  obtain ⟨responseTimeout, s₂, hresponseTimeout, h⟩ := exists_of_bind h
  obtain ⟨resetSettle, s₃, hresetSettle, h⟩ := exists_of_bind h
  obtain ⟨retryTimeout, s₄, hretryTimeout, h⟩ := exists_of_bind h
  obtain ⟨maxRetries, s₅, hmaxRetries, h⟩ := exists_of_bind h
  obtain ⟨evalInterval, s₆, hevalInterval, h⟩ := exists_of_bind h
  obtain ⟨rfl, rfl⟩ := eq_of_pure h
  have := length_of_takeWord htickMs
  have := length_of_takeWord hresponseTimeout
  have := length_of_takeWord hresetSettle
  have := length_of_takeWord hretryTimeout
  have := length_of_takeByte hmaxRetries
  have := length_of_takeWord hevalInterval
  simp only [timing, List.length_append, List.length_singleton]
  omega

theorem length_of_takeConfig {bytes rest : Bytes} {c : NodeConfig}
    (h : takeConfig bytes = some (c, rest)) : (config c).length + rest.length ≤ bytes.length := by
  obtain ⟨version, s₁, hversion, h⟩ := exists_of_bind h
  obtain ⟨radio, s₂, hradio, h⟩ := exists_of_bind h
  obtain ⟨timing, s₃, htiming, h⟩ := exists_of_bind h
  obtain ⟨rfl, rfl⟩ := eq_of_pure h
  have := length_of_takeByte hversion
  have := length_of_takeRadio hradio
  have := length_of_takeTiming htiming
  simp only [config, List.length_append, List.length_singleton]
  omega

/-! ## What is read -/

theorem readConfig?_config (c : NodeConfig) (rest : Bytes) :
    readConfig? (config c ++ rest) = some c := by
  rw [readConfig?, (takes_config c).whole, Option.map_some]

theorem readConfig?_of_missing {c : NodeConfig} {p : Bytes} (h : p <+: config c)
    (hne : p ≠ config c) : readConfig? p = none := by
  obtain ⟨q, hq⟩ := h
  have hmissing : q ≠ [] := by
    rintro rfl
    exact hne (by rw [← hq, List.append_nil])
  rw [readConfig?, (takes_config c).part p q hq.symm hmissing, Option.map_none]

theorem length_of_readConfig? {bytes : Bytes} {c : NodeConfig} (h : readConfig? bytes = some c) :
    (config c).length ≤ bytes.length := by
  obtain ⟨taken, htaken, rfl⟩ := Option.map_eq_some_iff.mp h
  exact Nat.le_trans (Nat.le_add_right ..) (length_of_takeConfig htaken)

/-- **The packed form is exact.** A configuration is read back from what was written, whatever
follows; a form that is cut off is refused; no form is the beginning of another one; each fits the
room that is read. What was read, from a form of any length, is written in no more bytes and read
back. -/
theorem packed_form_exact :
    (∀ (c : NodeConfig) (rest : Bytes), readConfig? (config c ++ rest) = some c) ∧
      (∀ (c : NodeConfig) (p : Bytes), p <+: config c → p ≠ config c → readConfig? p = none) ∧
      (∀ c d : NodeConfig, config c <+: config d → c = d) ∧
      (∀ c : NodeConfig, (config c).length ≤ FlashStore.maxPacked) ∧
      ∀ (bytes : Bytes) (c : NodeConfig), readConfig? bytes = some c →
        (config c).length ≤ bytes.length ∧ readConfig? (config c) = some c := by
  refine ⟨readConfig?_config, fun c p => readConfig?_of_missing, fun c d h => ?_, fun c => ?_,
    fun bytes c h => ⟨length_of_readConfig? h, ?_⟩⟩
  · obtain ⟨rest, hrest⟩ := h
    have hc := readConfig?_config c rest
    rw [hrest, ← List.append_nil (config d), readConfig?_config] at hc
    exact (Option.some.inj hc).symm
  · exact Nat.le_trans (length_config_le c) (by decide)
  · rw [← List.append_nil (config c), readConfig?_config]

/-- The default configuration, with a length and a tick that take more groups than they need, and two
bytes behind it. -/
def padded : Bytes :=
  [1, 136, 0, 104, 111, 109, 101, 110, 111, 100, 101, 0, 6, 49, 50, 51, 52, 53, 54, 4, 0, 0, 160, 1, 1,
    138, 128, 0, 50, 100, 20, 3, 5, 7, 7]

theorem padded_form_repacked :
    readConfig? padded = some {} ∧ (config {}).length ≤ padded.length ∧
      readConfig? (config {}) = some {} := by
  have hread : readConfig? padded = some {} := by decide +kernel
  exact ⟨hread, packed_form_exact.2.2.2.2 padded {} hread⟩

end RoomControl.Packed
