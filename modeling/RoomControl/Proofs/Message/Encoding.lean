import RoomControl.Message

/-!
# Messages are read as they are written

The reader accepts exactly what a message writes (`decode_eq_ok_iff`), so that each message has one
wire form. The writer takes a kind and a body of any length and has a check of its own: it refuses
exactly what would be no message or would not fit the buffer (`encodeInto_eq_error_iff`), and leaves
the rest of the buffer alone.

A kind comes back as the kind of its tag. That is another kind when a known tag was written under
`Kind.other`.
-/

set_option autoImplicit false

namespace RoomControl.Message

/-! ## Reading -/

theorem ofBody_eq_ok_iff {kind : Kind} {body : Bytes} {m : Message} :
    ofBody kind body = .ok m ↔ m.kind = kind ∧ m.body.bytes = body := by
  unfold ofBody
  constructor
  · intro h
    split at h
    next held hheld =>
      cases h
      exact ⟨rfl, (Buffer.ofBytes?_eq_some_iff.mp hheld).symm⟩
    next => cases h
  · rintro ⟨rfl, rfl⟩
    rw [Buffer.ofBytes?_bytes]

theorem exists_ofBody (kind : Kind) {body : Bytes} (h : body.length ≤ maxBody) :
    ∃ m, ofBody kind body = .ok m := by
  refine ⟨⟨kind, ⟨body, h⟩⟩, ?_⟩
  exact ofBody_eq_ok_iff.mpr ⟨rfl, rfl⟩

/-- A packet is read as the kind of its tag. -/
theorem decode_packet (kind : Kind) (body : Bytes) :
    decode (packet kind body) = ofBody (.ofTag kind.tag) body := by
  simp [packet, decode]

/-- **The reader accepts exactly what a message writes**, under its kind's own name. -/
theorem decode_eq_ok_iff {bytes : Bytes} {m : Message} :
    decode bytes = .ok m ↔ bytes = m.toBytes ∧ Kind.ofTag m.kind.tag = m.kind := by
  constructor
  · intro h
    unfold decode at h
    split at h
    next tag sum body =>
      split at h
      next hsum =>
        obtain ⟨hkind, hbody⟩ := ofBody_eq_ok_iff.mp h
        have htag : m.kind.tag = tag := by rw [hkind, Kind.tag_ofTag]
        refine ⟨?_, by rw [htag, hkind]⟩
        rw [toBytes, packet, htag, hbody, hsum]
      next => cases h
    next => cases h
  · rintro ⟨rfl, hkind⟩
    exact decode_toBytes m hkind

/-- What makes bytes a message: the header, the size and the sum. -/
theorem exists_decode_iff {bytes : Bytes} :
    (∃ m, decode bytes = .ok m) ↔
      2 ≤ bytes.length ∧ bytes.length ≤ maxSize ∧
        bytes[1]? = some (additiveSum (bytes.drop 2)) := by
  constructor
  · rintro ⟨m, hm⟩
    obtain ⟨rfl, -⟩ := decode_eq_ok_iff.mp hm
    have hfits := m.body.fits
    refine ⟨?_, ?_, rfl⟩
    · rw [length_toBytes]
      omega
    · rw [length_toBytes, Buffer.size, maxSize]
      omega
  · rintro ⟨hheader, hsize, hsum⟩
    rcases bytes with _ | ⟨tag, _ | ⟨sum, body⟩⟩
    · cases hheader
    · cases Nat.le_of_succ_le_succ hheader
    · have hbody : body.length ≤ maxBody := by
        rw [List.length_cons, List.length_cons, maxSize] at hsize
        rw [maxBody]
        omega
      obtain ⟨m, hm⟩ := exists_ofBody (.ofTag tag) hbody
      refine ⟨m, ?_⟩
      have hsum : additiveSum body = sum := (Option.some.inj hsum).symm
      rw [decode, if_pos hsum]
      exact hm

/-! ## Writing -/

theorem length_packet (kind : Kind) (body : Bytes) : (packet kind body).length = body.length + 2 :=
  rfl

/-- **The writer refuses exactly what does not fit** a message or the buffer. -/
theorem encodeInto_eq_error_iff {kind : Kind} {body buffer : Bytes} {e : MessageError} :
    encodeInto kind body buffer = .error e ↔
      e = .tooLarge ∧ (maxBody < body.length ∨ buffer.length < body.length + 2) := by
  have hmax : body.length + 2 > maxSize ↔ maxBody < body.length := by
    rw [maxSize, maxBody]
    omega
  unfold encodeInto
  split
  next hlong =>
    simp only [Except.error.injEq, hmax.mp hlong, true_or, and_true, eq_comm]
  next hlong =>
    rw [hmax] at hlong
    split
    next written hwritten =>
      have hroom : ¬ buffer.length < body.length + 2 := by
        intro hshort
        rw [overwrite?_eq_none_iff.mpr hshort] at hwritten
        cases hwritten
      simp only [reduceCtorEq, hlong, hroom, or_self, and_false]
    next hwritten =>
      have hshort : buffer.length < body.length + 2 := overwrite?_eq_none_iff.mp hwritten
      simp only [Except.error.injEq, hshort, or_true, and_true, eq_comm]

/-- What is written is the packet, and the rest of the buffer stays. -/
theorem encodeInto_of_fits {kind : Kind} {body buffer : Bytes} (hbody : body.length ≤ maxBody)
    (hbuffer : body.length + 2 ≤ buffer.length) :
    encodeInto kind body buffer =
      .ok (body.length + 2, packet kind body ++ buffer.drop (body.length + 2)) := by
  have hsize : ¬ body.length + 2 > maxSize := Nat.not_lt.mpr (Nat.add_le_add_right hbody 2)
  have hroom : (packet kind body).length ≤ buffer.length := hbuffer
  rw [encodeInto, if_neg hsize, overwrite?_of_le hroom, length_packet]

theorem fits_of_encodeInto {kind : Kind} {body buffer : Bytes} {count : Nat} {written : Bytes}
    (h : encodeInto kind body buffer = .ok (count, written)) :
    body.length ≤ maxBody ∧ body.length + 2 ≤ buffer.length := by
  constructor
  · apply Nat.le_of_not_lt
    intro hlong
    rw [encodeInto_eq_error_iff.mpr ⟨rfl, .inl hlong⟩] at h
    cases h
  · apply Nat.le_of_not_lt
    intro hshort
    rw [encodeInto_eq_error_iff.mpr ⟨rfl, .inr hshort⟩] at h
    cases h

/-- **The wire form of messages is exact.** Bytes are read as a message if and only if they have the
header, are no longer than a message and carry the sum of their body, and the message that is read
writes these bytes again, into every buffer that has room for them.

A kind and a body of any length are refused, always as too large, if and only if the body exceeds a
message or the buffer is too short; otherwise the header and the body are written over the start of
the buffer and nothing else, and what was written is read as that body under the kind of the tag. -/
theorem wire_form_exact :
    (∀ bytes : Bytes,
      ((∃ m, decode bytes = .ok m) ↔
        2 ≤ bytes.length ∧ bytes.length ≤ maxSize ∧
          bytes[1]? = some (additiveSum (bytes.drop 2))) ∧
      ∀ m buffer, decode bytes = .ok m → bytes.length ≤ buffer.length →
        m.encode buffer = .ok (bytes.length, bytes ++ buffer.drop bytes.length)) ∧
    ∀ (kind : Kind) (body buffer : Bytes),
      (∀ e, encodeInto kind body buffer = .error e ↔
        e = .tooLarge ∧ (maxBody < body.length ∨ buffer.length < body.length + 2)) ∧
      ∀ count written, encodeInto kind body buffer = .ok (count, written) →
        count = body.length + 2 ∧ written.length = buffer.length ∧
          written.drop count = buffer.drop count ∧
          ∃ m, decode (written.take count) = .ok m ∧ m.kind = .ofTag kind.tag ∧
            m.body.bytes = body := by
  constructor
  · intro bytes
    refine ⟨exists_decode_iff, fun m buffer hm hbuffer => ?_⟩
    obtain ⟨rfl, -⟩ := decode_eq_ok_iff.mp hm
    exact encodeInto_of_fits m.body.fits hbuffer
  · intro kind body buffer
    refine ⟨fun e => encodeInto_eq_error_iff, fun count written h => ?_⟩
    obtain ⟨hbody, hbuffer⟩ := fits_of_encodeInto h
    rw [encodeInto_of_fits hbody hbuffer] at h
    cases h
    have hcount : body.length + 2 = (packet kind body).length := rfl
    obtain ⟨m, hm⟩ := exists_ofBody (.ofTag kind.tag) hbody
    refine ⟨rfl, ?_, ?_, m, ?_, ofBody_eq_ok_iff.mp hm⟩
    · rw [List.length_append, List.length_drop, length_packet]
      omega
    · rw [hcount, List.drop_left]
    · rw [hcount, List.take_left, decode_packet]
      exact hm

/-- A known tag under another name comes back under its own. -/
example : decode (packet (.other 0x06) [2]) = .ok ⟨.enter, [2], by decide⟩ := rfl

end RoomControl.Message
