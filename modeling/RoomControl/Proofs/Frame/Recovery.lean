import RoomControl.Proofs.Frame.Stream

/-!
# Back between frames

A reader that has taken a stray sync byte reads a frame that nobody sent. How long that can last is
bounded: `remaining` says for each position how many bytes at most are missing, and every byte
brings it down (`remaining_feed`), whatever the byte is. After a sync byte these are 132: the length
field, the opcode, 128 payload bytes and the checksum. So every reader is idle within 132 bytes, and
a frame behind as many bytes that start none is never lost (`resynchronised`).

Behind fewer bytes it may be lost, when its sync byte is read as the checksum of the frame that
nobody sent (`sync_taken_for_checksum`).
-/

set_option autoImplicit false

namespace RoomControl.FrameReader

/-- The most bytes that are missing until the reader is idle. -/
def remaining : FrameReader → Nat
  | idle => 0
  | lengthHigh => 132
  | lengthLow _ => 131
  | opcode length => announced length + 2
  | payload length _ held => announced length - held.size + 1
  | checksum _ _ _ => 1

theorem remaining_eq_zero_iff {reader : FrameReader} : reader.remaining = 0 ↔ reader = idle := by
  cases reader <;> simp [remaining]

/-- **No position is further from idle than the one behind the sync byte.** -/
theorem remaining_le {reader : FrameReader} (h : reader.Sound) : reader.remaining ≤ 132 := by
  cases reader with
  | idle => exact Nat.zero_le _
  | lengthHigh => exact Nat.le_refl _
  | lengthLow high => exact Nat.le_succ _
  | opcode length =>
    obtain ⟨-, hmax⟩ := h
    simp only [Frame.maxPayload] at hmax
    simp only [remaining]
    omega
  | payload length code held =>
    obtain ⟨-, hmax, -⟩ := h
    simp only [Frame.maxPayload] at hmax
    simp only [remaining]
    omega
  | checksum length code held => exact Nat.succ_le_succ (Nat.zero_le _)

/-- **Every byte brings a reader inside a frame nearer to idle.** -/
theorem remaining_feed {reader : FrameReader} (h : reader.Sound) (hinside : reader ≠ idle)
    (byte : UInt8) : (reader.feed byte).2.remaining < reader.remaining := by
  cases reader with
  | idle => exact absurd rfl hinside
  | lengthHigh => simp [feed, remaining]
  | lengthLow high =>
    simp only [feed, ofLength]
    split
    · simp [remaining]
    · split
      · simp [remaining]
      · rename_i hmax
        simp only [Frame.maxPayload] at hmax
        simp only [remaining]
        omega
  | opcode length =>
    simp only [feed]
    split
    · simp [remaining]
    · simp only [remaining, Buffer.size, Buffer.bytes_empty, List.length_nil]
      omega
  | payload length code held =>
    obtain ⟨-, hmax, hless⟩ := h
    obtain ⟨longer, hpush, -, hsize⟩ :=
      Buffer.exists_push? (Nat.lt_of_lt_of_le hless hmax) byte
    simp only [feed, hpush]
    split
    · simp only [remaining]
      omega
    · simp only [remaining]
      omega
  | checksum length code held =>
    simp only [feed]
    split
    · simp [remaining]
    · simp [remaining]

theorem Sound.feed {reader : FrameReader} (h : reader.Sound) (byte : UInt8) :
    (reader.feed byte).2.Sound := by
  have hfed := fed_feed h byte
  generalize reader.feed byte = step at hfed ⊢
  cases hfed with
  | taken hnext _ => exact hnext
  | _ => trivial

/-- **A reader is idle before the bytes that it may miss are over.** -/
theorem idle_within {reader : FrameReader} (h : reader.Sound) {stream : Bytes}
    (hlong : reader.remaining ≤ stream.length) :
    ∃ k, k ≤ reader.remaining ∧ (reader.feedAll (stream.take k)).2 = idle := by
  induction stream generalizing reader with
  | nil =>
    have hidle : reader = idle := remaining_eq_zero_iff.mp (Nat.le_zero.mp hlong)
    exact ⟨0, Nat.zero_le _, hidle⟩
  | cons byte rest ih =>
    by_cases hidle : reader = idle
    · exact ⟨0, Nat.zero_le _, hidle⟩
    · have hnearer := remaining_feed h hidle byte
      rw [List.length_cons] at hlong
      obtain ⟨k, hk, hlast⟩ := ih (h.feed byte) (by omega)
      exact ⟨k + 1, by omega, hlast⟩

/-- Bytes that start no frame leave an idle reader idle. -/
theorem idle_of_noise {noise : Bytes} (h : ∀ byte ∈ noise, byte ≠ Frame.sync) :
    (feedAll idle noise).2 = idle := by
  induction noise with
  | nil => rfl
  | cons byte rest ih =>
    obtain ⟨hbyte, hrest⟩ := List.forall_mem_cons.mp h
    have hskipped := feedAll_segment (.filler byte hbyte)
    have happend := feedAll_append idle [byte] rest
    rw [Segment.bytes] at hskipped
    rw [hskipped] at happend
    rw [← List.singleton_append, happend]
    exact ih hrest

/-- **Enough noise leaves every reader idle.** -/
theorem idle_after_noise {reader : FrameReader} (h : reader.Sound) {noise : Bytes}
    (hlong : reader.remaining ≤ noise.length) (hnoise : ∀ byte ∈ noise, byte ≠ Frame.sync) :
    (reader.feedAll noise).2 = idle := by
  obtain ⟨k, -, hidle⟩ := idle_within h hlong
  have hsplit := feedAll_append reader (noise.take k) (noise.drop k)
  rw [List.take_append_drop, hidle] at hsplit
  rw [hsplit]
  exact idle_of_noise fun byte hbyte => hnoise byte (List.mem_of_mem_drop hbyte)

/-- **A frame that is cut short of its checksum costs the next one its sync byte**, and with it the
whole. Behind its own sync byte a full frame has 131 more bytes before the checksum, so the bound is
not one too high. -/
theorem sync_taken_for_checksum {cut f : Frame} (h : cut.checksum ≠ Frame.sync) :
    feedAll idle (cut.toBytes.dropLast ++ f.toBytes) =
      (List.replicate (cut.payload.size + 4) (.ok none) ++
        .error .invalidChecksum :: (feedAll idle f.toBytes.tail).1,
        (feedAll idle f.toBytes.tail).2) := by
  have hsync : f.toBytes = [Frame.sync] ++ f.toBytes.tail := rfl
  have hread := feedAll_summed cut Frame.sync
  rw [if_neg h.symm] at hread
  rw [Frame.toBytes, List.dropLast_concat, hsync, ← List.append_assoc, feedAll_append, hread,
    List.append_assoc]
  rfl

/-- **A reader is back between frames within 132 bytes**, whatever came before and whatever comes.
Behind as many bytes that start no frame, every frame is returned at its last byte. -/
theorem resynchronised (history : Bytes) :
    (∀ stream : Bytes, 132 ≤ stream.length → ∃ k, k ≤ 132 ∧
      ((feedAll idle history).2.feedAll (stream.take k)).2.isIdle = true) ∧
    ∀ (noise : Bytes) (f : Frame), 132 ≤ noise.length → (∀ byte ∈ noise, byte ≠ 0xAA) →
      (feedAll idle history).2.feedAll (noise ++ f.toBytes) =
        (((feedAll idle history).2.feedAll noise).1 ++
          (List.replicate (f.toBytes.length - 1) (.ok none) ++ [.ok (some f)]), idle) := by
  have hsound := (holds history).sound
  generalize (feedAll idle history).2 = reader at hsound ⊢
  have hbound := remaining_le hsound
  constructor
  · intro stream hlong
    obtain ⟨k, hk, hidle⟩ := idle_within hsound (Nat.le_trans hbound hlong)
    refine ⟨k, Nat.le_trans hk hbound, ?_⟩
    rw [hidle]
    rfl
  · intro noise f hlong hnoise
    have hidle := idle_after_noise hsound (Nat.le_trans hbound hlong) hnoise
    have hcount : f.toBytes.length - 1 = f.payload.size + 4 := by
      rw [f.length_toBytes]
      omega
    have hread := feedAll_segment (.frame f)
    rw [Segment.bytes, Segment.answers] at hread
    rw [feedAll_append, hidle, hread, hcount]

end RoomControl.FrameReader
