import RoomControl.Proofs.Program.Accesses
import RoomControl.Proofs.Program.Overlay
import RoomControl.Proofs.Program.Pieces

/-!
# The checksum of the stored program

A peer that has uploaded a program asks for its length and its additive sum, and compares them with
its own copy. The memory is read for that in pieces of at most 32 bytes. `sumFrom_eq` says that the
pieces make no difference: the sum is that of the whole stretch, whatever its length, and it is
refused exactly when the stretch is not all there.

`checksum_exact` follows the sum from the memory to the peer. The length that is told is that of the
stored program, which always can be summed, so the question is always answered. After a complete
upload whose chunks have left no gap the answer fits the bytes that were sent, with the status byte
replaced by the one that enables the program: this byte the peer does not choose.
-/

set_option autoImplicit false

namespace RoomControl

namespace ProgramMemory

variable {capacity : Nat} {m : ProgramMemory}

/-! ## Sums -/

/-- **The pieces make up the stretch.** The bytes that are there are summed, and any others refused. -/
theorem sumFrom_eq (h : Unfailing capacity m) (addr left : Nat) :
    m.sumFrom addr left = if left = 0 ∨ addr + left ≤ capacity ∧ capacity ≤ 65536 then
      .ok (additiveSum (stretch m.byteAt addr left)) else .error .outOfBounds := by
  fun_induction sumFrom m addr left with
  | case1 addr => rw [if_pos (.inl rfl)]; rfl
  | case2 addr left hleft piece hread ih =>
    rw [h.read_eq] at hread
    split at hread
    · rename_i hpiece
      cases hread
      have hsplit := stretch_add m.byteAt addr (min left 32) (left - min left 32)
      rw [Nat.add_sub_cancel' (Nat.min_le_left left 32)] at hsplit
      -- this piece is there, so the bytes behind it decide whether the whole stretch is
      have hrest : (left - min left 32 = 0 ∨
          addr + min left 32 + (left - min left 32) ≤ capacity ∧ capacity ≤ 65536) ↔
          left = 0 ∨ addr + left ≤ capacity ∧ capacity ≤ 65536 := by omega
      rw [ih, hsplit, additiveSum_append]
      simp only [hrest]
      split
      · rfl
      · rfl
    · cases hread
  | case3 addr left hleft e hread =>
    rw [h.read_eq] at hread
    split at hread
    · cases hread
    · rename_i hpiece
      cases hread
      rw [if_neg (by omega)]
      rfl

theorem programSum_eq (h : Unfailing capacity m) (length : Nat) :
    m.programSum length = if length = 0 ∨ length ≤ capacity ∧ capacity ≤ 65536 then
      .ok (additiveSum (m.slice 0 length)) else .error .outOfBounds := by
  rw [programSum, sumFrom_eq h, Nat.zero_add]
  split
  · rename_i hsummed
    have hfits : 0 + length ≤ m.capacity := by
      rw [h.capacity_eq]
      omega
    rw [slice_eq_stretch hfits]
  · rfl

/-! ## What a peer is told -/

/-- A peer that asks is told this length and the sum of these bytes. -/
def Tells (m : ProgramMemory) (length : Nat) (bytes : Bytes) : Prop :=
  ∃ w : UInt16, w.toNat = length ∧ m.consistency = .ok (wordBytes w ++ [additiveSum bytes])

/-- The stored program lies inside the memory. -/
theorem slice_program (m : ProgramMemory) :
    m.slice 0 m.programLength = stretch m.byteAt 0 m.programLength := by
  refine slice_eq_stretch ?_
  rcases Nat.eq_zero_or_pos m.programLength with hnone | hpos
  · omega
  · rw [Nat.zero_add]
    exact (programLength_bounds hpos).1

theorem length_program (m : ProgramMemory) :
    (m.slice 0 m.programLength).length = m.programLength := by
  rw [slice_program, length_stretch]

/-- **A memory tells of its program**, and of nothing when there is none. -/
theorem tells_program (h : Unfailing capacity m) :
    m.Tells m.programLength (m.slice 0 m.programLength) := by
  have hbounds : m.programLength = 0 ∨
      m.programLength ≤ capacity ∧ capacity ≤ 65536 ∧ m.programLength ≤ 65535 := by
    rcases Nat.eq_zero_or_pos m.programLength with hnone | hpos
    · exact .inl hnone
    · exact .inr (h.capacity_eq ▸ programLength_bounds hpos)
  have hword : (UInt16.ofNat m.programLength).toNat = m.programLength := by
    rw [UInt16.toNat_ofNat']
    omega
  refine ⟨UInt16.ofNat m.programLength, hword, ?_⟩
  rw [consistency, programSum_eq h, if_pos (by omega)]

end ProgramMemory

namespace Upload

open ProgramMemory (Unfailing)

variable {capacity : Nat} {open? : Option Upload} {m : ProgramMemory} {total : Nat}
variable {source : Channel} {chunks : List Chunk} {s : Session}

/-! ## Uploads to an unfailing memory -/

theorem unfailing_begin (h : Unfailing capacity m) (begun : begin open? m total source = (.ok (), s)) :
    Unfailing capacity s.2 := by
  have hkept := keeps_begin (fun _ _ _ _ h => Unfailing.write h) h open? total source
  rwa [begun] at hkept

theorem unfailing_deliver (h : Unfailing capacity s.2) (c : Chunk) :
    Unfailing capacity (deliver s c).2.2 :=
  keeps_chunk (fun _ _ _ _ h => Unfailing.write h) h s.1 c.addr c.data

/-- Whatever chunks come, the memory goes on refusing nothing. -/
theorem unfailing_runAll (h : Unfailing capacity s.2) (calls : List Chunk) :
    Unfailing capacity (runAll deliver s calls).2.2 :=
  runAll_keeps (P := fun _ _ (s : Session) => Unfailing capacity s.2)
    (fun _ _ _ c h => unfailing_deliver h c) h calls

/-! ## What was uploaded -/

/-- What the chunks supply in front of `total`, address by address. -/
def uploaded (chunks : List Chunk) (total : Nat) : Bytes :=
  (List.range total).filterMap (supplied chunks)

/-- Chunks without a gap supply a byte at every address. -/
theorem uploaded_eq_stretch (gapless : Gapless chunks total) :
    uploaded chunks total = stretch (fun a => (supplied chunks a).getD 0) 0 total := by
  rw [uploaded, stretch, ← List.filterMap_eq_map]
  refine List.filterMap_congr fun a ha => ?_
  obtain ⟨b, hb⟩ := Option.isSome_iff_exists.mp (gapless a (List.mem_range.mp ha))
  rw [Function.comp_apply, Nat.zero_add, hb, Option.getD_some]

/-- A memory that shows the chunks behind an enabling status byte holds what was uploaded, but for
that byte. -/
theorem stretch_eq_uploaded {contents : Nat → UInt8} (gapless : Gapless chunks total)
    (status : contents 0 = statusEnabled)
    (shows : ∀ a, 1 ≤ a → contents a = overlay m.byteAt chunks a) :
    stretch contents 0 total = (uploaded chunks total).set 0 statusEnabled := by
  refine List.ext_getElem? fun a => ?_
  rw [uploaded_eq_stretch gapless, List.getElem?_set, length_stretch, getElem?_stretch,
    getElem?_stretch, Nat.zero_add]
  cases a with
  | zero => rw [if_pos rfl, status]
  | succ a =>
    rw [if_neg (Nat.succ_ne_zero a).symm]
    split
    · rename_i ha
      obtain ⟨b, hb⟩ := Option.isSome_iff_exists.mp (gapless (a + 1) ha)
      rw [shows (a + 1) (Nat.le_add_left 1 a), overlay, hb, Option.getD_some, Option.getD_some]
    · rfl

/-! ## After an upload -/

/-- **A chunk that completes an upload** leaves a program of the announced length, enabled, and behind
the status byte all chunks over the old bytes. -/
theorem Underway.shows_of_complete (h : Underway m total source chunks s) {c : Chunk}
    {after : Session} (complete : deliver s c = (.ok .complete, after)) :
    Holds after.2 total ∧ after.2.byteAt 0 = statusEnabled ∧
      ∀ a, 1 ≤ a → after.2.byteAt a = overlay m.byteAt (chunks ++ [c]) a := by
  have step := delivered h c
  rw [complete] at step
  cases step with
  | complete _ _ hholds hstatus hshows => exact ⟨hholds, hstatus, hshows⟩

/-- **A complete upload**, whatever chunks came before the last, leaves a memory that refuses nothing
and holds a program of the announced length, enabled, with all accepted chunks over the old bytes. -/
theorem shows_of_complete (h : Unfailing capacity m)
    (begun : begin open? m total source = (.ok (), s)) {calls : List Chunk} {last : Chunk}
    {after : Session} (complete : deliver (runAll deliver s calls).2 last = (.ok .complete, after)) :
    Unfailing capacity after.2 ∧ after.2.programLength = total ∧ after.2.byteAt 0 = statusEnabled ∧
      ∀ a, 1 ≤ a → after.2.byteAt a = overlay m.byteAt (accepted s (calls ++ [last])) a := by
  have opened := underway_of_begin h.takes begun
  have hmin := opened.minLength_le
  unfold minLength at hmin
  have unfailing := unfailing_deliver (unfailing_runAll (unfailing_begin h begun) calls) last
  rw [complete] at unfailing
  have hchunks : accepted s (calls ++ [last]) = accepted s calls ++ [last] := by
    rw [accepted_append, accepted, complete]
    rfl
  rcases opened.closed_or_shows calls with hclosed | hunderway
  · -- a chunk completes nothing when no upload is open
    rw [deliver, hclosed] at complete
    cases complete
  · obtain ⟨hholds, hstatus, hshows⟩ := hunderway.shows_of_complete complete
    rw [hchunks]
    exact ⟨unfailing, (programLength_eq_iff (by omega)).mpr hholds, hstatus, hshows⟩

/-- **The checksum is exact.** On a memory that refuses nothing, the first bytes of any number are
summed if the image has them and 16-bit addresses reach the whole image, and otherwise the sum of any
bytes at all is out of bounds. A peer that asks is always told the length of the stored program and
the sum of just that many bytes. After a complete upload this is the announced length, and if the
accepted chunks have no gap, the bytes that are summed are the uploaded ones, the first of them
replaced by the status byte of a program that may run. -/
theorem checksum_exact (h : Unfailing capacity m) :
    (∀ length, m.programSum length =
      if length = 0 ∨ length ≤ capacity ∧ capacity ≤ 65536 then .ok (additiveSum (m.slice 0 length))
      else .error .outOfBounds) ∧
    m.Tells m.programLength (m.slice 0 m.programLength) ∧
    (m.slice 0 m.programLength).length = m.programLength ∧
    ∀ (open? : Option Upload) (total : Nat) (source : Channel) (s after : Session)
      (calls : List Chunk) (last : Chunk), begin open? m total source = (.ok (), s) →
      deliver (runAll deliver s calls).2 last = (.ok .complete, after) →
      after.2.Tells total (after.2.slice 0 total) ∧ (after.2.slice 0 total).length = total ∧
      (Gapless (accepted s (calls ++ [last])) total →
        after.2.slice 0 total =
          (uploaded (accepted s (calls ++ [last])) total).set 0 statusEnabled) := by
  refine ⟨ProgramMemory.programSum_eq h, ProgramMemory.tells_program h,
    ProgramMemory.length_program m, ?_⟩
  intro open? total source s after calls last begun complete
  obtain ⟨unfailing, hlength, hstatus, hshows⟩ := shows_of_complete h begun complete
  have htells := ProgramMemory.tells_program unfailing
  have hsummed := ProgramMemory.length_program after.2
  have hprogram := ProgramMemory.slice_program after.2
  rw [hlength] at htells hsummed hprogram
  refine ⟨htells, hsummed, fun gapless => ?_⟩
  rw [hprogram, stretch_eq_uploaded gapless hstatus hshows]

/-- An upload of eight bytes to an erased memory. -/
def blank : Session := (begin none (.erased 8) 8 .usb).2

/-- Chunks that come out of order, with the status of a program that may not run. -/
def reordered : List Chunk := [⟨4, [0, 7]⟩, ⟨0, [0, 1, 0, 6]⟩]

theorem checksum_of_reordered :
    Unfailing 8 (.erased 8) ∧ begin none (.erased 8) 8 .usb = (.ok (), blank) ∧
      ∃ after, deliver (runAll deliver blank reordered).2 ⟨6, [0, 0]⟩ = (.ok .complete, after) ∧
        Gapless (accepted blank (reordered ++ [⟨6, [0, 0]⟩])) 8 ∧
        after.2.Tells 8 [0x5A, 1, 0, 6, 0, 7, 0, 0] := by
  have unfailing : Unfailing 8 (.erased 8) := ProgramMemory.unfailing_erased 8
  have begun : begin none (.erased 8) 8 .usb = (.ok (), blank) := rfl
  have gapless : Gapless (accepted blank (reordered ++ [⟨6, [0, 0]⟩])) 8 := by
    unfold Gapless
    decide
  have huploaded : (uploaded (accepted blank (reordered ++ [⟨6, [0, 0]⟩])) 8).set 0 statusEnabled =
      [0x5A, 1, 0, 6, 0, 7, 0, 0] := by decide
  obtain ⟨-, -, -, uploads⟩ := checksum_exact unfailing
  obtain ⟨htells, -, hslice⟩ := uploads none 8 .usb blank _ reordered ⟨6, [0, 0]⟩ begun rfl
  rw [hslice gapless, huploaded] at htells
  exact ⟨unfailing, begun, _, rfl, gapless, htells⟩

/-- An image that 16-bit addresses do not reach has no sum, not even that of its first byte. -/
theorem oversized_image_unsummed :
    Unfailing 65537 (.erased 65537) ∧ 1 ≤ (ProgramMemory.erased 65537).capacity ∧
      (ProgramMemory.erased 65537).programSum 1 = .error .outOfBounds := by
  have unfailing := ProgramMemory.unfailing_erased 65537
  refine ⟨unfailing, ?_, ?_⟩
  · rw [unfailing.capacity_eq]
    decide
  · rw [ProgramMemory.programSum_eq unfailing]
    exact if_neg (by decide)

end Upload

end RoomControl
