import RoomControl.Proofs.Program.Overlay

/-!
# Transfers that come twice

A transfer that comes a second time finds the memory and the upload as it left them, and changes
nothing (`begin_again`, `chunk_again`). More than that: a chunk changes nothing exactly when it is
redundant, that is, out of range, or a repetition that ends before the upload does
(`deliver_eq_self_iff`).
-/

set_option autoImplicit false

namespace RoomControl

namespace Upload

variable {open? : Option Upload} {m m' : ProgramMemory} {addr : Nat} {data : Bytes}

/-! ## A memory that takes every write -/

theorem takes_begin (takes : m.writesLeft = none) (open? : Option Upload) (total : Nat)
    (source : Channel) : (begin open? m total source).2.2.writesLeft = none :=
  keeps_begin (fun _ _ _ _ => ProgramMemory.takes_of_write) takes open? total source

theorem takes_chunk (takes : m.writesLeft = none) (open? : Option Upload) (addr : Nat)
    (data : Bytes) : (chunk open? m addr data).2.2.writesLeft = none :=
  keeps_chunk (fun _ _ _ _ => ProgramMemory.takes_of_write) takes open? addr data

/-! ## A second time -/

theorem hold_hold (u : Upload) (addr : Nat) (data : Bytes) :
    (u.hold addr data).hold addr data = u.hold addr data := by
  unfold hold
  split
  · rw [List.getD_eq_getElem?_getD, List.getD_eq_getElem?_getD]
    cases data[1 - addr]? with
    | none => rfl
    | some b => rfl
  · rfl

@[simp] theorem total_hold (u : Upload) (addr : Nat) (data : Bytes) :
    (u.hold addr data).total = u.total := by
  unfold hold
  split
  · rfl
  · rfl

theorem store_again (takes : m.writesLeft = none) (h : store m addr data = .ok m') :
    store m' addr data = .ok m' := by
  unfold store at h ⊢
  split at h
  · rfl
  · exact ProgramMemory.write_again takes h

/-- **An announcement that comes again** changes nothing. -/
theorem begin_again (takes : m.writesLeft = none) (open? : Option Upload) (total : Nat)
    (source : Channel) :
    begin (begin open? m total source).2.1 (begin open? m total source).2.2 total source =
      begin open? m total source := by
  by_cases hlength : total < minLength ∨ total > m.size
  · have hfirst : begin open? m total source = (.error .invalidLength, open?, m) := if_pos hlength
    rw [hfirst]
    exact hfirst
  · cases hwrite : m.write 0 [statusDisabled, 0] with
    | error e =>
      have hfails : ∀ open?, begin open? m total source = (.error (.memory e), none, m) := by
        intro open?
        rw [begin, if_neg hlength, hwrite]
      rw [hfails]
      exact hfails none
    | ok m' =>
      have hsize : m'.size = m.size := by
        simp only [ProgramMemory.size, (ProgramMemory.written_of_write hwrite).capacity_eq]
      have hfirst : begin open? m total source = (.ok (), some { total, source }, m') := by
        rw [begin, if_neg hlength, hwrite]
      rw [hfirst]
      dsimp only
      rw [begin, hsize, if_neg hlength, ProgramMemory.write_again takes hwrite]

/-- An announcement that was refused while no upload was open, or has failed, leaves everything alone
as long as the memory does not grow. -/
theorem begin_of_capacity (takes : m.writesLeft = none) {total : Nat} {source : Channel}
    (h : (begin none m total source).2 = (none, m)) (hcapacity : m'.capacity = m.capacity) :
    ∃ e, begin none m' total source = (.error e, none, m') := by
  have hsize : m'.size = m.size := by simp only [ProgramMemory.size, hcapacity]
  have begun := begun_begin none m' total source
  generalize hlater : begin none m' total source = later at begun
  cases begun with
  | refused _ => exact ⟨_, rfl⟩
  | failed e => exact ⟨_, rfl⟩
  | opened hmin hmax hwrite =>
    -- then it would have been taken the first time
    have covers := (ProgramMemory.written_of_write hwrite).covers
    rw [ProgramMemory.Covers, hcapacity] at covers
    obtain ⟨m₁, hfirst⟩ := ProgramMemory.write_of_covers takes covers
    have hlength : ¬ (total < minLength ∨ total > m.size) := by omega
    rw [begin, if_neg hlength, hfirst] at h
    cases h

/-- A chunk that is in range, but does not close the upload. -/
theorem chunk_of_range {u : Upload} (hrange : u.InRange addr data) :
    (∀ e, store m addr data = .error e →
      chunk (some u) m addr data = (.error (.memory e), some (u.hold addr data), m)) ∧
    (addr + data.length < u.total → ∀ m', store m addr data = .ok m' →
      chunk (some u) m addr data = (.ok .stored, some (u.hold addr data), m')) := by
  have hin : ¬ (data = [] ∨ addr + data.length > u.total) := by
    rintro (hempty | hpast)
    · exact hrange.1 hempty
    · have := hrange.2
      omega
  refine ⟨fun e hstore => ?_, fun hstop m' hstore => ?_⟩
  · simp only [chunk, if_neg hin, hstore]
  · simp only [chunk, if_neg hin, hstore, total_hold, if_pos hstop]

/-- The chunk that completes an upload closes it. -/
theorem upload_of_complete {open? upload : Option Upload} {m m' : ProgramMemory} {addr : Nat}
    {data : Bytes} (h : chunk open? m addr data = (.ok .complete, upload, m')) : upload = none := by
  have taken := taken_chunk open? m addr data
  rw [h] at taken
  generalize hanswer : (Except.ok ChunkOutcome.complete, upload, m') = answer at taken
  cases taken with
  | finished _ _ _ => exact congrArg (·.2.1) hanswer
  | closed => cases hanswer
  | outOfRange _ => cases hanswer
  | failed _ _ => cases hanswer
  | stored _ _ _ => cases hanswer

/-- **A chunk that comes again** changes nothing. -/
theorem chunk_again (takes : m.writesLeft = none) (open? : Option Upload) (addr : Nat)
    (data : Bytes) :
    (chunk (chunk open? m addr data).2.1 (chunk open? m addr data).2.2 addr data).2 =
      (chunk open? m addr data).2 := by
  have taken := taken_chunk open? m addr data
  generalize hfirst : chunk open? m addr data = first at taken
  cases taken with
  | closed => rfl
  | outOfRange _ => rw [hfirst]
  | @failed u e hrange hstore =>
    have hrange' : (u.hold addr data).InRange addr data := by
      rw [InRange, total_hold]
      exact hrange
    dsimp only
    rw [(chunk_of_range hrange').1 e hstore, hold_hold]
  | @stored u m' hrange hstop hstore =>
    have hrange' : (u.hold addr data).InRange addr data := by
      rw [InRange, total_hold]
      exact hrange
    have hstop' : addr + data.length < (u.hold addr data).total := by
      rw [total_hold]
      exact hstop
    dsimp only
    rw [(chunk_of_range hrange').2 hstop' m' (store_again takes hstore), hold_hold]
  | finished _ _ _ => rfl

/-! ## What a chunk repeats -/

/-- The upload and the memory have all that a chunk brings, but for the status byte, which plays no
part. -/
structure Repeats (u : Upload) (m : ProgramMemory) (c : Chunk) : Prop where
  count : ∀ b ∈ placed c.addr c.data 1, u.heldCount = b
  body : ∀ a, heldLength ≤ a → ∀ b ∈ placed c.addr c.data a, m.byteAt a = b

theorem stop_of_placed {c : Chunk} {a : Nat} {b : UInt8} (h : b ∈ placed c.addr c.data a) :
    a < c.stop := by
  by_cases hbehind : c.addr + c.data.length ≤ a
  · rw [placed_eq_none_iff.mpr (.inr hbehind)] at h
    cases h
  · exact Nat.lt_of_not_le hbehind

theorem repeats_iff {u : Upload} {m : ProgramMemory} {c : Chunk} :
    Repeats u m c ↔ (placed c.addr c.data 1).all (u.heldCount = ·) ∧
      ∀ a ∈ List.range c.stop, heldLength ≤ a → (placed c.addr c.data a).all (m.byteAt a = ·) := by
  simp only [Option.all_eq_true, decide_eq_true_eq, List.mem_range]
  refine ⟨fun h => ⟨h.count, fun a _ => h.body a⟩, fun h => ⟨h.1, fun a ha b hb => ?_⟩⟩
  exact h.2 a (stop_of_placed hb) ha b hb

instance (u : Upload) (m : ProgramMemory) (c : Chunk) : Decidable (Repeats u m c) :=
  decidable_of_iff _ repeats_iff.symm

/-- A chunk that an open upload does not need: it is out of range, or ends before the upload does and
brings what is there. -/
def Redundant (s : Session) (c : Chunk) : Prop :=
  ∀ u ∈ s.1, ¬ (c.data ≠ [] ∧ c.stop ≤ u.total) ∨ c.stop < u.total ∧ Repeats u s.2 c

instance (s : Session) (c : Chunk) : Decidable (Redundant s c) :=
  inferInstanceAs (Decidable (∀ _ ∈ _, _))

theorem hold_eq_self_iff {u : Upload} {addr : Nat} {data : Bytes} :
    u.hold addr data = u ↔ ∀ b ∈ placed addr data 1, u.heldCount = b := by
  unfold hold placed
  split
  · rw [List.getD_eq_getElem?_getD]
    cases data[1 - addr]? with
    | none => exact iff_of_true rfl nofun
    | some b =>
      refine ⟨fun h b' hb => ?_, fun h => ?_⟩
      · cases hb
        exact (congrArg heldCount h).symm
      · rw [Option.getD_some, ← h b rfl]
  · exact iff_of_true rfl nofun

theorem store_eq_self_iff {m : ProgramMemory} {addr : Nat} {data : Bytes}
    (takes : m.writesLeft = none) (covers : m.Covers addr data.length) :
    store m addr data = .ok m ↔
      ∀ a, heldLength ≤ a → ∀ b ∈ placed addr data a, m.byteAt a = b := by
  refine ⟨fun h a ha b hplaced => ?_, fun h => ?_⟩
  · rw [(stored_of_store h).body a ha, hplaced, Option.getD_some]
  · unfold store
    cases hdrop : data.drop (heldLength - addr) with
    | nil => rfl
    | cons b rest =>
      have hfront : max addr heldLength = addr + (heldLength - addr) := by omega
      have hlength : heldLength - addr ≤ data.length := by
        have := congrArg List.length hdrop
        rw [List.length_drop, List.length_cons] at this
        omega
      dsimp only
      rw [← hdrop, hfront]
      refine ProgramMemory.write_of_shows takes ⟨?_, covers.2⟩ fun a b hplaced => ?_
      · have := covers.1
        rw [List.length_drop]
        omega
      · have hbehind : addr + (heldLength - addr) ≤ a := by
          by_cases hbefore : a < addr + (heldLength - addr)
          · rw [placed_eq_none_iff.mpr (.inl hbefore)] at hplaced
            cases hplaced
          · omega
        rw [placed_drop hbehind] at hplaced
        exact h a (by omega) b hplaced

/-- **Which chunks change nothing.** While an upload is open, a chunk leaves it and the memory as they
are exactly when it is redundant. -/
theorem deliver_eq_self_iff {m : ProgramMemory} {total : Nat} {source : Channel}
    {chunks : List Chunk} {s : Session} (h : Underway m total source chunks s) (c : Chunk) :
    (deliver s c).2 = s ↔ Redundant s c := by
  obtain ⟨open?, memory⟩ := s
  obtain ⟨u, rfl⟩ : ∃ u, open? = some u := ⟨_, h.upload_eq⟩
  have htotal : u.total = total := by
    have hopen := Option.some.inj h.upload_eq
    rw [hopen]
  have hredundant : Redundant (some u, memory) c ↔
      ¬ (c.data ≠ [] ∧ c.stop ≤ u.total) ∨ c.stop < u.total ∧ Repeats u memory c :=
    ⟨fun h => h u rfl, fun h v hv => Option.some.inj hv ▸ h⟩
  have covers : c.data ≠ [] ∧ c.stop ≤ total → memory.Covers c.addr c.data.length := by
    intro hrange
    have hstop : c.addr + c.data.length ≤ total := hrange.2
    have hin : 0 + total ≤ memory.capacity := h.covers.1
    exact ⟨by omega, h.covers.2⟩
  have taken := taken_chunk (some u) memory c.addr c.data
  unfold deliver
  generalize chunk (some u) memory c.addr c.data = answer at taken
  rw [← htotal] at covers
  rw [hredundant]
  cases taken with
  | outOfRange hrange => exact iff_of_true rfl (.inl hrange)
  | failed hrange hstore =>
    obtain ⟨m', hstored⟩ := store_of_covers h.takes (covers hrange)
    rw [hstored] at hstore
    cases hstore
  | @stored _ m' hrange hstop hstore =>
    refine ⟨fun hsame => .inr ⟨hstop, ?_⟩, fun hnothing => ?_⟩
    · obtain ⟨hhold, rfl⟩ := Prod.mk.inj hsame
      exact ⟨hold_eq_self_iff.mp (Option.some.inj hhold),
        (store_eq_self_iff h.takes (covers hrange)).mp hstore⟩
    · rcases hnothing with hout | ⟨-, hrepeats⟩
      · exact absurd hrange hout
      · have hkept := (store_eq_self_iff h.takes (covers hrange)).mpr hrepeats.body
        rw [hkept] at hstore
        cases hstore
        exact Prod.ext (congrArg some (hold_eq_self_iff.mpr hrepeats.count)) rfl
  | finished hrange hend _ =>
    refine iff_of_false (fun hsame => ?_) fun hnothing => ?_
    · cases congrArg Prod.fst hsame
    · rcases hnothing with hout | ⟨hstop, -⟩
      · exact hout hrange
      · have hend : c.stop = u.total := hend
        omega

end Upload

end RoomControl
