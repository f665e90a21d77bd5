import RoomControl.Run
import RoomControl.Proofs.Program.Layout
import RoomControl.Proofs.Program.Upload

/-!
# An upload lays its chunks over the old bytes

On a memory that takes every write, an upload is a sequence of chunks put down over what was stored
before: where chunks overlap the later one shows, and where none reaches the old byte stays.
`overlay` says so for a list of chunks. `Underway` is the invariant of an open upload, which still
keeps the first two bytes of the memory to itself, and `Delivered` what one more chunk makes of it.
From these follow two results. `overlay_of_chunks` tells what the memory shows during and after an
upload whose last chunk ends at the announced length. `complete_shows` tells what an upload that was
answered as complete has stored: not always what was sent, since the end of one chunk is all that
shows that nothing is missing (`gap_completes`).
-/

set_option autoImplicit false

namespace RoomControl.Upload

/-! ## Chunks -/

/-- A piece of a program. -/
structure Chunk where
  addr : Nat
  data : Bytes
  deriving DecidableEq

/-- The address behind a chunk. -/
def Chunk.stop (c : Chunk) : Nat := c.addr + c.data.length

/-- What the last of the chunks that reach an address puts there. -/
def supplied : List Chunk → Nat → Option UInt8
  | [], _ => none
  | c :: rest, a => (supplied rest a).or (placed c.addr c.data a)

/-- The chunks over the old bytes. The old number of states does not show through. -/
def overlay (old : Nat → UInt8) (chunks : List Chunk) (a : Nat) : UInt8 :=
  (supplied chunks a).getD (if a = 1 then 0 else old a)

theorem supplied_append (first second : List Chunk) (a : Nat) :
    supplied (first ++ second) a = (supplied second a).or (supplied first a) := by
  induction first with
  | nil => simp [supplied]
  | cons c rest ih => rw [List.cons_append, supplied, ih, supplied, Option.or_assoc]

theorem supplied_concat (chunks : List Chunk) (c : Chunk) (a : Nat) :
    supplied (chunks ++ [c]) a = (placed c.addr c.data a).or (supplied chunks a) := by
  rw [supplied_append]
  rfl

/-- An address is supplied when one of the chunks reaches it. -/
theorem isSome_supplied_iff {chunks : List Chunk} {a : Nat} :
    (supplied chunks a).isSome ↔ ∃ c ∈ chunks, c.addr ≤ a ∧ a < c.stop := by
  induction chunks with
  | nil => exact ⟨nofun, nofun⟩
  | cons c rest ih =>
    have hplaced : (placed c.addr c.data a).isSome ↔ c.addr ≤ a ∧ a < c.stop := by
      rw [Option.isSome_iff_ne_none, Ne, placed_eq_none_iff, Chunk.stop]
      omega
    rw [supplied, Option.isSome_or, Bool.or_eq_true, ih, hplaced]
    constructor
    · rintro (⟨c', hc, hin⟩ | hin)
      · exact ⟨c', List.mem_cons_of_mem _ hc, hin⟩
      · exact ⟨c, List.mem_cons_self .., hin⟩
    · rintro ⟨c', hc, hin⟩
      rcases List.mem_cons.mp hc with rfl | hc
      · exact .inr hin
      · exact .inl ⟨c', hc, hin⟩

/-- Chunks that end by `total` supply nothing from there on. -/
theorem supplied_eq_none {chunks : List Chunk} {total a : Nat} (h : ∀ c ∈ chunks, c.stop ≤ total)
    (ha : total ≤ a) : supplied chunks a = none := by
  rw [← Option.not_isSome_iff_eq_none, isSome_supplied_iff]
  rintro ⟨c, hc, -, hstop⟩
  have := h c hc
  omega

/-- Chunks that end by `total` leave the old bytes from there on. -/
theorem overlay_of_le {old : Nat → UInt8} {chunks : List Chunk} {total a : Nat}
    (h : ∀ c ∈ chunks, c.stop ≤ total) (hmin : minLength ≤ total) (ha : total ≤ a) :
    overlay old chunks a = old a := by
  unfold minLength at hmin
  have hne : a ≠ 1 := by omega
  rw [overlay, supplied_eq_none h ha, Option.getD_none, if_neg hne]

/-! ## Delivering chunks -/

/-- An upload beside the memory that it writes to. -/
abbrev Session := Option Upload × ProgramMemory

/-- One chunk arrives. -/
def deliver (s : Session) (c : Chunk) : Except TransferError ChunkOutcome × Session :=
  chunk s.1 s.2 c.addr c.data

/-- A program of this length is stored. -/
def Holds (m : ProgramMemory) (total : Nat) : Prop :=
  ∃ layout, Layout.read m = .ok layout ∧ layout.length = total

theorem programLength_eq_iff {m : ProgramMemory} {total : Nat} (h : 0 < total) :
    m.programLength = total ↔ Holds m total := by
  unfold ProgramMemory.programLength Holds
  cases Layout.read m with
  | error e => exact ⟨fun h' => absurd h' (Nat.ne_of_lt h), nofun⟩
  | ok layout => exact ⟨fun h' => ⟨layout, rfl, h'⟩, fun ⟨_, hread, h'⟩ => by cases hread; exact h'⟩

/-- The upload of `total` bytes over the memory `m` is open, and the chunks have been taken. -/
structure Underway (m : ProgramMemory) (total : Nat) (source : Channel) (chunks : List Chunk)
    (s : Session) : Prop where
  upload_eq : s.1 = some { total, source, heldCount := (supplied chunks 1).getD 0 }
  minLength_le : minLength ≤ total
  covers : s.2.Covers 0 total
  takes : s.2.writesLeft = none
  status : s.2.byteAt 0 = statusDisabled
  count : s.2.byteAt 1 = 0
  body : ∀ a, heldLength ≤ a → s.2.byteAt a = (supplied chunks a).getD (m.byteAt a)

theorem underway_of_begin {open? : Option Upload} {m : ProgramMemory} {total : Nat}
    {source : Channel} {s : Session} (takes : m.writesLeft = none)
    (h : begin open? m total source = (.ok (), s)) : Underway m total source [] s := by
  have begun := begun_begin open? m total source
  rw [h] at begun
  cases begun with
  | opened hmin hmax hwrite =>
    have written := ProgramMemory.written_of_write hwrite
    have hcapacity : total ≤ m.capacity := Nat.le_trans hmax (Nat.min_le_left ..)
    refine ⟨rfl, hmin, ?_, ?_, ?_, ?_, fun a ha => ?_⟩
    · refine ⟨?_, ?_⟩
      · rw [written.capacity_eq, Nat.zero_add]
        exact hcapacity
      · rw [written.capacity_eq]
        exact written.covers.2
    · rw [written.writesLeft_eq, takes, Option.map_none]
    · rw [written.byteAt_eq]
      rfl
    · rw [written.byteAt_eq]
      rfl
    · exact written.byteAt_of_le ha

/-! ## One more chunk -/

/-- What one more chunk makes of an upload that is open. -/
inductive Delivered (m : ProgramMemory) (total : Nat) (source : Channel) (chunks : List Chunk)
    (s : Session) (c : Chunk) : Except TransferError ChunkOutcome × Session → Prop
  | outOfRange : ¬ (c.data ≠ [] ∧ c.stop ≤ total) →
      Delivered m total source chunks s c (.error .outOfRange, s)
  | stored {s' : Session} : c.data ≠ [] → c.stop < total →
      Underway m total source (chunks ++ [c]) s' →
      Delivered m total source chunks s c (.ok .stored, s')
  | complete {after : ProgramMemory} : c.data ≠ [] → c.stop = total → Holds after total →
      after.byteAt 0 = statusEnabled →
      (∀ a, 1 ≤ a → after.byteAt a = overlay m.byteAt (chunks ++ [c]) a) →
      Delivered m total source chunks s c (.ok .complete, none, after)
  | invalid {after : ProgramMemory} : c.data ≠ [] → c.stop = total → ¬ Holds after total →
      after.byteAt 0 = statusDisabled →
      (∀ a, 1 ≤ a → after.byteAt a = overlay m.byteAt (chunks ++ [c]) a) →
      Delivered m total source chunks s c (.error .invalidProgram, none, after)

section Step

variable {m : ProgramMemory} {total : Nat} {source : Channel} {chunks : List Chunk} {s : Session}

/-- The held number of states is the one supplied last. -/
theorem hold_eq (c : Chunk) :
    hold { total, source, heldCount := (supplied chunks 1).getD 0 } c.addr c.data =
      { total, source, heldCount := (supplied (chunks ++ [c]) 1).getD 0 } := by
  rw [supplied_concat]
  unfold hold placed
  split
  · dsimp only
    cases hget : c.data[1 - c.addr]? with
    | none => rw [List.getD_eq_getElem?_getD, hget, Option.getD_none, Option.none_or]
    | some b =>
      rw [List.getD_eq_getElem?_getD, hget, Option.getD_some, Option.some_or, Option.getD_some]
  · rw [Option.none_or]

/-- **A chunk that is stored** lies over what the upload had before. -/
theorem Underway.store (h : Underway m total source chunks s) {c : Chunk} {m' : ProgramMemory}
    (stored : Stored s.2 c.addr c.data m') :
    Underway m total source (chunks ++ [c])
      (some { total, source, heldCount := (supplied (chunks ++ [c]) 1).getD 0 }, m') := by
  refine ⟨rfl, h.minLength_le, ?_, stored.takes h.takes, ?_, ?_, fun a ha => ?_⟩
  · simpa only [ProgramMemory.Covers, stored.capacity_eq] using h.covers
  · rw [stored.header 0 (by decide), h.status]
  · rw [stored.header 1 (by decide), h.count]
  · rw [stored.body a ha, h.body a ha, supplied_concat]
    cases placed c.addr c.data a with
    | none => rfl
    | some b => rfl

/-- Setting the status byte leaves the program as it is. -/
theorem holds_of_written {m m' : ProgramMemory} {status : UInt8} (h : m.Written 0 [status] m')
    (total : Nat) : Holds m' total ↔ Holds m total := by
  have hsize : m'.size = m.size := by simp only [ProgramMemory.size, h.capacity_eq]
  have hread : Layout.read m' = Layout.read m :=
    Layout.read_congr (fun addr n haddr => h.read_eq haddr) hsize
  rw [Holds, Holds, hread]

/-- With the number of states put down, the memory shows the whole overlay. -/
theorem Underway.byteAt_of_written (h : Underway m total source chunks s) {m' : ProgramMemory}
    (written : s.2.Written 1 [(supplied chunks 1).getD 0] m') {a : Nat} (ha : 1 ≤ a) :
    m'.byteAt a = overlay m.byteAt chunks a := by
  unfold overlay
  by_cases heq : a = 1
  · subst heq
    rw [written.byteAt_eq, placed_cons, if_pos rfl, if_pos rfl]
    rfl
  · have hbody : heldLength ≤ a := by
      unfold heldLength
      omega
    rw [written.byteAt_of_le hbody, h.body a hbody, if_neg heq]

/-- **Closing an upload** puts down the number of states, and enables the program when it is as
long as announced. -/
theorem Underway.finish (h : Underway m total source chunks s) {u : Upload} (hu : s.1 = some u) :
    ∃ after : ProgramMemory, (∀ a, 1 ≤ a → after.byteAt a = overlay m.byteAt chunks a) ∧
      ((Holds after total ∧ after.byteAt 0 = statusEnabled ∧
          u.finish s.2 = (.ok .complete, after)) ∨
        (¬ Holds after total ∧ after.byteAt 0 = statusDisabled ∧
          u.finish s.2 = (.error .invalidProgram, after))) := by
  have hopen := h.upload_eq
  rw [hu] at hopen
  cases hopen
  have hmin := h.minLength_le
  unfold minLength at hmin
  have hin := h.covers.1
  have hcount : s.2.Covers 1 [(supplied chunks 1).getD 0].length :=
    ⟨by simp only [List.length_singleton]; omega, h.covers.2⟩
  obtain ⟨closed, hwrite⟩ := ProgramMemory.write_of_covers h.takes hcount
  have written := ProgramMemory.written_of_write hwrite
  have hshows : ∀ a, 1 ≤ a → closed.byteAt a = overlay m.byteAt chunks a :=
    fun a ha => h.byteAt_of_written written ha
  have hlength : closed.programLength = total ↔ Holds closed total :=
    programLength_eq_iff (by omega)
  unfold Upload.finish
  rw [hwrite]
  dsimp only
  by_cases hholds : Holds closed total
  · rw [if_neg (not_not_intro (hlength.mpr hholds))]
    have hstatus : closed.Covers 0 [statusEnabled].length := by
      refine ⟨?_, ?_⟩
      · rw [written.capacity_eq, List.length_singleton]
        omega
      · rw [written.capacity_eq]
        exact h.covers.2
    have takes : closed.writesLeft = none := by
      rw [written.writesLeft_eq, h.takes, Option.map_none]
    obtain ⟨enabled, hwrite'⟩ := ProgramMemory.write_of_covers takes hstatus
    have written' := ProgramMemory.written_of_write hwrite'
    rw [hwrite']
    refine ⟨enabled, fun a ha => ?_, .inl ⟨?_, ?_, rfl⟩⟩
    · rw [written'.byteAt_of_le ha, hshows a ha]
    · exact (holds_of_written written' total).mpr hholds
    · rw [written'.byteAt_eq]
      rfl
  · rw [if_pos fun heq => hholds (hlength.mp heq)]
    refine ⟨closed, hshows, .inr ⟨hholds, ?_, rfl⟩⟩
    rw [written.byteAt_of_lt Nat.zero_lt_one, h.status]

/-- **The step of an upload.** -/
theorem delivered (h : Underway m total source chunks s) (c : Chunk) :
    Delivered m total source chunks s c (deliver s c) := by
  have taken := taken_chunk s.1 s.2 c.addr c.data
  rw [← deliver, h.upload_eq] at taken
  generalize deliver s c = r at taken
  cases taken with
  | outOfRange hrange =>
    rw [← h.upload_eq]
    exact .outOfRange hrange
  | failed hrange hstore =>
    have hcovers : s.2.Covers c.addr c.data.length := by
      have hstop : c.addr + c.data.length ≤ total := hrange.2
      have htotal := h.covers.1
      exact ⟨by omega, h.covers.2⟩
    obtain ⟨m', hstore'⟩ := store_of_covers h.takes hcovers
    rw [hstore'] at hstore
    cases hstore
  | stored hrange hstop hstore =>
    rw [hold_eq]
    exact .stored hrange.1 hstop (h.store (stored_of_store hstore))
  | finished hrange hstop hstore =>
    rw [hold_eq]
    obtain ⟨after, hshows, hend⟩ := (h.store (stored_of_store hstore)).finish rfl
    dsimp only at hend
    rcases hend with ⟨hholds, hstatus, heq⟩ | ⟨hholds, hstatus, heq⟩
    · rw [heq]
      exact .complete hrange.1 hstop hholds hstatus hshows
    · rw [heq]
      exact .invalid hrange.1 hstop hholds hstatus hshows

end Step

/-! ## A whole upload -/

section Upload

variable {m : ProgramMemory} {total : Nat} {source : Channel} {chunks : List Chunk} {s : Session}

/-- Chunks that end before `total` are all stored. -/
theorem Underway.deliverAll (h : Underway m total source chunks s) {calls : List Chunk}
    (inside : ∀ c ∈ calls, c.data ≠ [] ∧ c.stop < total) :
    (∀ answer ∈ (runAll deliver s calls).1, answer = .ok .stored) ∧
      Underway m total source (chunks ++ calls) (runAll deliver s calls).2 := by
  induction calls generalizing s chunks with
  | nil =>
    rw [List.append_nil]
    exact ⟨nofun, h⟩
  | cons c rest ih =>
    obtain ⟨hdata, hstop⟩ := inside c (List.mem_cons_self ..)
    have step := delivered h c
    rw [runAll_cons]
    generalize deliver s c = r at step
    cases step with
    | outOfRange hrange => exact absurd ⟨hdata, Nat.le_of_lt hstop⟩ hrange
    | complete _ hend => omega
    | invalid _ hend => omega
    | stored _ _ next =>
      obtain ⟨hanswers, hunderway⟩ := ih next fun c hc => inside c (List.mem_cons_of_mem _ hc)
      refine ⟨fun answer ha => ?_, ?_⟩
      · rcases List.mem_cons.mp ha with rfl | ha
        · rfl
        · exact hanswers answer ha
      · rw [List.append_assoc] at hunderway
        exact hunderway

/-- **An upload is an overlay.** Chunks that are not empty and end inside the announced length come
in any order, and only the last ends at it. Until that one comes the memory keeps a disabled program
without states, and behind these two bytes it shows the chunks over its old bytes. Then the upload
is closed and the memory shows the whole overlay, with nothing changed from the announced length on;
the program is enabled exactly when one of that length is stored. -/
theorem overlay_of_chunks {open? : Option Upload} {before : List Chunk} {last : Chunk}
    (takes : m.writesLeft = none) (begun : begin open? m total source = (.ok (), s))
    (inside : ∀ c ∈ before, c.data ≠ [] ∧ c.stop < total)
    (ends : last.data ≠ [] ∧ last.stop = total) :
    (∀ early, early <+: before →
      let (answers, upload, memory) := runAll deliver s early
      (∀ answer ∈ answers, answer = .ok .stored) ∧ upload.isSome ∧
        memory.byteAt 0 = statusDisabled ∧ memory.byteAt 1 = 0 ∧
        ∀ a, 2 ≤ a → memory.byteAt a = overlay m.byteAt early a) ∧
      let (answer, upload, memory) := deliver (runAll deliver s before).2 last
      upload = none ∧
        (∀ a, 1 ≤ a → memory.byteAt a = overlay m.byteAt (before ++ [last]) a) ∧
        (∀ a, total ≤ a → memory.byteAt a = m.byteAt a) ∧
        (answer = .ok .complete ∧ memory.byteAt 0 = statusEnabled ↔ Holds memory total) ∧
        (¬ Holds memory total →
          answer = .error .invalidProgram ∧ memory.byteAt 0 = statusDisabled) := by
  have opened := underway_of_begin takes begun
  refine ⟨fun early hearly => ?_, ?_⟩
  · obtain ⟨hanswers, hunderway⟩ := opened.deliverAll fun c hc => inside c (hearly.subset hc)
    refine ⟨hanswers, ?_, hunderway.status, hunderway.count, fun a ha => ?_⟩
    · rw [hunderway.upload_eq]
      rfl
    · have hne : a ≠ 1 := by omega
      rw [hunderway.body a ha, overlay, if_neg hne]
      rfl
  · obtain ⟨-, hunderway⟩ := opened.deliverAll inside
    rw [List.nil_append] at hunderway
    have hstops : ∀ c ∈ before ++ [last], c.stop ≤ total := by
      intro c hc
      rcases List.mem_append.mp hc with hc | hc
      · exact Nat.le_of_lt (inside c hc).2
      · obtain rfl := List.mem_singleton.mp hc
        exact Nat.le_of_eq ends.2
    have hpos : 1 ≤ total := Nat.le_trans (by decide) opened.minLength_le
    have step := delivered hunderway last
    generalize deliver (runAll deliver s before).2 last = r at step
    cases step with
    | outOfRange hrange => exact absurd ⟨ends.1, Nat.le_of_eq ends.2⟩ hrange
    | stored _ hstop => omega
    | complete _ _ hholds hstatus hshows =>
      refine ⟨rfl, hshows, fun a ha => ?_, ⟨fun _ => hholds, fun _ => ⟨rfl, hstatus⟩⟩,
        fun hnot => absurd hholds hnot⟩
      rw [hshows a (Nat.le_trans hpos ha), overlay_of_le hstops opened.minLength_le ha]
    | invalid _ _ hholds hstatus hshows =>
      refine ⟨rfl, hshows, fun a ha => ?_, ⟨fun h => absurd h.1 nofun, fun h => absurd h hholds⟩,
        fun _ => ⟨rfl, hstatus⟩⟩
      rw [hshows a (Nat.le_trans hpos ha), overlay_of_le hstops opened.minLength_le ha]

/-- Chunks that overlap, one of them across the end of the held bytes, complete a program. -/
theorem overlay_of_overlapping_chunks :
    (deliver (runAll deliver (begin none (.erased 10) 8 .usb).2
      [⟨4, [7, 7, 0]⟩, ⟨1, [1, 0, 6, 0]⟩, ⟨0, [0]⟩]).2 ⟨5, [7, 0, 0]⟩).1 = .ok .complete := by
  have begun : begin none (.erased 10) 8 .usb = (.ok (), (begin none (.erased 10) 8 .usb).2) := rfl
  have inside : ∀ c ∈ ([⟨4, [7, 7, 0]⟩, ⟨1, [1, 0, 6, 0]⟩, ⟨0, [0]⟩] : List Chunk),
      c.data ≠ [] ∧ c.stop < 8 := by decide
  have ends : (⟨5, [7, 0, 0]⟩ : Chunk).data ≠ [] ∧ (⟨5, [7, 0, 0]⟩ : Chunk).stop = 8 := by decide
  have h := (overlay_of_chunks rfl begun inside ends).2
  exact (h.2.2.2.1.mpr ⟨⟨1, 7, 8⟩, rfl, rfl⟩).1

end Upload

/-! ## Uploads with gaps -/

/-- The chunks that are accepted, in order. -/
def accepted (s : Session) : List Chunk → List Chunk
  | [] => []
  | c :: rest =>
    match (deliver s c).1 with
    | .ok _ => c :: accepted (deliver s c).2 rest
    | .error _ => accepted (deliver s c).2 rest

/-- The chunks reach every address of the program. -/
def Gapless (chunks : List Chunk) (total : Nat) : Prop :=
  ∀ a, a < total → (supplied chunks a).isSome

section Gaps

variable {m : ProgramMemory} {total : Nat} {source : Channel} {chunks : List Chunk} {s : Session}

theorem accepted_append (s : Session) (first second : List Chunk) :
    accepted s (first ++ second) =
      accepted s first ++ accepted (runAll deliver s first).2 second := by
  induction first generalizing s with
  | nil => rfl
  | cons c rest ih =>
    rw [List.cons_append, accepted, accepted, runAll_cons]
    cases (deliver s c).1 with
    | error e => exact ih _
    | ok outcome => exact congrArg (c :: ·) (ih _)

/-- An upload that is closed stays closed. -/
theorem runAll_of_closed (m : ProgramMemory) (calls : List Chunk) :
    (runAll deliver (none, m) calls).2 = (none, m) := by
  induction calls with
  | nil => rfl
  | cons c rest ih => exact ih

/-- Whatever chunks come, an upload is closed or shows the ones that were accepted. -/
theorem Underway.closed_or_shows (h : Underway m total source chunks s) (calls : List Chunk) :
    (runAll deliver s calls).2.1 = none ∨
      Underway m total source (chunks ++ accepted s calls) (runAll deliver s calls).2 := by
  induction calls generalizing s chunks with
  | nil =>
    rw [accepted, List.append_nil]
    exact .inr h
  | cons c rest ih =>
    have step := delivered h c
    rw [runAll_cons, accepted]
    generalize deliver s c = r at step
    cases step with
    | outOfRange => exact ih h
    | stored _ _ next =>
      have hrest := ih next
      rw [List.append_assoc] at hrest
      exact hrest
    | complete => exact .inl (by rw [runAll_of_closed])
    | invalid => exact .inl (by rw [runAll_of_closed])

/-- **What a completed upload has stored.** Whatever chunks come: when the last is answered as
complete, a program of the announced length is stored and enabled, and it is the accepted chunks over
the old bytes. It is the program that was sent, each address supplied and each byte behind the status
the one supplied last, exactly when the accepted chunks have no gap. -/
theorem complete_shows {open? : Option Upload} (takes : m.writesLeft = none)
    (begun : begin open? m total source = (.ok (), s)) {calls : List Chunk} {last : Chunk}
    (complete : (deliver (runAll deliver s calls).2 last).1 = .ok .complete) :
    let memory := (deliver (runAll deliver s calls).2 last).2.2
    let chunks := accepted s (calls ++ [last])
    Holds memory total ∧ memory.byteAt 0 = statusEnabled ∧
      (∀ a, 1 ≤ a → memory.byteAt a = overlay m.byteAt chunks a) ∧
      (Gapless chunks total ↔ (∀ a, a < total → ∃ c ∈ chunks, c.addr ≤ a ∧ a < c.stop) ∧
        ∀ a, 1 ≤ a → a < total → supplied chunks a = some (memory.byteAt a)) := by
  have hchunks : accepted s (calls ++ [last]) = accepted s calls ++ [last] := by
    rw [accepted_append, accepted, complete]
    rfl
  rw [hchunks]
  rcases (underway_of_begin takes begun).closed_or_shows calls with hclosed | hunderway
  · rw [deliver, hclosed] at complete
    cases complete
  · rw [List.nil_append] at hunderway
    have step := delivered hunderway last
    generalize deliver (runAll deliver s calls).2 last = r at step complete
    cases step with
    | outOfRange => cases complete
    | stored => cases complete
    | invalid => cases complete
    | complete _ _ hholds hstatus hshows =>
      refine ⟨hholds, hstatus, hshows, fun gapless => ⟨fun a ha => ?_, fun a hpos ha => ?_⟩,
        fun h a ha => ?_⟩
      · exact isSome_supplied_iff.mp (gapless a ha)
      · obtain ⟨b, hb⟩ := Option.isSome_iff_exists.mp (gapless a ha)
        rw [hshows a hpos, overlay, hb, Option.getD_some]
      · exact isSome_supplied_iff.mpr (h.1 a ha)

/-- Chunks without a gap are stored as they were sent, in whatever order. -/
theorem complete_shows_reordered :
    Holds (deliver (runAll deliver (begin none (.erased 8) 8 .usb).2
      [⟨4, [0, 7]⟩, ⟨0, [0, 1, 0, 6]⟩]).2 ⟨6, [0, 0]⟩).2.2 8 := by
  have begun : begin none (.erased 8) 8 .usb = (.ok (), (begin none (.erased 8) 8 .usb).2) := rfl
  have complete : (deliver (runAll deliver (begin none (.erased 8) 8 .usb).2
      [⟨4, [0, 7]⟩, ⟨0, [0, 1, 0, 6]⟩]).2 ⟨6, [0, 0]⟩).1 = .ok .complete := rfl
  exact (complete_shows rfl begun complete).1

/-- **A gap may go unnoticed.** Two chunks of an eight byte program arrive and five bytes are
missing. The upload is complete all the same, since the program that was stored before fills the
gap. -/
theorem gap_completes :
    let m : ProgramMemory := { image := #[0x5A, 1, 0, 6, 0, 7, 0, 0] }
    let s : Session := (begin none m 8 .usb).2
    begin none m 8 .usb = (.ok (), s) ∧
      (deliver (runAll deliver s [⟨0, [0x5A, 1]⟩]).2 ⟨7, [0]⟩).1 = .ok .complete ∧
      ¬ ∃ c ∈ accepted s ([⟨0, [0x5A, 1]⟩] ++ [⟨7, [0]⟩]), c.addr ≤ 2 ∧ 2 < c.stop := by
  exact ⟨rfl, rfl, by decide⟩

end Gaps

end RoomControl.Upload
