import Mathlib.Control.Monad.Basic
import RoomControl.Proofs.Node.Guarded
import RoomControl.Proofs.Node.Leftovers
import RoomControl.Proofs.Node.Stopped
import RoomControl.Proofs.Node.Transfers

/-!
# Whose chunks an upload takes

An upload remembers the channel that it was announced on: it is given up when the peer of that channel
is gone, and the loss of the other peer leaves it alone. A chunk is taken all the same from whoever
sends it. One from the other channel leaves the upload and the memory as they are only if it is
redundant; else it stands in the program, and may even complete it (`upload_takes_any_chunk`,
`stranger_completes_upload`).

Over a history in which one upload stays open, the memory shows the chunks of both channels, in the
order in which they came. Where all that the other channel sends is redundant it shows as well what
the own channel has sent, and nothing else. `underway_after` says both at once, for the chunks of the
channels that count.
-/

set_option autoImplicit false

namespace RoomControl

open Upload (Chunk Session Underway Redundant deliver overlay)

namespace Upload

/-- The upload is as it was or given up, and the memory holds what it held. -/
structure Rests (s t : Session) : Prop where
  upload : t.1 = s.1 ∨ t.1 = none
  image : t.2.image = s.2.image

theorem Rests.refl (s : Session) : Rests s s := ⟨.inl rfl, rfl⟩

/-- An upload that rests and is not given up is underway as before. -/
theorem Underway.rest {m : ProgramMemory} {total : Nat} {source : Channel} {chunks : List Chunk}
    {s t : Session} (h : Underway m total source chunks s) (rests : Rests s t)
    (stays : t.1.isSome = true) (takes : t.2.writesLeft = none) :
    Underway m total source chunks t := by
  have hbyte : t.2.byteAt = s.2.byteAt := by
    unfold ProgramMemory.byteAt
    rw [rests.image]
  have hcovers : t.2.Covers 0 total ↔ s.2.Covers 0 total := by
    unfold ProgramMemory.Covers ProgramMemory.capacity
    rw [rests.image]
  refine ⟨?_, h.minLength_le, hcovers.mpr h.covers, takes, ?_, ?_, fun a ha => ?_⟩
  · rcases rests.upload with hsame | hnone
    · exact hsame.trans h.upload_eq
    · rw [hnone] at stays
      cases stays
  · rw [hbyte, h.status]
  · rw [hbyte, h.count]
  · rw [hbyte, h.body a ha]

end Upload

namespace Station

variable {β : Type}

/-! ## What a stimulus asks of the upload -/

/-- What a stimulus asks of the upload, with the channel that it is asked on. -/
def askedBy (s : Station β) (stimulus : Stimulus β) : Option (Channel × Transfer) :=
  (s.taking stimulus).bind fun (_, c, bytes) => (Message.transferIn? bytes).map (c, ·)

/-- The upload that a stimulus announces. -/
def announcedBy (s : Station β) (stimulus : Stimulus β) : Option (Channel × Nat) :=
  match s.askedBy stimulus with
  | some (c, .announce total) => some (c, total)
  | _ => none

/-- The piece of a program that a stimulus brings. -/
def suppliedBy (s : Station β) (stimulus : Stimulus β) : Option (Channel × Chunk) :=
  match s.askedBy stimulus with
  | some (c, .supply piece) => some (c, piece)
  | _ => none

theorem asked_of_announced {s : Station β} {stimulus : Stimulus β} {c : Channel} {total : Nat}
    (h : s.announcedBy stimulus = some (c, total)) :
    s.askedBy stimulus = some (c, .announce total) := by
  unfold announcedBy at h
  split at h
  · rename_i hasked
    cases h
    exact hasked
  · cases h

theorem asked_of_supplied {s : Station β} {stimulus : Stimulus β} {c : Channel} {piece : Chunk}
    (h : s.suppliedBy stimulus = some (c, piece)) :
    s.askedBy stimulus = some (c, .supply piece) := by
  unfold suppliedBy at h
  split at h
  · rename_i hasked
    cases h
    exact hasked
  · cases h

/-- The pieces that the open upload takes, with the channels they come on. -/
def chunksBy (s : Station β) (stimulus : Stimulus β) : List (Channel × Chunk) :=
  (s.suppliedBy stimulus).toList.filter fun (_, piece) =>
    s.node.upload.any fun u => piece.data ≠ [] ∧ piece.stop ≤ u.total

variable [Peripherals β]

def chunksDuring (s : Station β) : List (Stimulus β) → List (Channel × Chunk)
  | [] => []
  | stimulus :: rest => s.chunksBy stimulus ++ (s.react stimulus).chunksDuring rest

theorem chunksDuring_append (s : Station β) (first second : List (Stimulus β)) :
    s.chunksDuring (first ++ second) =
      s.chunksDuring first ++ (s.after first).chunksDuring second := by
  induction first generalizing s with
  | nil => rfl
  | cons stimulus rest ih =>
    rw [List.cons_append, chunksDuring, chunksDuring, ih, List.append_assoc]
    rfl

/-- **What is asked for is done**, whoever asks. -/
theorem session_of_asked {s : Station β} {stimulus : Stimulus β} {c : Channel} {asked : Transfer}
    (h : s.askedBy stimulus = some (c, asked)) :
    (s.react stimulus).session = Transfer.apply c s.session (some asked) := by
  obtain ⟨⟨v, d, bytes⟩, htaking, hmap⟩ := Option.bind_eq_some_iff.mp h
  obtain ⟨asked', hasked, hpair⟩ := Option.map_eq_some_iff.mp hmap
  cases hpair
  rw [session_of_taking htaking, hasked]

section Rest

variable {s : Station β}

omit [Peripherals β] in
/-- Giving up the upload of a channel. -/
theorem rests_dropPeer (s : Station β) (c : Channel) :
    Upload.Rests s.session (s.withNode (s.node.dropPeer c)).session := by
  refine ⟨?_, rfl⟩
  show (Upload.abortFrom s.node.upload c).2 = s.node.upload ∨
    (Upload.abortFrom s.node.upload c).2 = none
  unfold Upload.abortFrom
  split
  · exact .inr rfl
  · exact .inl rfl

/-- A byte from the module that completes no message. -/
theorem rests_radio {byte : UInt8} (h : s.taking (.radio byte) = none) :
    Upload.Rests s.session (s.react (.radio byte)).session := by
  simp only [taking] at h
  simp only [react, receiveRadio]
  generalize s.node.radio.receive s.radioWire byte = step at h
  split
  · exact .refl _
  · rename_i event hresult
    cases event with
    | data bytes => simp only [hresult, reduceCtorEq] at h
    | disconnected => exact rests_dropPeer { s with node := { s.node with radio := step.radio } } _
    | _ => exact .refl _
  · exact .refl _
  · exact .refl _

theorem rests_usb {byte : UInt8} (h : s.taking (.usb byte) = none) :
    Upload.Rests s.session (s.react (.usb byte)).session := by
  simp only [taking] at h
  simp only [react, receiveUsb]
  generalize s.node.usb.feed byte = fed at h
  obtain ⟨received, usb⟩ := fed
  split
  · exact .refl _
  · exact .refl _
  · rename_i frame hreceived
    simp only at hreceived
    subst hreceived
    split
    · rename_i hopcode
      simp only [if_pos hopcode, reduceCtorEq] at h
    · exact .refl _

theorem rests_of_quiet {stimulus : Stimulus β} (hstop : ¬ s.node.machine.IsRunning)
    (h : s.taking stimulus = none) : Upload.Rests s.session (s.react stimulus).session := by
  cases stimulus with
  | radio byte => exact rests_radio h
  | usb byte => exact rests_usb h
  | usbActive active =>
    cases active with
    | true => exact .refl _
    | false => exact rests_dropPeer s .usb
  | tick inputs extensions =>
    have hsession : (s.tick inputs extensions).2.session = s.session := by
      rw [(tick_of_stopped hstop inputs extensions).2.2]
      exact session_of_programming (programming_beforeProgram s extensions)
    show Upload.Rests s.session (s.tick inputs extensions).2.session
    rw [hsession]
    exact .refl _
  | _ => exact ⟨.inl rfl, rfl⟩

/-- **When nothing is asked of the upload** it rests, as long as the machine does not run. -/
theorem rests_of_unasked {stimulus : Stimulus β} (hstop : ¬ s.node.machine.IsRunning)
    (h : s.askedBy stimulus = none) : Upload.Rests s.session (s.react stimulus).session := by
  cases htaking : s.taking stimulus with
  | none => exact rests_of_quiet hstop htaking
  | some taken =>
    obtain ⟨v, c, bytes⟩ := taken
    have hasked : Message.transferIn? bytes = none := by
      rw [askedBy, htaking] at h
      exact Option.map_eq_none_iff.mp h
    rw [session_of_taking htaking, hasked]
    exact .refl _

end Rest

/-! ## One upload -/

/-- The upload stays open behind a stimulus: it is not given up, closed or begun anew. The memory
goes on taking its writes. -/
structure GoesOn (s : Station β) (stimulus : Stimulus β) : Prop where
  stays : (s.react stimulus).node.upload.isSome = true
  same : ∀ announced ∈ s.announcedBy stimulus,
    announced.2 < Upload.minLength ∨ s.memory.size < announced.2
  takes : (s.react stimulus).memory.writesLeft = none

instance (s : Station β) (stimulus : Stimulus β) : Decidable (s.GoesOn stimulus) :=
  decidable_of_iff
    ((s.react stimulus).node.upload.isSome = true ∧
      (∀ announced ∈ s.announcedBy stimulus,
        announced.2 < Upload.minLength ∨ s.memory.size < announced.2) ∧
      (s.react stimulus).memory.writesLeft = none)
    ⟨fun h => ⟨h.1, h.2.1, h.2.2⟩, fun h => ⟨h.stays, h.same, h.takes⟩⟩

/-- What a channel that does not count brings is redundant. -/
def Spares (own : Channel → Bool) (s : Station β) (stimulus : Stimulus β) : Prop :=
  ∀ supplied ∈ s.suppliedBy stimulus, own supplied.1 = false → Redundant s.session supplied.2

instance (own : Channel → Bool) (s : Station β) (stimulus : Stimulus β) :
    Decidable (s.Spares own stimulus) :=
  inferInstanceAs (Decidable (∀ _ ∈ _, _ → _))

/-- The pieces of the channels that count. -/
def piecesOf (own : Channel → Bool) (chunks : List (Channel × Chunk)) : List Chunk :=
  (chunks.filter fun chunk => own chunk.1).map Prod.snd

@[simp] theorem piecesOf_nil (own : Channel → Bool) : piecesOf own [] = [] := rfl

@[simp] theorem piecesOf_singleton (own : Channel → Bool) (c : Channel) (piece : Chunk) :
    piecesOf own [(c, piece)] = if own c then [piece] else [] := by
  cases hcounts : own c with
  | true => simp [piecesOf, hcounts]
  | false => simp [piecesOf, hcounts]

theorem piecesOf_append (own : Channel → Bool) (first second : List (Channel × Chunk)) :
    piecesOf own (first ++ second) = piecesOf own first ++ piecesOf own second := by
  simp [piecesOf]

/-- Where every channel counts, nothing has to be redundant. -/
theorem spares_all (s : Station β) (history : List (Stimulus β)) :
    s.Throughout (Spares fun _ => true) history := by
  induction history generalizing s with
  | nil => trivial
  | cons stimulus rest ih => exact ⟨fun supplied hmem hother => (nomatch hother), ih _⟩

section Upload

variable {m : ProgramMemory} {total : Nat} {source : Channel} {chunks : List Chunk}
variable {s : Station β} {stimulus : Stimulus β}

omit [Peripherals β] in
theorem chunksBy_of_supplied (h : Underway m total source chunks s.session) {c : Channel}
    {piece : Chunk} (hsupplied : s.suppliedBy stimulus = some (c, piece)) :
    s.chunksBy stimulus = if piece.data ≠ [] ∧ piece.stop ≤ total then [(c, piece)] else [] := by
  have hupload : s.node.upload = _ := h.upload_eq
  simp only [chunksBy, hsupplied, hupload, Option.toList_some, Option.any_some, List.filter_cons,
    List.filter_nil, decide_eq_true_eq]

/-- An announcement that is refused leaves the upload alone, as everything does that brings no chunk. -/
theorem rests_of_unsupplied (hstop : ¬ s.node.machine.IsRunning) (goesOn : s.GoesOn stimulus)
    (h : s.suppliedBy stimulus = none) : Upload.Rests s.session (s.react stimulus).session := by
  cases hasked : s.askedBy stimulus with
  | none => exact rests_of_unasked hstop hasked
  | some asked =>
    obtain ⟨c, asked⟩ := asked
    cases asked with
    | announce length =>
      have hannounced : s.announcedBy stimulus = some (c, length) := by rw [announcedBy, hasked]
      have hlength : length < Upload.minLength ∨ length > s.session.2.size :=
        goesOn.same _ hannounced
      rw [session_of_asked hasked, Transfer.apply, Upload.begin, if_pos hlength]
      exact .refl _
    | supply piece =>
      rw [suppliedBy, hasked] at h
      cases h

omit [Peripherals β] in
/-- A chunk that is taken and leaves the upload open lies over what the upload had before. -/
theorem underway_of_delivered (h : Underway m total source chunks s.session) {piece : Chunk}
    (stays : (deliver s.session piece).2.1.isSome = true) :
    Underway m total source
      (chunks ++ if piece.data ≠ [] ∧ piece.stop ≤ total then [piece] else [])
      (deliver s.session piece).2 := by
  have step := Upload.delivered h piece
  generalize deliver s.session piece = answer at step stays
  cases step with
  | outOfRange hrange =>
    rw [if_neg hrange, List.append_nil]
    exact h
  | stored hdata hend next =>
    rw [if_pos ⟨hdata, Nat.le_of_lt hend⟩]
    exact next
  | complete => cases stays
  | invalid => cases stays

/-- **One step of an upload.** The chunks that count lie over what the upload had before. -/
theorem underway_react {own : Channel → Bool} (guarded : s.programming.Guarded)
    (h : Underway m total source chunks s.session) (goesOn : s.GoesOn stimulus)
    (spares : s.Spares own stimulus) :
    Underway m total source (chunks ++ piecesOf own (s.chunksBy stimulus))
      (s.react stimulus).session := by
  cases hsupplied : s.suppliedBy stimulus with
  | none =>
    have hnothing : s.chunksBy stimulus = [] := by
      rw [chunksBy, hsupplied]
      rfl
    have hstop : ¬ s.node.machine.IsRunning := guarded.not_running h.upload_eq
    rw [hnothing, piecesOf_nil, List.append_nil]
    exact h.rest (rests_of_unsupplied hstop goesOn hsupplied) goesOn.stays goesOn.takes
  | some supplied =>
    obtain ⟨c, piece⟩ := supplied
    have hsession : (s.react stimulus).session = (deliver s.session piece).2 :=
      session_of_asked (asked_of_supplied hsupplied)
    have hstays : (deliver s.session piece).2.1.isSome = true := by
      rw [← hsession]
      exact goesOn.stays
    rw [chunksBy_of_supplied h hsupplied, hsession]
    have hpieces : piecesOf own (if piece.data ≠ [] ∧ piece.stop ≤ total then [(c, piece)] else []) =
        if own c then if piece.data ≠ [] ∧ piece.stop ≤ total then [piece] else [] else [] := by
      split
      · rw [piecesOf_singleton]
      · rw [piecesOf_nil, ite_self]
    rw [hpieces]
    by_cases hcounts : own c = true
    · rw [if_pos hcounts]
      exact underway_of_delivered h hstays
    · -- what does not count is redundant
      have hother : own c = false := Bool.eq_false_iff.mpr hcounts
      have hsame := (Upload.deliver_eq_self_iff h piece).mpr (spares _ hsupplied hother)
      rw [if_neg hcounts, hsame, List.append_nil]
      exact h

/-- **A whole upload.** While it stays open, the memory shows the chunks of the channels that count,
when all others bring what is redundant. -/
theorem underway_after {own : Channel → Bool} (guarded : s.programming.Guarded)
    (h : Underway m total source chunks s.session) {history : List (Stimulus β)}
    (goesOn : s.Throughout GoesOn history) (spares : s.Throughout (Spares own) history) :
    Underway m total source (chunks ++ piecesOf own (s.chunksDuring history))
      (s.after history).session := by
  induction history generalizing s chunks with
  | nil =>
    show Underway m total source (chunks ++ []) s.session
    rw [List.append_nil]
    exact h
  | cons stimulus rest ih =>
    have next := underway_react guarded h goesOn.1 spares.1
    have guarded' := Programming.guarded_of_step _ _ guarded (s.step_react stimulus)
    have hrest := ih guarded' next goesOn.2 spares.2
    rw [List.append_assoc] at hrest
    rw [chunksDuring, piecesOf_append]
    exact hrest

/-- **How an upload is completed.** The stored program is enabled by a chunk that ends at the announced
length, of whatever channel, and shows it over what the upload had before. -/
theorem completed_of_enabled (guarded : s.programming.Guarded)
    (h : Underway m total source chunks s.session)
    (enabled : (s.react stimulus).status = statusEnabled) :
    ∃ c piece, s.suppliedBy stimulus = some (c, piece) ∧ piece.data ≠ [] ∧ piece.stop = total ∧
      ∀ a, 1 ≤ a →
        (s.react stimulus).memory.byteAt a = overlay m.byteAt (chunks ++ [piece]) a := by
  have hstop : ¬ s.node.machine.IsRunning := guarded.not_running h.upload_eq
  have hdisabled : s.session.2.byteAt 0 ≠ statusEnabled := ProgramMemory.not_enabled h.status
  have enabled : (s.react stimulus).session.2.byteAt 0 = statusEnabled := enabled
  show ∃ c piece, _ ∧ _ ∧ _ ∧ ∀ a, 1 ≤ a → (s.react stimulus).session.2.byteAt a = _
  cases hasked : s.askedBy stimulus with
  | none =>
    have hkept := (rests_of_unasked hstop hasked).image
    rw [ProgramMemory.byteAt, hkept] at enabled
    exact absurd enabled hdisabled
  | some asked =>
    obtain ⟨c, asked⟩ := asked
    have hsession := session_of_asked hasked
    cases asked with
    | announce length =>
      rw [hsession, Transfer.apply] at enabled
      have begun := Upload.begun_begin s.session.1 s.session.2 length c
      generalize Upload.begin s.session.1 s.session.2 length c = answer at begun enabled
      cases begun with
      | refused _ => exact absurd enabled hdisabled
      | failed _ => exact absurd enabled hdisabled
      | opened _ _ hwrite =>
        have hstatus := (ProgramMemory.written_of_write hwrite).byteAt_eq 0
        exact absurd enabled (ProgramMemory.not_enabled hstatus)
    | supply piece =>
      have hsupplied : s.suppliedBy stimulus = some (c, piece) := by rw [suppliedBy, hasked]
      rw [hsession, Transfer.apply] at enabled ⊢
      refine ⟨c, piece, hsupplied, ?_⟩
      have step := Upload.delivered h piece
      generalize deliver s.session piece = answer at step enabled
      cases step with
      | outOfRange _ => exact absurd enabled hdisabled
      | stored _ _ next => exact absurd enabled (ProgramMemory.not_enabled next.status)
      | invalid _ _ _ hstatus _ => exact absurd enabled (ProgramMemory.not_enabled hstatus)
      | complete hdata hend _ _ hshows => exact ⟨hdata, hend, hshows⟩

/-- **What an upload has stored when it is complete**: the chunks of the channels that count, when all
others bring what is redundant. -/
theorem shows_of_enabled {own : Channel → Bool} (guarded : s.programming.Guarded)
    (h : Underway m total source [] s.session) {history : List (Stimulus β)}
    (goesOn : s.Throughout GoesOn history)
    (spares : s.Throughout (Spares own) (history ++ [stimulus]))
    (enabled : ((s.after history).react stimulus).status = statusEnabled) :
    ∀ a, 1 ≤ a → ((s.after history).react stimulus).memory.byteAt a =
      overlay m.byteAt (piecesOf own (s.chunksDuring (history ++ [stimulus]))) a := by
  obtain ⟨sparesBefore, sparesLast, -⟩ := throughout_append.mp spares
  have guarded' : (s.after history).programming.Guarded :=
    programming_after Programming.guarded_of_step _ guarded history
  have underway := underway_after guarded h goesOn sparesBefore
  rw [List.nil_append] at underway
  obtain ⟨d, piece, hsupplied, hdata, hend, hshows⟩ := completed_of_enabled guarded' underway enabled
  -- no channel that does not count brings the end
  have hcounts : own d = true := by
    cases hother : own d with
    | true => rfl
    | false =>
      have hredundant := sparesLast _ hsupplied hother
      have hlast : piece.stop < total := by
        rcases hredundant _ underway.upload_eq with hout | ⟨hbefore, -⟩
        · exact absurd ⟨hdata, Nat.le_of_eq hend⟩ hout
        · exact hbefore
      omega
  have hlast : piecesOf own ((s.after history).chunksDuring [stimulus]) = [piece] := by
    rw [chunksDuring, chunksDuring, List.append_nil, chunksBy_of_supplied underway hsupplied,
      if_pos ⟨hdata, Nat.le_of_eq hend⟩, piecesOf_singleton, if_pos hcounts]
  intro a ha
  rw [chunksDuring_append, piecesOf_append, hlast]
  exact hshows a ha

end Upload

/-- **An upload takes any chunk.** It was announced on a channel, after any history, and is open since;
the memory takes its writes. A chunk is taken in the same way on either channel, and leaves the upload
and the memory as they are exactly when it is redundant. A program that is enabled in the end shows the
chunks of both channels, one over the other; it shows those of the own channel alone when all that
the other has sent was redundant. -/
theorem upload_takes_any_chunk (config : NodeConfig) (image : Array UInt8) (board : β)
    (radioWire usbWire : Wire) (before history : List (Stimulus β)) {stimulus : Stimulus β}
    {c : Channel} {total : Nat} :
    let s := (boot config image board radioWire usbWire).after before
    let t := s.react stimulus
    let u := t.after history
    s.memory.writesLeft = none → s.announcedBy stimulus = some (c, total) →
      (Upload.begin s.node.upload s.memory total c).1 = .ok () → t.Throughout GoesOn history →
      u.node.upload.map Upload.source = some c ∧
        (∀ next d piece, u.suppliedBy next = some (d, piece) →
          (u.react next).session = (deliver u.session piece).2 ∧
            ((u.react next).session = u.session ↔ Redundant u.session piece)) ∧
        ∀ next, (u.react next).status = statusEnabled →
          let chunks := t.chunksDuring (history ++ [next])
          (∀ a, 1 ≤ a → (u.react next).memory.byteAt a =
            overlay s.memory.byteAt (chunks.map Prod.snd) a) ∧
          (t.Throughout (Spares (· = c)) (history ++ [next]) →
            ∀ a, 1 ≤ a → (u.react next).memory.byteAt a =
              overlay s.memory.byteAt (piecesOf (· = c) chunks) a) := by
  intro s t u takes announced accepted goesOn
  have hbefore : s.programming.Guarded := guarded_after config image board radioWire usbWire before
  have guarded : t.programming.Guarded :=
    Programming.guarded_of_step _ _ hbefore (s.step_react stimulus)
  have opened : Underway s.memory total c [] t.session := by
    have hsession : t.session = (Upload.begin s.node.upload s.memory total c).2 :=
      session_of_asked (asked_of_announced announced)
    rw [hsession]
    exact Upload.underway_of_begin takes (Prod.ext accepted rfl)
  have underway := underway_after guarded opened goesOn (t.spares_all history)
  refine ⟨?_, fun next d piece hsupplied => ?_, fun next enabled => ⟨?_, fun spares => ?_⟩⟩
  · have hopen : u.node.upload = _ := underway.upload_eq
    rw [hopen]
    rfl
  · have hsession : (u.react next).session = (deliver u.session piece).2 :=
      session_of_asked (asked_of_supplied hsupplied)
    refine ⟨hsession, ?_⟩
    rw [hsession]
    exact Upload.deliver_eq_self_iff underway piece
  · have hshows := shows_of_enabled guarded opened goesOn (t.spares_all _) enabled
    simp only [piecesOf, List.filter_true] at hshows
    exact hshows
  · exact shows_of_enabled guarded opened goesOn spares enabled

/-- A peer is connected, and the USB host announces a program of eight bytes, up to the last byte. -/
def twoPeers : List (Stimulus Board) :=
  .start :: bringUp ++ connects 0x20 ++ (usbMessage .uploadBegin [0, 8]).dropLast

def announcingHost : Station Board :=
  (boot Radio.hasty (.replicate 64 0xFF) {} {} {}).after twoPeers

/-- Then the host sends half of the program, and the peer two bytes of what the host has sent. -/
def echoingPeer : List (Stimulus Board) :=
  usbMessage .chunk [0, 0, 4, 0x5A, 1, 0, 6] ++ peerSends 0x20 .chunk [0, 2, 2, 0, 6] ++
    (usbMessage .chunk [0, 4, 4, 0, 7, 0, 0]).dropLast

/-- The bytes of a peer that repeats what is there are not needed. -/
theorem repeated_chunk_is_redundant :
    ((announcingHost.react (.usb 0x4D)).chunksDuring (echoingPeer ++ [.usb 0x3B])) =
        [(.usb, ⟨0, [0x5A, 1, 0, 6]⟩), (.bluetooth, ⟨2, [0, 6]⟩), (.usb, ⟨4, [0, 7, 0, 0]⟩)] ∧
      ∀ a, 1 ≤ a →
        (((announcingHost.react (.usb 0x4D)).after echoingPeer).react (.usb 0x3B)).memory.byteAt a =
          overlay announcingHost.memory.byteAt [⟨0, [0x5A, 1, 0, 6]⟩, ⟨4, [0, 7, 0, 0]⟩] a := by
  have htakes : announcingHost.memory.writesLeft = none := by decide +kernel
  have hannounced : announcingHost.announcedBy (.usb 0x4D) = some (.usb, 8) := by decide +kernel
  have haccepted : (Upload.begin announcingHost.node.upload announcingHost.memory 8 .usb).1 =
      .ok () := by decide +kernel
  have hgoesOn : (announcingHost.react (.usb 0x4D)).Throughout GoesOn echoingPeer := by
    decide +kernel
  have hspares : (announcingHost.react (.usb 0x4D)).Throughout (Spares (· = .usb))
      (echoingPeer ++ [.usb 0x3B]) := by decide +kernel
  have henabled : (((announcingHost.react (.usb 0x4D)).after echoingPeer).react
      (.usb 0x3B)).status = statusEnabled := by decide +kernel
  have hchunks : (announcingHost.react (.usb 0x4D)).chunksDuring (echoingPeer ++ [.usb 0x3B]) =
      [(.usb, ⟨0, [0x5A, 1, 0, 6]⟩), (.bluetooth, ⟨2, [0, 6]⟩), (.usb, ⟨4, [0, 7, 0, 0]⟩)] := by
    decide +kernel
  refine ⟨hchunks, ?_⟩
  unfold announcingHost at htakes haccepted
  have any := upload_takes_any_chunk _ _ _ _ _ twoPeers echoingPeer htakes hannounced haccepted
    hgoesOn
  have hshows := (any.2.2 (.usb 0x3B) henabled).2 hspares
  have hown : piecesOf (· = .usb) [(Channel.usb, (⟨0, [0x5A, 1, 0, 6]⟩ : Chunk)),
      (.bluetooth, ⟨2, [0, 6]⟩), (.usb, ⟨4, [0, 7, 0, 0]⟩)] =
        [⟨0, [0x5A, 1, 0, 6]⟩, ⟨4, [0, 7, 0, 0]⟩] := by decide
  intro a ha
  rw [← hown, ← hchunks]
  exact hshows a ha

/-- The host has announced a program and sent half of it. The other half comes from the peer, up to the
last byte. -/
def intruding : Station Board :=
  (announcingHost.react (.usb 0x4D)).after (usbMessage .chunk [0, 0, 4, 0x5A, 1, 0, 6] ++
    (peerSends 0x20 .chunk [0, 4, 4, 0, 7, 0, 0]).dropLast)

/-- **A stranger may complete an upload.** The upload is the host's, and the chunk is the peer's: it
changes the memory, closes the upload and has the program enabled. -/
theorem stranger_completes_upload :
    intruding.node.upload.map Upload.source = some .usb ∧
      intruding.suppliedBy (.radio 0x1A) = some (.bluetooth, ⟨4, [0, 7, 0, 0]⟩) ∧
      (intruding.react (.radio 0x1A)).node.upload = none ∧
      (intruding.react (.radio 0x1A)).memory.byteAt 5 ≠ intruding.memory.byteAt 5 ∧
      (intruding.react (.radio 0x1A)).status = statusEnabled := by
  decide +kernel

end Station

end RoomControl
