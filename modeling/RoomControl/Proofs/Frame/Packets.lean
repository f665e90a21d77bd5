import RoomControl.Frame.TestMode

/-!
# Packets in a stream

Test-mode packets carry no checksum, and an empty one is complete before any payload byte. So it is
the reader's position alone that tells a payload byte from a header. This module says which position
that is, in any stream.

Every stream falls into segments and the beginning of one more (`reads`): a byte that announces
nothing, a packet, an indicator without the event code, a header with too large a length. A segment
is answered at its last byte and leaves the reader between packets (`feedAll_segment`). Every answer
is therefore that of a segment which starts where the reader was between packets, and the other way
round (`segment_of_answer`, `answer_of_segment`); what is returned and what is refused is read off
there (`packets_exact`).

It is not said which packets a stray indicator costs: the segment which it starts may swallow the
beginning of one.
-/

set_option autoImplicit false

namespace RoomControl.TestReader

/-- What the reader makes of one byte: nothing yet, a packet, or an error. -/
abbrev Answer := Except FrameError (Option TestPacket)

/-! ## Segments -/

/-- What the reader takes in from one moment between packets to the next. -/
inductive Segment where
  /-- A byte between packets, which does not announce one. -/
  | filler (byte : UInt8) (other : byte ≠ TestPacket.indicator)
  | packet (p : TestPacket)
  /-- An indicator, and behind it a byte that is not the event code. -/
  | misnamed (code : UInt8) (other : code ≠ TestPacket.eventCode)
  /-- A header that announces more than a payload holds. -/
  | oversized (announced : UInt8) (large : TestPacket.maxPayload < announced.toNat)

namespace Segment

/-- The segment as it stands in the stream. -/
def bytes : Segment → Bytes
  | filler byte _ => [byte]
  | packet p => p.toBytes
  | misnamed code _ => [TestPacket.indicator, code]
  | oversized announced _ => [TestPacket.indicator, TestPacket.eventCode, announced]

/-- The answer to its last byte. -/
def answer : Segment → Answer
  | filler _ _ => .ok none
  | packet p => .ok (some p)
  | misnamed _ _ => .error .invalidPrefix
  | oversized _ _ => .error .payloadTooLarge

/-- The answers to its bytes: nothing before the last. -/
def answers (s : Segment) : List Answer :=
  List.replicate (s.bytes.length - 1) (.ok none) ++ [s.answer]

theorem length_bytes_pos (s : Segment) : 0 < s.bytes.length := by
  cases s <;> simp [bytes, TestPacket.length_toBytes]

@[simp] theorem length_answers (s : Segment) : s.answers.length = s.bytes.length := by
  have := s.length_bytes_pos
  simp only [answers, List.length_append, List.length_replicate, List.length_singleton]
  omega

end Segment

theorem length_answers (segments : List Segment) :
    (segments.flatMap Segment.answers).length = (segments.flatMap Segment.bytes).length := by
  simp [List.length_flatMap]

theorem feedAll_append (reader : TestReader) (first second : Bytes) :
    reader.feedAll (first ++ second) =
      ((reader.feedAll first).1 ++ ((reader.feedAll first).2.feedAll second).1,
        ((reader.feedAll first).2.feedAll second).2) :=
  runAll_append feed reader first second

/-! ## A segment is read as itself -/

theorem toNat_size (payload : Buffer 64) : (UInt8.ofNat payload.size).toNat = payload.size := by
  have := payload.fits
  simp only [Buffer.size, UInt8.toNat_ofNat']
  omega

/-- The bytes of a payload, of which `held` came already. -/
theorem feedAll_payload {p : TestPacket} {rest : Bytes} {held : Buffer 64} (hrest : rest ≠ [])
    (hpayload : p.payload.bytes = held.bytes ++ rest) :
    (payload (UInt8.ofNat p.payload.size) held).feedAll rest =
      (List.replicate (rest.length - 1) (.ok none) ++ [.ok (some p)], idle) := by
  induction rest generalizing held with
  | nil => exact absurd rfl hrest
  | cons byte rest ih =>
    have hsize : p.payload.size = held.size + (rest.length + 1) := by
      simp only [Buffer.size, hpayload, List.length_append, List.length_cons]
    have hroom : held.size < 64 := by
      have hfits : p.payload.size ≤ 64 := p.payload.fits
      omega
    obtain ⟨longer, hpush, hbytes, hlonger⟩ := Buffer.exists_push? hroom byte
    rw [feedAll, runAll_cons]
    simp only [feed, hpush, hlonger, toNat_size]
    cases rest with
    | nil =>
      have hlast : longer = p.payload := Buffer.ext (by rw [hbytes, hpayload])
      have hfull : held.size + 1 = p.payload.size := hsize.symm
      rw [if_pos hfull, hlast]
      rfl
    | cons other rest =>
      have hmore : held.size + 1 ≠ p.payload.size := by
        rw [hsize, List.length_cons]
        omega
      have hnext : p.payload.bytes = longer.bytes ++ other :: rest := by
        simp [hpayload, hbytes]
      have hread := ih (List.cons_ne_nil other rest) hnext
      rw [feedAll] at hread
      rw [if_neg hmore, hread]
      rfl

/-- A header is read up to its length; an empty packet is complete there. -/
theorem feedAll_header (p : TestPacket) :
    feedAll idle [TestPacket.indicator, TestPacket.eventCode, UInt8.ofNat p.payload.size] =
      if p.payload.bytes = [] then (List.replicate 2 (.ok none) ++ [.ok (some p)], idle)
      else (List.replicate 3 (.ok none), payload (UInt8.ofNat p.payload.size) Buffer.empty) := by
  have hfits : ¬ (UInt8.ofNat p.payload.size).toNat > TestPacket.maxPayload := by
    rw [toNat_size]
    exact Nat.not_lt.mpr p.payload.fits
  have hzero : UInt8.ofNat p.payload.size = 0 ↔ p.payload.bytes = [] := by
    rw [← UInt8.toNat_inj, toNat_size]
    exact List.length_eq_zero_iff
  simp only [feedAll, runAll_cons, runAll_nil, feed, if_true, if_neg hfits, hzero]
  split
  next hempty =>
    have hpayload : p.payload = Buffer.empty := Buffer.ext hempty
    rw [← hpayload]
    rfl
  next => rfl

/-- **A segment is read as itself**, and leaves the reader between packets. -/
theorem feedAll_segment (s : Segment) : feedAll idle s.bytes = (s.answers, idle) := by
  cases s with
  | filler byte other =>
    simp [Segment.answers, Segment.bytes, Segment.answer, feedAll, runAll_cons, feed, other]
  | misnamed code other =>
    simp [Segment.answers, Segment.bytes, Segment.answer, feedAll, runAll_cons, feed, other]
  | oversized announced large =>
    simp [Segment.answers, Segment.bytes, Segment.answer, feedAll, runAll_cons, feed, large]
  | packet p =>
    have hsplit : p.toBytes =
        [TestPacket.indicator, TestPacket.eventCode, UInt8.ofNat p.payload.size] ++
          p.payload.bytes := rfl
    have hcount : p.toBytes.length - 1 = p.payload.bytes.length + 2 := by
      rw [p.length_toBytes, Buffer.size]
      omega
    rw [Segment.answers, Segment.bytes, Segment.answer, hcount, hsplit, feedAll_append,
      feedAll_header]
    by_cases hempty : p.payload.bytes = []
    · rw [if_pos hempty, hempty]
      rfl
    · have hpos := List.length_pos_iff.mpr hempty
      have hsum : 3 + (p.payload.bytes.length - 1) = p.payload.bytes.length + 2 := by omega
      have hnone : p.payload.bytes = (Buffer.empty : Buffer 64).bytes ++ p.payload.bytes := rfl
      rw [if_neg hempty, feedAll_payload hempty hnone, ← List.append_assoc,
        List.replicate_append_replicate, hsum]

/-- **A stream of segments is read as these segments.** -/
theorem feedAll_segments (segments : List Segment) :
    feedAll idle (segments.flatMap Segment.bytes) = (segments.flatMap Segment.answers, idle) := by
  induction segments with
  | nil => rfl
  | cons s rest ih =>
    rw [List.flatMap_cons, List.flatMap_cons, feedAll_append, feedAll_segment, ih]

/-! ## What a reader knows -/

/-- The bytes of the packet that has been begun. -/
def begun : TestReader → Bytes
  | idle => []
  | eventCode => [TestPacket.indicator]
  | length => [TestPacket.indicator, TestPacket.eventCode]
  | payload expected held =>
    TestPacket.indicator :: TestPacket.eventCode :: expected :: held.bytes

/-- A payload that has been begun is not complete, and has a length that a payload may have. -/
def Sound : TestReader → Prop
  | idle | eventCode | length => True
  | payload expected held => held.size < expected.toNat ∧ expected.toNat ≤ TestPacket.maxPayload

/-- What a byte does to a reader: it goes on with what was begun, or ends a segment. -/
inductive Fed (reader : TestReader) (byte : UInt8) : Answer × TestReader → Prop
  | taken {next : TestReader} : next.Sound → next.begun = reader.begun ++ [byte] →
      Fed reader byte (.ok none, next)
  | closed (s : Segment) : s.bytes = reader.begun ++ [byte] → Fed reader byte (s.answer, idle)

theorem fed_feed {reader : TestReader} (h : reader.Sound) (byte : UInt8) :
    Fed reader byte (reader.feed byte) := by
  cases reader with
  | idle =>
    rw [feed]
    split
    next hindicator =>
      rw [hindicator]
      exact .taken trivial rfl
    next other => exact .closed (.filler byte other) rfl
  | eventCode =>
    rw [feed]
    split
    next hcode =>
      rw [hcode]
      exact .taken trivial rfl
    next other => exact .closed (.misnamed byte other) rfl
  | length =>
    rw [feed]
    split
    next large => exact .closed (.oversized byte large) rfl
    next hfits =>
      split
      next hzero =>
        subst hzero
        exact .closed (.packet ⟨Buffer.empty⟩) rfl
      next hzero =>
        have hpos : 0 < byte.toNat := Nat.pos_of_ne_zero fun h => hzero (UInt8.toNat_inj.mp h)
        exact .taken ⟨hpos, Nat.not_lt.mp hfits⟩ rfl
  | payload expected held =>
    obtain ⟨hless, hmax⟩ := h
    obtain ⟨longer, hpush, hbytes, hsize⟩ :=
      Buffer.exists_push? (Nat.lt_of_lt_of_le hless hmax) byte
    simp only [feed, hpush]
    split
    next hfull =>
      have hexpected : UInt8.ofNat longer.size = expected := by
        rw [hfull, UInt8.ofNat_toNat]
      refine .closed (.packet ⟨longer⟩) ?_
      simp [Segment.bytes, TestPacket.toBytes, begun, hexpected, hbytes]
    next hmore =>
      refine .taken ⟨?_, hmax⟩ ?_
      · omega
      · simp [begun, hbytes]

/-! ## Any stream -/

/-- The stream is a number of segments, which have been answered as such, and what the reader has
begun since. -/
structure Reads (stream : Bytes) (answers : List Answer) (reader : TestReader) : Prop where
  sound : reader.Sound
  splits : ∃ segments : List Segment, stream = segments.flatMap Segment.bytes ++ reader.begun ∧
    answers =
      segments.flatMap Segment.answers ++ List.replicate reader.begun.length (.ok none)

theorem Reads.feed {stream : Bytes} {answers : List Answer} {reader : TestReader}
    (h : Reads stream answers reader) (byte : UInt8) :
    Reads (stream ++ [byte]) (answers ++ [(reader.feed byte).1]) (reader.feed byte).2 := by
  obtain ⟨sound, segments, hstream, hanswers⟩ := h
  have hfed := fed_feed sound byte
  generalize reader.feed byte = step at hfed ⊢
  cases hfed with
  | taken hnext hbegun =>
    refine ⟨hnext, segments, ?_, ?_⟩
    · rw [hbegun, hstream, List.append_assoc]
    · rw [hbegun, hanswers, List.append_assoc, List.length_append, List.length_singleton,
        List.replicate_succ']
  | closed s hs =>
    refine ⟨trivial, segments ++ [s], ?_, ?_⟩
    · simp [begun, hs, hstream]
    · have hcount : s.bytes.length - 1 = reader.begun.length := by
        simp [hs]
      simp [begun, hanswers, Segment.answers, hcount]

/-- **Every stream falls into segments** and the beginning of one more. -/
theorem reads (stream : Bytes) : Reads stream (feedAll idle stream).1 (feedAll idle stream).2 :=
  have hidle : Reads [] [] idle := ⟨trivial, [], rfl, rfl⟩
  runAll_keeps (fun _ _ _ byte h => h.feed byte) hidle stream

/-- **The reader is between packets where the stream so far is a number of segments.** -/
theorem idle_iff {stream : Bytes} :
    (feedAll idle stream).2 = idle ↔
      ∃ segments : List Segment, stream = segments.flatMap Segment.bytes := by
  constructor
  · intro h
    obtain ⟨-, segments, hstream, -⟩ := reads stream
    rw [h, begun, List.append_nil] at hstream
    exact ⟨segments, hstream⟩
  · rintro ⟨segments, rfl⟩
    rw [feedAll_segments]

/-- An answer is that of the reader, as the bytes before left it, to one byte. -/
theorem exists_of_answer {reader : TestReader} {stream : Bytes} {i : Nat} {a : Answer}
    (h : (reader.feedAll stream).1[i]? = some a) :
    ∃ byte, stream[i]? = some byte ∧ ((reader.feedAll (stream.take i)).2.feed byte).1 = a ∧
      (reader.feedAll (stream.take (i + 1))).2 = ((reader.feedAll (stream.take i)).2.feed byte).2 :=
  exists_of_runAll h

/-- What stands at a position, byte by byte. -/
theorem cons_prefix_drop_iff {stream rest : Bytes} {start : Nat} {byte : UInt8} :
    byte :: rest <+: stream.drop start ↔
      stream[start]? = some byte ∧ rest <+: stream.drop (start + 1) := by
  rw [← List.head?_drop, ← List.tail_drop]
  cases stream.drop start with
  | nil => simp
  | cons first others => simp [List.cons_prefix_cons, eq_comm]

/-- What was answered, was answered to the segments. -/
theorem lt_of_answer {segments : List Segment} {n j : Nat} {a : Answer}
    (h : (segments.flatMap Segment.answers ++ List.replicate n (.ok none))[j]? = some a)
    (ha : a ≠ .ok none) : j < (segments.flatMap Segment.bytes).length := by
  apply Nat.lt_of_not_le
  intro hle
  rw [← length_answers] at hle
  rw [List.getElem?_append_right hle] at h
  exact ha (List.eq_of_mem_replicate (List.mem_of_getElem? h))

/-- **Every answer is that of a segment** which starts where the reader was between packets. What was
answered before, was answered before that segment. -/
theorem segment_of_answer {stream : Bytes} {i : Nat} {a : Answer}
    (h : (feedAll idle stream).1[i]? = some a) (ha : a ≠ .ok none) :
    ∃ (start : Nat) (s : Segment), s.answer = a ∧ start + s.bytes.length = i + 1 ∧
      (feedAll idle (stream.take start)).2 = idle ∧ s.bytes <+: stream.drop start ∧
      (feedAll idle (stream.take (i + 1))).2 = idle ∧
      ∀ j b, j < i → (feedAll idle stream).1[j]? = some b → b ≠ .ok none → j < start := by
  obtain ⟨byte, hbyte, hanswer, hnext⟩ := exists_of_answer h
  obtain ⟨sound, segments, hbefore, hanswers⟩ := reads (stream.take i)
  have hfed := fed_feed sound byte
  rw [hnext]
  generalize (feedAll idle (stream.take i)).2.feed byte = step at hfed hanswer ⊢
  cases hfed with
  | taken _ _ => exact absurd hanswer.symm ha
  | closed s hs =>
    have hlt : i < stream.length := (List.getElem?_eq_some_iff.mp hbyte).1
    have hupto : stream.take (i + 1) = segments.flatMap Segment.bytes ++ s.bytes := by
      rw [List.take_add_one, hbyte, hbefore, hs, List.append_assoc]
      rfl
    have hstream : stream =
        segments.flatMap Segment.bytes ++ (s.bytes ++ stream.drop (i + 1)) := by
      rw [← List.append_assoc, ← hupto, List.take_append_drop]
    refine ⟨(segments.flatMap Segment.bytes).length, s, hanswer, ?_, ?_, ⟨stream.drop (i + 1), ?_⟩,
      rfl, fun j b hj hb hne => ?_⟩
    · rw [← List.length_append, ← hupto, List.length_take]
      omega
    · rw [hstream, List.take_left, feedAll_segments]
    · rw [hstream, List.drop_left, ← hstream]
    · -- the answers up to here are those to the bytes up to here
      have hsplit := feedAll_append idle (stream.take i) (stream.drop i)
      rw [List.take_append_drop] at hsplit
      have hcount : (feedAll idle (stream.take i)).1.length = i := by
        rw [feedAll, length_runAll, List.length_take]
        omega
      rw [hsplit, List.getElem?_append_left (hcount.symm ▸ hj), hanswers] at hb
      exact lt_of_answer hb hne

/-- **A segment is answered** wherever the reader is between packets. -/
theorem answer_of_segment {stream : Bytes} {start : Nat} {s : Segment}
    (hidle : (feedAll idle (stream.take start)).2 = idle) (hs : s.bytes <+: stream.drop start) :
    (feedAll idle stream).1[start + (s.bytes.length - 1)]? = some s.answer := by
  obtain ⟨rest, hrest⟩ := hs
  have hstream : stream = stream.take start ++ (s.bytes ++ rest) := by
    rw [hrest, List.take_append_drop]
  have hcount : (feedAll idle (stream.take start)).1.length = start := by
    have hpos := s.length_bytes_pos
    have hlength := congrArg List.length hrest
    rw [List.length_append, List.length_drop] at hlength
    rw [feedAll, length_runAll, List.length_take]
    omega
  have hanswers := feedAll_append idle (stream.take start) (s.bytes ++ rest)
  rw [← hstream, hidle, feedAll_append, feedAll_segment] at hanswers
  rw [hanswers, List.getElem?_append_right (by omega), hcount, Nat.add_sub_cancel_left]
  simp [Segment.answers]

/-- The byte at this position announces a packet: it is an indicator, and the reader is between
packets. -/
def Announced (stream : Bytes) (start : Nat) : Prop :=
  (feedAll idle (stream.take start)).2 = idle ∧ stream[start]? = some TestPacket.indicator

/-- **A packet is returned where it ends**, and reaches back to before anything else was answered. -/
theorem exists_start_of_packet {stream : Bytes} {i : Nat} {p : TestPacket}
    (h : (feedAll idle stream).1[i]? = some (.ok (some p))) :
    ∃ start, start + p.toBytes.length = i + 1 ∧ p.toBytes <+: stream.drop start ∧
      ∀ j a, j < i → (feedAll idle stream).1[j]? = some a → a ≠ .ok none → j < start := by
  obtain ⟨start, s, hanswer, hlength, -, hstands, -, hbefore⟩ := segment_of_answer h (by simp)
  cases s with
  | packet q =>
    cases hanswer
    exact ⟨start, hlength, hstands, hbefore⟩
  | _ => cases hanswer

/-- **What is refused as a wrong prefix.** -/
theorem invalidPrefix_iff {stream : Bytes} {i : Nat} :
    (feedAll idle stream).1[i]? = some (.error .invalidPrefix) ↔
      ∃ start code, start + 1 = i ∧ Announced stream start ∧
        stream[start + 1]? = some code ∧ code ≠ TestPacket.eventCode := by
  constructor
  · intro h
    obtain ⟨start, s, hanswer, hlength, hidle, hstands, -⟩ := segment_of_answer h (by simp)
    cases s with
    | misnamed code other =>
      obtain ⟨hfirst, hbehind⟩ := cons_prefix_drop_iff.mp hstands
      obtain ⟨hsecond, -⟩ := cons_prefix_drop_iff.mp hbehind
      exact ⟨start, code, Nat.succ.inj hlength, ⟨hidle, hfirst⟩, hsecond, other⟩
    | _ => cases hanswer
  · rintro ⟨start, code, rfl, ⟨hidle, hfirst⟩, hsecond, other⟩
    have hstands : (Segment.misnamed code other).bytes <+: stream.drop start := by
      apply cons_prefix_drop_iff.mpr
      exact ⟨hfirst, cons_prefix_drop_iff.mpr ⟨hsecond, List.nil_prefix⟩⟩
    exact answer_of_segment hidle hstands

/-- **What is refused as too large.** -/
theorem payloadTooLarge_iff {stream : Bytes} {i : Nat} :
    (feedAll idle stream).1[i]? = some (.error .payloadTooLarge) ↔
      ∃ start announced, start + 2 = i ∧ Announced stream start ∧
        stream[start + 1]? = some TestPacket.eventCode ∧
        stream[start + 2]? = some announced ∧ TestPacket.maxPayload < announced.toNat := by
  constructor
  · intro h
    obtain ⟨start, s, hanswer, hlength, hidle, hstands, -⟩ := segment_of_answer h (by simp)
    cases s with
    | oversized announced large =>
      obtain ⟨hfirst, hbehind⟩ := cons_prefix_drop_iff.mp hstands
      obtain ⟨hsecond, hlast⟩ := cons_prefix_drop_iff.mp hbehind
      obtain ⟨hthird, -⟩ := cons_prefix_drop_iff.mp hlast
      exact ⟨start, announced, Nat.succ.inj hlength, ⟨hidle, hfirst⟩, hsecond, hthird, large⟩
    | _ => cases hanswer
  · rintro ⟨start, announced, rfl, ⟨hidle, hfirst⟩, hsecond, hthird, large⟩
    have hstands : (Segment.oversized announced large).bytes <+: stream.drop start := by
      apply cons_prefix_drop_iff.mpr
      refine ⟨hfirst, cons_prefix_drop_iff.mpr ⟨hsecond, ?_⟩⟩
      exact cons_prefix_drop_iff.mpr ⟨hthird, List.nil_prefix⟩
    exact answer_of_segment hidle hstands

/-- Nothing else is refused. -/
theorem error_cases {stream : Bytes} {i : Nat} {e : FrameError}
    (h : (feedAll idle stream).1[i]? = some (.error e)) :
    e = .invalidPrefix ∨ e = .payloadTooLarge := by
  obtain ⟨start, s, hanswer, -⟩ := segment_of_answer h (by simp)
  cases s with
  | misnamed code other => exact .inl (Except.error.inj hanswer).symm
  | oversized announced large => exact .inr (Except.error.inj hanswer).symm
  | _ => cases hanswer

/-- **Test-mode framing is exact on whole streams.** A packet is written as `toBytes` says. A stream
of segments is read as these segments: of packets with bytes between them that announce none, as
exactly these packets, each at its last byte and without an error.

Of any stream: the reader is between packets where the stream so far is a number of segments. A
packet that is returned is written in the stream, from `start` up to the byte at which it is
returned, and whatever was returned or refused before ended before `start`. A byte is refused as a
wrong prefix if and only if it stands behind an announcing indicator and is not the event code, and
as too large if and only if it stands behind such an indicator and the event code and exceeds a
payload; nothing else is refused. A reader that has returned a packet or an error is as a new one. -/
theorem packets_exact :
    (∀ (p : TestPacket) (buffer : Bytes), p.toBytes.length ≤ buffer.length →
      p.encodeInto buffer = .ok (p.toBytes.length, p.toBytes ++ buffer.drop p.toBytes.length)) ∧
    (∀ segments : List Segment,
      feedAll idle (segments.flatMap Segment.bytes) = (segments.flatMap Segment.answers, idle)) ∧
    ∀ stream : Bytes,
      let answers := (feedAll idle stream).1
      ((feedAll idle stream).2 = idle ↔
        ∃ segments : List Segment, stream = segments.flatMap Segment.bytes) ∧
      (∀ i p, answers[i]? = some (.ok (some p)) →
        ∃ start, start + p.toBytes.length = i + 1 ∧ p.toBytes <+: stream.drop start ∧
          ∀ j a, j < i → answers[j]? = some a → a ≠ .ok none → j < start) ∧
      (∀ i, answers[i]? = some (.error .invalidPrefix) ↔
        ∃ start code, start + 1 = i ∧ Announced stream start ∧
          stream[start + 1]? = some code ∧ code ≠ TestPacket.eventCode) ∧
      (∀ i, answers[i]? = some (.error .payloadTooLarge) ↔
        ∃ start announced, start + 2 = i ∧ Announced stream start ∧
          stream[start + 1]? = some TestPacket.eventCode ∧
          stream[start + 2]? = some announced ∧ 64 < announced.toNat) ∧
      (∀ (i : Nat) (e : FrameError), answers[i]? = some (.error e) →
        e = .invalidPrefix ∨ e = .payloadTooLarge) ∧
      ∀ i a, answers[i]? = some a → a ≠ .ok none →
        (feedAll idle (stream.take (i + 1))).2 = idle := by
  refine ⟨fun p _ => p.encodeInto_of_le, feedAll_segments, fun stream => ⟨idle_iff,
    fun i p => exists_start_of_packet, fun i => invalidPrefix_iff, fun i => payloadTooLarge_iff,
    fun i e => error_cases, fun i a h ha => ?_⟩⟩
  obtain ⟨_, _, -, -, -, -, hidle, -⟩ := segment_of_answer h ha
  exact hidle

/-- An indicator that stands before a packet costs it: the packet's own is refused as an event
code. -/
example : feedAll idle [0x04, 0x04, 0x0E, 0x00] =
    ([.ok none, .error .invalidPrefix, .ok none, .ok none], idle) := rfl

end RoomControl.TestReader
