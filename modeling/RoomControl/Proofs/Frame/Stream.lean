import RoomControl.Proofs.Frame.Reading

/-!
# Frames in a stream

A stream that is made of frames, with any bytes but the sync byte between them, is read as exactly
these frames (`feedAll_segments`). Of any stream at all, a frame that the reader returns is a
segment of the stream as it would be written, and no two of them overlap; what was returned or
dropped leaves nothing behind (`framing_exact`).

A reader inside a frame knows all the bytes of it that came so far: `begun` gives them back. The
invariant is that they are the last bytes of the stream and that nothing has been answered since
they began (`Holds`). It says nothing of which frames are lost when a stray sync byte stands before
one.
-/

set_option autoImplicit false

namespace RoomControl.FrameReader

/-- What the reader makes of one byte: nothing yet, a frame, or an error. -/
abbrev Answer := Except FrameError (Option Frame)

/-! ## Streams of frames -/

/-- A part of a stream. -/
inductive Segment where
  /-- A byte between frames, which does not start one. -/
  | filler (byte : UInt8) (other : byte ≠ Frame.sync)
  | frame (f : Frame)

/-- The segment as it stands in the stream. -/
def Segment.bytes : Segment → Bytes
  | filler byte _ => [byte]
  | frame f => f.toBytes

/-- The answers to the bytes of the segment: a frame is returned at its last byte. -/
def Segment.answers : Segment → List Answer
  | filler _ _ => [.ok none]
  | frame f => List.replicate (f.payload.size + 4) (.ok none) ++ [.ok (some f)]

theorem feedAll_append (reader : FrameReader) (first second : Bytes) :
    reader.feedAll (first ++ second) =
      ((reader.feedAll first).1 ++ ((reader.feedAll first).2.feedAll second).1,
        ((reader.feedAll first).2.feedAll second).2) :=
  runAll_append feed reader first second

theorem Feeds.feedAll_eq {reader next : FrameReader} {bytes : Bytes} (h : Feeds reader bytes next) :
    reader.feedAll bytes = (List.replicate bytes.length (.ok none), next) := by
  induction h with
  | nil reader => rfl
  | cons hfeed _ ih =>
    rw [feedAll] at ih ⊢
    rw [runAll_cons, hfeed, ih]
    rfl

/-- The bytes of a frame with any last byte: that byte is compared with the checksum. -/
theorem feedAll_summed (f : Frame) (sum : UInt8) :
    feedAll idle (Frame.sync :: (wordBytes f.lengthField ++ f.opcode :: f.payload.bytes) ++ [sum]) =
      (List.replicate (f.payload.size + 4) (.ok none) ++
        [if sum = f.checksum then .ok (some f) else .error .invalidChecksum], idle) := by
  have hopened := (feeds_frame f).feedAll_eq
  have hclosed : (FrameReader.checksum f.lengthField f.opcode f.payload).feedAll [sum] =
      ([if sum = f.checksum then .ok (some f) else .error .invalidChecksum], idle) := by
    rw [feedAll, runAll_cons, runAll_nil, feed_sum]
  have hlength : (Frame.sync :: (wordBytes f.lengthField ++ f.opcode :: f.payload.bytes)).length =
      f.payload.size + 4 := by
    simp [wordBytes, Buffer.size]
  rw [feedAll_append, hopened, hclosed, hlength]

theorem feedAll_segment (s : Segment) : feedAll idle s.bytes = (s.answers, idle) := by
  cases s with
  | filler byte other =>
    show ([(FrameReader.idle.feed byte).1], (FrameReader.idle.feed byte).2) = _
    rw [feed, if_neg other]
    rfl
  | frame f => rw [Segment.bytes, Frame.toBytes, feedAll_summed, if_pos rfl, Segment.answers]

/-- **A stream of frames is read as these frames**, each at its last byte, and without an error. -/
theorem feedAll_segments (segments : List Segment) :
    feedAll idle (segments.flatMap Segment.bytes) = (segments.flatMap Segment.answers, idle) := by
  induction segments with
  | nil => rfl
  | cons s rest ih =>
    rw [List.flatMap_cons, List.flatMap_cons, feedAll_append, feedAll_segment, ih]

/-- **A frame is read back** from any buffer that has room for every frame: what is written there is
answered by the frame, at the last byte. -/
theorem reads_back (f : Frame) {buffer : Bytes} (h : Frame.maxSize ≤ buffer.length) :
    ∃ count written, f.encodeInto buffer = .ok (count, written) ∧ written.take count = f.toBytes ∧
      feedAll idle (written.take count) =
        (List.replicate (count - 1) (.ok none) ++ [.ok (some f)], idle) := by
  refine ⟨_, _, f.encodeInto_of_le (Nat.le_trans f.length_toBytes_le h), List.take_left, ?_⟩
  have hcount : f.toBytes.length - 1 = f.payload.size + 4 := by
    rw [f.length_toBytes]
    omega
  rw [List.take_left, hcount]
  exact feedAll_segment (.frame f)

/-! ## What a reader knows -/

/-- The bytes of the frame that has been begun. -/
def begun : FrameReader → Bytes
  | idle => []
  | lengthHigh => [Frame.sync]
  | lengthLow high => [Frame.sync, high]
  | opcode length => Frame.sync :: wordBytes length
  | payload length code held | checksum length code held =>
    Frame.sync :: (wordBytes length ++ code :: held.bytes)

/-- The length is one that a frame has, and the payload bytes are as many as there can be so far. -/
def Sound : FrameReader → Prop
  | idle | lengthHigh | lengthLow _ => True
  | opcode length => length ≠ 0 ∧ announced length ≤ Frame.maxPayload
  | payload length _ held =>
    length ≠ 0 ∧ announced length ≤ Frame.maxPayload ∧ held.size < announced length
  | checksum length _ held => length ≠ 0 ∧ held.size = announced length

/-- A payload byte always finds room. -/
theorem Sound.push?_ne_none {length : UInt16} {code : UInt8} {held : Buffer 128}
    (h : (payload length code held).Sound) (byte : UInt8) : held.push? byte ≠ none := by
  obtain ⟨-, hmax, hless⟩ := h
  intro hfull
  have hsize : held.size = 128 := Buffer.push?_eq_none_iff.mp hfull
  have hmax : announced length ≤ 128 := hmax
  omega

/-- The length of a frame whose payload is complete is its length field. -/
theorem lengthField_eq {length : UInt16} {code : UInt8} {held : Buffer 128}
    (h : (checksum length code held).Sound) : (Frame.mk code held).lengthField = length := by
  obtain ⟨hzero, hsize⟩ := h
  have hpos : length.toNat ≠ 0 := fun h => hzero (UInt16.toNat_inj.mp h)
  apply UInt16.toNat_inj.mp
  rw [Frame.toNat_lengthField, hsize, announced]
  omega

/-- What a byte does to a reader. -/
inductive Fed (reader : FrameReader) (byte : UInt8) : Answer × FrameReader → Prop
  /-- Between frames, the byte does not start one. -/
  | skipped : reader.begun = [] → Fed reader byte (.ok none, idle)
  | taken {next : FrameReader} : next.Sound → next.begun = reader.begun ++ [byte] →
      Fed reader byte (.ok none, next)
  | completed {f : Frame} : f.toBytes = reader.begun ++ [byte] → Fed reader byte (.ok (some f), idle)
  | dropped {e : FrameError} : Fed reader byte (.error e, idle)

theorem fed_feed {reader : FrameReader} (h : reader.Sound) (byte : UInt8) :
    Fed reader byte (reader.feed byte) := by
  cases reader with
  | idle =>
    rw [feed]
    split
    next hsync =>
      subst hsync
      exact .taken trivial rfl
    next => exact .skipped rfl
  | lengthHigh => exact .taken trivial rfl
  | lengthLow high =>
    rw [feed, ofLength]
    split
    · exact .dropped
    next hzero =>
      split
      · exact .dropped
      next hmax =>
        refine .taken ⟨hzero, Nat.not_lt.mp hmax⟩ ?_
        simp only [begun, wordBytes, highByte_word, lowByte_word, List.cons_append, List.nil_append]
  | opcode length =>
    obtain ⟨hzero, hmax⟩ := h
    rw [feed]
    split
    next hone =>
      subst hone
      exact .taken ⟨by decide, rfl⟩ rfl
    next hmore =>
      have hpos : length.toNat ≠ 0 := fun h => hzero (UInt16.toNat_inj.mp h)
      have hone : length.toNat ≠ 1 := fun h => hmore (UInt16.toNat_inj.mp h)
      have hroom : (Buffer.empty : Buffer 128).size < announced length := by
        show 0 < length.toNat - 1
        omega
      exact .taken ⟨hzero, hmax, hroom⟩ rfl
  | payload length code held =>
    obtain ⟨hzero, hmax, hless⟩ := h
    obtain ⟨longer, hpush, hbytes, hsize⟩ :=
      Buffer.exists_push? (Nat.lt_of_lt_of_le hless hmax) byte
    have hbegun : Frame.sync :: (wordBytes length ++ code :: longer.bytes) =
        Frame.sync :: (wordBytes length ++ code :: held.bytes) ++ [byte] := by
      simp only [hbytes, List.cons_append, List.append_assoc]
    simp only [feed, hpush]
    split
    next hfull => exact .taken ⟨hzero, hfull⟩ hbegun
    next hmore => exact .taken ⟨hzero, hmax, by omega⟩ hbegun
  | checksum length code held =>
    have hlength := lengthField_eq h
    rw [feed]
    split
    next hsum =>
      refine .completed ?_
      rw [Frame.toBytes, Frame.checksum, hlength, hsum]
      rfl
    next => exact .dropped

/-! ## Any stream -/

/-- The stream ends with the bytes of the frame that has been begun, and nothing was answered
since. -/
structure Holds (stream : Bytes) (answers : List Answer) (reader : FrameReader) : Prop where
  sound : reader.Sound
  count : answers.length = stream.length
  ends : ∃ done, stream = done ++ reader.begun ∧
    ∀ (i : Nat) (a : Answer), answers[i]? = some a → a ≠ .ok none → i < done.length

theorem Holds.feed {stream : Bytes} {answers : List Answer} {reader : FrameReader}
    (h : Holds stream answers reader) (byte : UInt8) :
    Holds (stream ++ [byte]) (answers ++ [(reader.feed byte).1]) (reader.feed byte).2 := by
  obtain ⟨sound, count, done, hstream, hquiet⟩ := h
  have hcount (a : Answer) : (answers ++ [a]).length = (stream ++ [byte]).length := by
    rw [List.length_append, List.length_append, count]
    rfl
  have hall (last : Answer) (i : Nat) (a : Answer) (hi : (answers ++ [last])[i]? = some a) :
      i < (stream ++ [byte]).length := by
    rw [← hcount last]
    exact (List.getElem?_eq_some_iff.mp hi).1
  have hfed := fed_feed sound byte
  generalize reader.feed byte = step at hfed ⊢
  cases hfed with
  | skipped _ =>
    exact ⟨trivial, hcount _, _, (List.append_nil _).symm, fun i a hi _ => hall _ i a hi⟩
  | taken hnext hbegun =>
    refine ⟨hnext, hcount _, done, ?_, fun i a hi ha => ?_⟩
    · rw [hbegun, hstream, List.append_assoc]
    · rcases Nat.lt_or_ge i answers.length with hlt | hge
      · rw [List.getElem?_append_left hlt] at hi
        exact hquiet i a hi ha
      · rw [List.getElem?_append_right hge] at hi
        have hone := List.mem_of_getElem? hi
        exact absurd (List.mem_singleton.mp hone) ha
  | completed _ =>
    exact ⟨trivial, hcount _, _, (List.append_nil _).symm, fun i a hi _ => hall _ i a hi⟩
  | dropped =>
    exact ⟨trivial, hcount _, _, (List.append_nil _).symm, fun i a hi _ => hall _ i a hi⟩

/-- **A reader knows where it is in any stream.** -/
theorem holds (stream : Bytes) : Holds stream (feedAll idle stream).1 (feedAll idle stream).2 :=
  have hidle : Holds [] [] idle := by
    refine ⟨trivial, rfl, [], rfl, fun i a h => ?_⟩
    rw [List.getElem?_nil] at h
    cases h
  runAll_keeps (fun _ _ _ byte h => h.feed byte) hidle stream

/-- An answer is that of the reader, as the bytes before left it, to one byte. -/
theorem exists_of_answer {reader : FrameReader} {stream : Bytes} {i : Nat} {a : Answer}
    (h : (reader.feedAll stream).1[i]? = some a) :
    ∃ byte, stream[i]? = some byte ∧ ((reader.feedAll (stream.take i)).2.feed byte).1 = a ∧
      (reader.feedAll (stream.take (i + 1))).2 = ((reader.feedAll (stream.take i)).2.feed byte).2 :=
  exists_of_runAll h

/-- A frame that is returned is written in the stream and ends where it is returned. Whatever was
answered before, was answered before the frame began. -/
theorem segment_of_answer {stream : Bytes} {i : Nat} {f : Frame}
    (h : (feedAll idle stream).1[i]? = some (.ok (some f))) :
    ∃ start, start + f.toBytes.length = i + 1 ∧
      (stream.drop start).take f.toBytes.length = f.toBytes ∧
      ∀ j a, j < i → (feedAll idle stream).1[j]? = some a → a ≠ .ok none → j < start := by
  obtain ⟨byte, hbyte, hanswer, -⟩ := exists_of_answer h
  obtain ⟨sound, count, done, hbefore, hquiet⟩ := holds (stream.take i)
  have hfed := fed_feed sound byte
  generalize (feedAll idle (stream.take i)).2.feed byte = step at hfed hanswer
  cases hfed with
  | skipped _ => cases hanswer
  | taken _ _ => cases hanswer
  | dropped => cases hanswer
  | completed hframe =>
    cases hanswer
    have hlength : (stream.take i).length = i := by
      rw [List.length_take]
      exact Nat.min_eq_left (Nat.le_of_lt (List.getElem?_eq_some_iff.mp hbyte).1)
    have hupto : stream.take (i + 1) = done ++ f.toBytes := by
      rw [List.take_add_one, hbyte, hbefore, hframe, List.append_assoc]
      rfl
    have hstream : stream = done ++ (f.toBytes ++ stream.drop (i + 1)) := by
      rw [← List.append_assoc, ← hupto, List.take_append_drop]
    refine ⟨done.length, ?_, ?_, fun j a hj ha hne => ?_⟩
    · have hlen := congrArg List.length hbefore
      rw [hframe]
      rw [hlength, List.length_append] at hlen
      rw [List.length_append, List.length_singleton]
      omega
    · rw [hstream, List.drop_left, List.take_left]
    · -- the answers up to here are those to the bytes up to here
      refine hquiet j a ?_ hne
      rw [← List.take_append_drop i stream, feedAll_append, List.getElem?_append_left] at ha
      · exact ha
      · rw [count, hlength]
        exact hj

/-- **Framing is exact on whole streams.** A stream of frames, with bytes between them that start
none, is read as exactly these frames.

Of any stream: a frame that is returned is written in the stream, from `start` up to the byte at
which it is returned, and whatever was returned or dropped before ended before `start`; a reader
that has returned a frame or an error is idle; and a payload byte always finds room. -/
theorem framing_exact :
    (∀ segments : List Segment,
      feedAll idle (segments.flatMap Segment.bytes) = (segments.flatMap Segment.answers, idle)) ∧
    ∀ stream : Bytes,
      let answers := (feedAll idle stream).1
      (∀ i f, answers[i]? = some (.ok (some f)) →
        ∃ start, start + f.toBytes.length = i + 1 ∧
          (stream.drop start).take f.toBytes.length = f.toBytes ∧
          ∀ j a, j < i → answers[j]? = some a → a ≠ .ok none → j < start) ∧
      (∀ i a, answers[i]? = some a → a ≠ .ok none → (feedAll idle (stream.take (i + 1))).2 = idle) ∧
      ∀ n length code held byte, (feedAll idle (stream.take n)).2 = .payload length code held →
        held.push? byte ≠ none := by
  refine ⟨feedAll_segments, fun stream => ⟨fun i f => segment_of_answer, fun i a hi ha => ?_, ?_⟩⟩
  · obtain ⟨byte, -, rfl, hnext⟩ := exists_of_answer hi
    rw [hnext]
    have hfed := fed_feed (holds (stream.take i)).sound byte
    generalize (feedAll idle (stream.take i)).2.feed byte = step at hfed ha ⊢
    cases hfed with
    | skipped _ => rfl
    | taken _ _ => exact absurd rfl ha
    | completed _ => rfl
    | dropped => rfl
  · intro n length code held byte hreader
    have hsound := (holds (stream.take n)).sound
    rw [hreader] at hsound
    exact hsound.push?_ne_none byte

end RoomControl.FrameReader
