import RoomControl.Frame.Registers

/-!
# A switch of the mode forgets everything

A frame that was begun may leave something behind in five places: the state, the length, the opcode,
the announced count and the payload. After a switch, an error or a complete frame nothing of it is
left in any of them, and while a mode is in force the registers of the other mode are those of a new
line (`mode_switch_forgets`). So no history can be told from what the line answers later.

The registers carry the argument, since a `LineReader` has no place for leftovers. Both forms are
tied together by `LineRegisters.Shows`: a set of registers shows a reader when those which its state
reads hold what the reader knows. The others may hold anything, and the answers are the same
(`LineRegisters.Shows.feedAll`).
-/

set_option autoImplicit false

namespace RoomControl

/-- A word is put together from its two bytes. -/
theorem shifted_or_eq_word (high low : UInt8) :
    high.toUInt16 <<< 8 ||| low.toUInt16 = word high low := by
  have hhigh := high.toNat_lt
  have hshift : high.toNat <<< 8 % 2 ^ 16 = high.toNat <<< 8 := by
    rw [Nat.shiftLeft_eq]
    omega
  have hor := Nat.shiftLeft_add_eq_or_of_lt (i := 8) low.toNat_lt high.toNat
  apply UInt16.toNat_inj.mp
  calc (high.toUInt16 <<< 8 ||| low.toUInt16).toNat
      = high.toNat <<< 8 % 2 ^ 16 ||| low.toNat := by
        rw [UInt16.toNat_or, UInt16.toNat_shiftLeft, UInt8.toNat_toUInt16, UInt8.toNat_toUInt16]
        rfl
    _ = 256 * high.toNat + low.toNat := by
        rw [hshift, ← hor, Nat.shiftLeft_eq]
        omega
    _ = (word high low).toNat := (toNat_word high low).symm

/-! ## Event frames -/

namespace FrameRegisters

/-- The registers which the state reads hold what the reader knows. -/
def Shows (r : FrameRegisters) : FrameReader → Prop
  | .idle => r.state = .idle
  | .lengthHigh => r.state = .lengthHigh
  | .lengthLow high => r.state = .lengthLow ∧ r.length = high.toUInt16 <<< 8
  | .opcode length => r.state = .opcode ∧ r.length = length
  | .payload length code held =>
    r.state = .payload ∧ r.length = length ∧ r.opcode = code ∧ r.buffer = held
  | .checksum length code held =>
    r.state = .checksum ∧ r.length = length ∧ r.opcode = code ∧ r.buffer = held

theorem eq_idle_of_shows {reader : FrameReader} (h : Shows {} reader) : reader = .idle := by
  cases reader with
  | idle => rfl
  | lengthHigh => cases h
  | _ => cases h.1

/-- **Registers that show a reader answer as it does**, and show what becomes of it. -/
theorem Shows.feed {r : FrameRegisters} {reader : FrameReader} (h : r.Shows reader) (byte : UInt8) :
    (r.feed byte).1 = (reader.feed byte).1 ∧ (r.feed byte).2.Shows (reader.feed byte).2 := by
  obtain ⟨state, length, opcode, buffer⟩ := r
  cases reader with
  | idle =>
    cases h
    simp only [FrameRegisters.feed, FrameReader.feed, true_and]
    split
    · rfl
    · rfl
  | lengthHigh =>
    cases h
    exact ⟨rfl, rfl, rfl⟩
  | lengthLow high =>
    obtain ⟨rfl, rfl⟩ := h
    simp only [FrameRegisters.feed, FrameReader.feed, FrameReader.ofLength, shifted_or_eq_word]
    split
    · exact ⟨rfl, rfl⟩
    · split
      · exact ⟨rfl, rfl⟩
      · exact ⟨rfl, rfl, rfl⟩
  | opcode length =>
    obtain ⟨rfl, rfl⟩ := h
    simp only [FrameRegisters.feed, FrameReader.feed, true_and]
    split
    · exact ⟨rfl, rfl, rfl, rfl⟩
    · exact ⟨rfl, rfl, rfl, rfl⟩
  | payload length code held =>
    obtain ⟨rfl, rfl, rfl, rfl⟩ := h
    simp only [FrameRegisters.feed, FrameReader.feed]
    cases buffer.push? byte with
    | none => exact ⟨rfl, rfl⟩
    | some longer =>
      dsimp only
      split
      · exact ⟨rfl, rfl, rfl, rfl, rfl⟩
      · exact ⟨rfl, rfl, rfl, rfl, rfl⟩
  | checksum length code held =>
    obtain ⟨rfl, rfl, rfl, rfl⟩ := h
    simp only [FrameRegisters.feed, FrameReader.feed]
    split
    · exact ⟨rfl, rfl⟩
    · exact ⟨rfl, rfl⟩

/-- A byte that is answered clears every register. -/
theorem unanswered_or_cleared (r : FrameRegisters) (byte : UInt8) :
    (r.feed byte).1 = .ok none ∨ (r.feed byte).2 = {} := by
  obtain ⟨state, length, opcode, buffer⟩ := r
  cases state with
  | idle => exact .inl rfl
  | lengthHigh => exact .inl rfl
  | lengthLow =>
    simp only [feed]
    split
    · exact .inr rfl
    · split
      · exact .inr rfl
      · exact .inl rfl
  | opcode => exact .inl rfl
  | payload =>
    simp only [feed]
    cases buffer.push? byte with
    | none => exact .inr rfl
    | some longer => exact .inl rfl
  | checksum =>
    simp only [feed]
    split
    · exact .inr rfl
    · exact .inr rfl

end FrameRegisters

/-! ## Test-mode packets -/

namespace TestRegisters

/-- The registers which the state reads hold what the reader knows. -/
def Shows (r : TestRegisters) : TestReader → Prop
  | .idle => r.state = .idle
  | .eventCode => r.state = .eventCode
  | .length => r.state = .length
  | .payload expected held => r.state = .payload ∧ r.expected = expected ∧ r.buffer = held

theorem eq_idle_of_shows {reader : TestReader} (h : Shows {} reader) : reader = .idle := by
  cases reader with
  | idle => rfl
  | payload expected held => cases h.1
  | _ => cases h

/-- **Registers that show a reader answer as it does**, and show what becomes of it. -/
theorem Shows.feed {r : TestRegisters} {reader : TestReader} (h : r.Shows reader) (byte : UInt8) :
    (r.feed byte).1 = (reader.feed byte).1 ∧ (r.feed byte).2.Shows (reader.feed byte).2 := by
  obtain ⟨state, expected, buffer⟩ := r
  cases reader with
  | idle =>
    cases h
    simp only [TestRegisters.feed, TestReader.feed, true_and]
    split
    · rfl
    · rfl
  | eventCode =>
    cases h
    simp only [TestRegisters.feed, TestReader.feed]
    split
    · exact ⟨rfl, rfl⟩
    · exact ⟨rfl, rfl⟩
  | length =>
    cases h
    simp only [TestRegisters.feed, TestReader.feed]
    split
    · exact ⟨rfl, rfl⟩
    · split
      · exact ⟨rfl, rfl⟩
      · exact ⟨rfl, rfl, rfl, rfl⟩
  | payload expected held =>
    obtain ⟨rfl, rfl, rfl⟩ := h
    simp only [TestRegisters.feed, TestReader.feed]
    cases buffer.push? byte with
    | none => exact ⟨rfl, rfl⟩
    | some longer =>
      dsimp only
      split
      · exact ⟨rfl, rfl⟩
      · exact ⟨rfl, rfl, rfl, rfl⟩

/-- A byte that is answered clears every register. -/
theorem unanswered_or_cleared (r : TestRegisters) (byte : UInt8) :
    (r.feed byte).1 = .ok none ∨ (r.feed byte).2 = {} := by
  obtain ⟨state, expected, buffer⟩ := r
  cases state with
  | idle => exact .inl rfl
  | eventCode =>
    simp only [feed]
    split
    · exact .inl rfl
    · exact .inr rfl
  | length =>
    simp only [feed]
    split
    · exact .inr rfl
    · split
      · exact .inr rfl
      · exact .inl rfl
  | payload =>
    simp only [feed]
    cases buffer.push? byte with
    | none => exact .inr rfl
    | some longer =>
      dsimp only
      split
      · exact .inr rfl
      · exact .inl rfl

end TestRegisters

/-! ## The line -/

/-- What is done to the receiving end of the line. -/
inductive LineOperation where
  | byte (byte : UInt8)
  | setMode (mode : LineMode)
  | reset
  deriving DecidableEq, Repr

namespace LineReader

def apply (line : LineReader) : LineOperation → LineReader
  | .byte byte => (line.feed byte).2
  | .setMode mode => line.setMode mode
  | .reset => line.reset

/-- The line after operations, one after the other. -/
def after (line : LineReader) (operations : List LineOperation) : LineReader :=
  operations.foldl apply line

end LineReader

namespace LineRegisters

def apply (line : LineRegisters) : LineOperation → LineRegisters
  | .byte byte => (line.feed byte).2
  | .setMode mode => line.setMode mode
  | .reset => line.reset

/-- The registers after operations, one after the other. -/
def after (line : LineRegisters) (operations : List LineOperation) : LineRegisters :=
  operations.foldl apply line

/-- Both sets of registers show their reader, in the same mode. -/
structure Shows (registers : LineRegisters) (line : LineReader) : Prop where
  mode : registers.mode = line.mode
  frames : registers.frames.Shows line.frames
  packets : registers.packets.Shows line.packets

theorem shows_new (mode : LineMode) : Shows { mode := mode } { mode := mode } := ⟨rfl, rfl, rfl⟩

/-- Nothing but a new reader is shown by cleared registers. -/
theorem eq_new_of_shows {mode : LineMode} {line : LineReader} (h : Shows { mode := mode } line) :
    line = { mode := mode } := by
  obtain ⟨lineMode, frames, packets⟩ := line
  cases h.mode
  cases FrameRegisters.eq_idle_of_shows h.frames
  cases TestRegisters.eq_idle_of_shows h.packets
  rfl

/-- **What a byte does is seen alike** in both forms of the line. -/
theorem Shows.feed {registers : LineRegisters} {line : LineReader} (h : registers.Shows line)
    (byte : UInt8) :
    (registers.feed byte).1 = (line.feed byte).1 ∧
      (registers.feed byte).2.Shows (line.feed byte).2 := by
  obtain ⟨mode, frames, packets⟩ := registers
  obtain ⟨lineMode, frameReader, testReader⟩ := line
  obtain ⟨rfl, hframes, hpackets⟩ := h
  cases mode with
  | event =>
    obtain ⟨hanswer, hnext⟩ := hframes.feed byte
    exact ⟨congrArg (Except.map (Option.map Received.event)) hanswer, rfl, hnext, hpackets⟩
  | testMode =>
    obtain ⟨hanswer, hnext⟩ := hpackets.feed byte
    exact ⟨congrArg (Except.map (Option.map Received.testMode)) hanswer, rfl, hframes, hnext⟩

theorem Shows.feedAll {registers : LineRegisters} {line : LineReader} (h : registers.Shows line)
    (stream : Bytes) : (registers.feedAll stream).1 = (line.feedAll stream).1 :=
  (runAll_related (fun _ _ byte h => h.feed byte) h stream).1

theorem Shows.apply {registers : LineRegisters} {line : LineReader} (h : registers.Shows line)
    (operation : LineOperation) : (registers.apply operation).Shows (line.apply operation) := by
  cases operation with
  | byte byte => exact (h.feed byte).2
  | setMode mode => exact shows_new mode
  | reset => exact ⟨h.mode, rfl, rfl⟩

theorem Shows.after {registers : LineRegisters} {line : LineReader} (h : registers.Shows line)
    (operations : List LineOperation) :
    (registers.after operations).Shows (line.after operations) := by
  induction operations generalizing registers line with
  | nil => exact h
  | cons operation rest ih => exact ih (h.apply operation)

/-! ## What is left of other modes -/

/-- The registers of the mode that is not in force are those of a new line. -/
def OtherCleared (line : LineRegisters) : Prop :=
  match line.mode with
  | .event => line.packets = {}
  | .testMode => line.frames = {}

theorem otherCleared_apply {line : LineRegisters} (h : line.OtherCleared)
    (operation : LineOperation) : (line.apply operation).OtherCleared := by
  obtain ⟨mode, frames, packets⟩ := line
  cases operation with
  | byte byte =>
    -- a byte moves the registers of the mode in force alone
    cases mode with
    | event => exact h
    | testMode => exact h
  | setMode other =>
    cases other with
    | event => rfl
    | testMode => rfl
  | reset =>
    cases mode with
    | event => rfl
    | testMode => rfl

theorem otherCleared_after {line : LineRegisters} (h : line.OtherCleared)
    (operations : List LineOperation) : (line.after operations).OtherCleared :=
  List.foldlRecOn operations apply h fun _ hline operation _ => otherCleared_apply hline operation

/-- A byte that is answered leaves nothing in any register. -/
theorem OtherCleared.eq_new_of_answered {line : LineRegisters} (h : line.OtherCleared) {byte : UInt8}
    (hanswered : (line.feed byte).1 ≠ .ok none) : (line.feed byte).2 = { mode := line.mode } := by
  obtain ⟨mode, frames, packets⟩ := line
  cases mode with
  | event =>
    obtain rfl : packets = {} := h
    rcases frames.unanswered_or_cleared byte with hnone | hcleared
    · refine absurd ?_ hanswered
      show Except.map (Option.map Received.event) (frames.feed byte).1 = .ok none
      rw [hnone]
      rfl
    · show LineRegisters.mk .event (frames.feed byte).2 {} = _
      rw [hcleared]
  | testMode =>
    obtain rfl : frames = {} := h
    rcases packets.unanswered_or_cleared byte with hnone | hcleared
    · refine absurd ?_ hanswered
      show Except.map (Option.map Received.testMode) (packets.feed byte).1 = .ok none
      rw [hnone]
      rfl
    · show LineRegisters.mk .testMode {} (packets.feed byte).2 = _
      rw [hcleared]

end LineRegisters

/-- **A switch of the mode forgets everything.** After any operations on a new line, a line that is
switched to a mode answers every stream as a new one switched to it. While a mode is in force, the
reader of the other one is as new. A line that has returned a frame or an error answers every stream
as a new one in its mode.

The same in registers, which answer as the readers do: a switch leaves those of a new line in that
mode, those of the other mode are cleared, and so are all of them after a frame or an error. -/
theorem mode_switch_forgets (history : List LineOperation) :
    let line := LineReader.after {} history
    let registers := LineRegisters.after {} history
    (∀ mode stream, ((line.setMode mode).feedAll stream).1 =
      ((LineReader.setMode {} mode).feedAll stream).1) ∧
    (line.mode = .event → line.packets = .idle) ∧
    (line.mode = .testMode → line.frames = .idle) ∧
    (∀ byte, (line.feed byte).1 ≠ .ok none → ∀ stream,
      ((line.feed byte).2.feedAll stream).1 =
        ((LineReader.setMode {} line.mode).feedAll stream).1) ∧
    (∀ stream, (registers.feedAll stream).1 = (line.feedAll stream).1) ∧
    (∀ mode, registers.setMode mode = { mode := mode }) ∧
    (registers.mode = .event → registers.packets = {}) ∧
    (registers.mode = .testMode → registers.frames = {}) ∧
    ∀ byte, (registers.feed byte).1 ≠ .ok none →
      (registers.feed byte).2 = { mode := registers.mode } := by
  intro line registers
  have hshows : registers.Shows line := (LineRegisters.shows_new .event).after history
  have hnew : LineRegisters.OtherCleared {} := rfl
  have hcleared : registers.OtherCleared := LineRegisters.otherCleared_after hnew history
  have hpackets (hmode : registers.mode = .event) : registers.packets = {} := by
    rwa [LineRegisters.OtherCleared, hmode] at hcleared
  have hframes (hmode : registers.mode = .testMode) : registers.frames = {} := by
    rwa [LineRegisters.OtherCleared, hmode] at hcleared
  refine ⟨fun mode stream => rfl, fun hmode => ?_, fun hmode => ?_, fun byte hanswered stream => ?_,
    hshows.feedAll, fun mode => rfl, hpackets, hframes, fun byte => hcleared.eq_new_of_answered⟩
  · have hshown := hshows.packets
    rw [hpackets (hshows.mode.trans hmode)] at hshown
    exact TestRegisters.eq_idle_of_shows hshown
  · have hshown := hshows.frames
    rw [hframes (hshows.mode.trans hmode)] at hshown
    exact FrameRegisters.eq_idle_of_shows hshown
  · obtain ⟨hanswer, hnext⟩ := hshows.feed byte
    rw [hcleared.eq_new_of_answered (hanswer ▸ hanswered)] at hnext
    rw [LineRegisters.eq_new_of_shows hnext, hshows.mode]
    rfl

end RoomControl
