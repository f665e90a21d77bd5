import RoomControl.Frame
import RoomControl.Run

/-!
# Reading event frames byte by byte

`FrameReader` is the position inside a frame, with exactly the data known there: before the length
field is complete there is no length, and outside a frame there is nothing at all. So "the reader
forgets a frame that ended, well or badly" is the statement that it is `idle` again.

`FrameReader.feed` takes one byte. Between frames every byte but the sync byte is skipped; an error
drops the frame and the reader waits for the next sync byte.
-/

set_option autoImplicit false

namespace RoomControl

/-- Where in a frame the next byte falls. -/
inductive FrameReader where
  /-- Between frames. -/
  | idle
  /-- The sync byte was seen; the high byte of the length is next. -/
  | lengthHigh
  /-- The low byte of the length is next. -/
  | lengthLow (high : UInt8)
  /-- The opcode is next. -/
  | opcode (length : UInt16)
  /-- A payload byte is next; `held` came before it. -/
  | payload (length : UInt16) (opcode : UInt8) (held : Buffer 128)
  /-- The checksum is next. -/
  | checksum (length : UInt16) (opcode : UInt8) (held : Buffer 128)
  deriving DecidableEq, Repr

namespace FrameReader

instance : Inhabited FrameReader := ⟨idle⟩

/-- The reader is between frames. -/
def isIdle : FrameReader → Bool
  | idle => true
  | _ => false

/-- The number of payload bytes that a length field announces. -/
def announced (length : UInt16) : Nat := length.toNat - 1

/-- The length field is complete: it must leave room for an opcode and announce no more than a
payload holds. -/
def ofLength (length : UInt16) : Except FrameError (Option Frame) × FrameReader :=
  if length = 0 then (.error .invalidLength, idle)
  else if announced length > Frame.maxPayload then (.error .payloadTooLarge, idle)
  else (.ok none, opcode length)

/-- Takes one byte: nothing yet, a complete frame, or the reason the frame was dropped. -/
def feed (reader : FrameReader) (byte : UInt8) : Except FrameError (Option Frame) × FrameReader :=
  match reader with
  | idle => (.ok none, if byte = Frame.sync then lengthHigh else idle)
  | lengthHigh => (.ok none, lengthLow byte)
  | lengthLow high => ofLength (word high byte)
  | opcode length =>
    (.ok none,
      if length = 1 then checksum length byte Buffer.empty else payload length byte Buffer.empty)
  | payload length code held =>
    match held.push? byte with
    | none => (.error .payloadTooLarge, idle)
    | some longer =>
      (.ok none,
        if longer.size = announced length then checksum length code longer
        else payload length code longer)
  | checksum length code held =>
    if byte = Frame.checksumOf length code held.bytes then (.ok (some ⟨code, held⟩), idle)
    else (.error .invalidChecksum, idle)

/-- Feeds bytes up to the first complete frame or the first error; what follows is not consumed. -/
def feedUntil (reader : FrameReader) : Bytes → Except FrameError (Option Frame) × FrameReader
  | [] => (.ok none, reader)
  | byte :: rest =>
    match reader.feed byte with
    | (.ok none, next) => next.feedUntil rest
    | stopped => stopped

/-- Feeds every byte, whatever the answers. -/
def feedAll (reader : FrameReader) (bytes : Bytes) :
    List (Except FrameError (Option Frame)) × FrameReader :=
  runAll feed reader bytes

/-- A complete frame leaves nothing behind. -/
theorem feed_frame {reader next : FrameReader} {byte : UInt8} {f : Frame}
    (h : reader.feed byte = (.ok (some f), next)) : next = idle := by
  unfold feed ofLength at h
  repeat' split at h
  all_goals simp_all

end FrameReader

end RoomControl
