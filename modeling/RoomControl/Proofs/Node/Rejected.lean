import Mathlib.Control.Monad.Basic
import RoomControl.Proofs.Node.Inbound
import RoomControl.Proofs.Node.Leftovers

/-!
# A rejected message changes nothing

A message may be no message at all, too short for its kind, or a transfer that does not fit the
upload. Each kind has its own checks, some of them behind the echo and some behind the lookup of the
upload, but all of them come before the first change: `follow_of_rejected` says so of every kind.
What is left of the frame is the position of the reader, the mark that the USB host has been heard,
and the echo (`rejected_changes_nothing`).

A peripheral that refuses, a memory that fails and a program that turns out to be invalid are no
rejections: by then something has happened.
-/

set_option autoImplicit false

namespace RoomControl

/-! ## Rejections -/

/-- The transfer is refused before anything is stored. -/
def TransferError.IsRejection : TransferError → Prop
  | .notStarted | .invalidLength | .outOfRange => True
  | .invalidProgram | .memory _ => False

/-- The message is malformed, or a transfer that is refused. -/
def NodeError.IsRejection : NodeError → Prop
  | .message _ => True
  | .transfer e => e.IsRejection
  | _ => False

namespace Upload

variable {open? upload : Option Upload} {m m' : ProgramMemory} {e : TransferError}

theorem begin_of_rejected {total : Nat} {source : Channel} (rejected : e.IsRejection)
    (h : begin open? m total source = (.error e, upload, m')) : upload = open? ∧ m' = m := by
  have begun := begun_begin open? m total source
  rw [h] at begun
  cases begun with
  | refused _ => exact ⟨rfl, rfl⟩
  | failed _ => exact rejected.elim

/-- Closing an upload fails for the memory, or because the program is invalid. -/
theorem not_rejected_of_finish {u : Upload} (h : (u.finish m).1 = .error e) : ¬ e.IsRejection := by
  unfold finish at h
  split at h
  · cases h
    exact id
  · split at h
    · cases h
      exact id
    · split at h
      · cases h
        exact id
      · cases h

theorem chunk_of_rejected {addr : Nat} {data : Bytes} (rejected : e.IsRejection)
    (h : chunk open? m addr data = (.error e, upload, m')) : upload = open? ∧ m' = m := by
  have taken := taken_chunk open? m addr data
  rw [h] at taken
  generalize hanswer : (Except.error e, upload, m') = answer at taken
  cases taken with
  | closed => cases hanswer; exact ⟨rfl, rfl⟩
  | outOfRange _ => cases hanswer; exact ⟨rfl, rfl⟩
  | failed _ _ => cases hanswer; exact rejected.elim
  | stored _ _ _ => cases hanswer
  | finished _ _ _ => exact absurd rejected (not_rejected_of_finish (congrArg Prod.fst hanswer).symm)

end Upload

namespace Station

variable {β : Type}

/-! ## The kinds of messages -/

section Kinds

variable {s : Station β} {c : Channel} {kind : Kind} {body : Bytes} {e : NodeError}

theorem answerRequest_of_rejected (h : (s.answerRequest c body).1 = .error e) :
    (s.answerRequest c body).2 = s := by
  cases body with
  | nil => rfl
  | cons requested rest => cases h

theorem beginUpload_of_rejected (rejected : e.IsRejection)
    (h : (s.beginUpload c body).1 = .error e) : (s.beginUpload c body).2 = s := by
  unfold beginUpload at h ⊢
  split at h
  · rename_i high low _
    generalize hbegin : Upload.begin s.node.upload s.memory (word high low).toNat c = begun at h
    obtain ⟨result, upload, memory⟩ := begun
    cases result with
    | error cause =>
      cases h
      obtain ⟨rfl, rfl⟩ := Upload.begin_of_rejected rejected hbegin
      rfl
    | ok _ => cases h
  · rfl

theorem startUploaded_not_rejected (h : s.startUploaded.1 = .error e) : ¬ e.IsRejection := by
  unfold startUploaded at h
  dsimp only at h
  split at h
  · cases h
    exact id
  · cases h

theorem takeChunk_of_rejected (rejected : e.IsRejection) (h : (s.takeChunk c body).1 = .error e) :
    (s.takeChunk c body).2 = s := by
  unfold takeChunk at h ⊢
  split at h
  · rename_i high low count rest
    dsimp only
    split at h
    · rename_i hshort
      rw [if_pos hshort]
    · rename_i hfits
      rw [if_neg hfits]
      generalize hchunk : Upload.chunk s.node.upload s.memory (word high low).toNat
        (rest.take count.toNat) = taken at h
      obtain ⟨result, upload, memory⟩ := taken
      cases result with
      | error cause =>
        cases h
        obtain ⟨rfl, rfl⟩ := Upload.chunk_of_rejected rejected hchunk
        -- no upload is closed, so nobody is told
        have hopen : (s.node.upload.isSome && s.node.upload.isNone) = false := by
          cases s.node.upload <;> rfl
        dsimp only
        rw [hopen, if_neg Bool.false_ne_true]
      | ok outcome =>
        cases outcome with
        | stored => cases h
        | complete => exact absurd rejected (startUploaded_not_rejected h)
  · rfl

theorem enterState_of_rejected (h : (s.enterState c kind body).1 = .error e) :
    (s.enterState c kind body).2 = s := by
  cases body with
  | nil => rfl
  | cons state rest => cases h

variable [Peripherals β]

/-- An action fails for the radio or for the board. -/
theorem execute_not_rejected {connected : Channel → Bool} {device : Device} {value : Bytes}
    (h : (s.execute connected device value).1 = some e) : ¬ e.IsRejection := by
  unfold execute at h
  split at h
  · cases h
  · split at h
    · unfold triggerConnection at h
      dsimp only at h
      split at h
      · cases h
      · cases h
        exact id
    · cases h
  · split at h
    · unfold drive at h
      dsimp only at h
      split at h
      · cases h
        exact id
      · split at h
        · cases h
        · cases h
    · cases h

theorem act_of_rejected (rejected : e.IsRejection) (h : (s.act c body).1 = .error e) :
    (s.act c body).2 = s := by
  cases body with
  | nil => rfl
  | cons byte value =>
    unfold act at h ⊢
    dsimp only at h ⊢
    split at h
    · rename_i hflow
      rw [if_pos hflow]
      exact enterState_of_rejected h
    · split at h
      · rename_i cause t hexec
        cases h
        exact absurd rejected (execute_not_rejected (congrArg Prod.fst hexec))
      · cases h

/-- **Whatever a message asks for, its rejection comes first.** -/
theorem follow_of_rejected {m : Message} (rejected : e.IsRejection)
    (h : (s.follow c m).1 = .error e) : (s.follow c m).2 = s := by
  unfold follow at h ⊢
  split at h
  · exact answerRequest_of_rejected h
  · exact beginUpload_of_rejected rejected h
  · exact takeChunk_of_rejected rejected h
  · exact enterState_of_rejected h
  · exact act_of_rejected rejected h
  · cases h

end Kinds

variable [Peripherals β] {s : Station β} {c : Channel} {e : NodeError}

/-- Of a message that is rejected only the echo is left. -/
theorem receiveMessage_of_rejected {bytes : Bytes} (rejected : e.IsRejection)
    (h : (s.receiveMessage c bytes).1 = .error e) :
    ∃ echo?, (s.receiveMessage c bytes).2 = s.transmit? c echo? ∧
      ∀ echo ∈ echo?, echo = echoOf bytes := by
  cases hdecode : Message.decode bytes with
  | error cause =>
    refine ⟨none, ?_, nofun⟩
    simp only [receiveMessage_eq, hdecode]
    rfl
  | ok m =>
    by_cases hkind : m.kind = .echo
    · rw [receiveMessage_of_echo s c hdecode hkind] at h
      cases h
    · rw [receiveMessage_of_kind s c hdecode hkind] at h ⊢
      refine ⟨some (echoOf bytes), follow_of_rejected rejected h, ?_⟩
      intro echo hecho
      exact (Option.mem_some.mp hecho).symm

/-- Only a message is rejected. -/
theorem arrives_of_rejected {byte : UInt8} (rejected : e.IsRejection)
    (h : (s.receiveOn c byte).1 = .error e) : ∃ bytes, s.Arrives c byte bytes := by
  have htaken : ∃ v bytes, s.taking (.byteOn c byte) = some (v, c, bytes) := by
    cases c with
    | usb =>
      simp only [receiveOn, receiveUsb] at h
      simp only [Stimulus.byteOn, taking]
      split at h
      · cases h
      · cases h
        exact rejected.elim
      · rename_i frame hfed
        split at h
        · rename_i hopcode
          rw [hfed]
          dsimp only
          rw [if_pos hopcode]
          exact ⟨_, _, rfl⟩
        · cases h
    | bluetooth =>
      simp only [receiveOn, receiveRadio] at h
      simp only [Stimulus.byteOn, taking]
      split at h
      · cases h
      · rename_i event hresult
        rw [hresult]
        cases event with
        | data bytes => exact ⟨_, _, rfl⟩
        | _ => cases h
      · cases h
        exact rejected.elim
      · cases h
        exact rejected.elim
  obtain ⟨v, bytes, htaking⟩ := htaken
  obtain ⟨byte', hbyte, arrives, -⟩ := arrives_of_taking htaking
  have hsame : byte = byte' := by
    cases c <;> cases hbyte <;> rfl
  rw [hsame]
  exact ⟨bytes, arrives⟩

/-! ## Frames -/

/-- The program, the board, the channels and the connection are as they were. -/
structure Unmoved (s t : Station β) : Prop where
  memory : t.memory = s.memory
  board : t.board = s.board
  machine : t.node.machine = s.node.machine
  upload : t.node.upload = s.node.upload
  queues : t.node.queues = s.node.queues
  transport : t.node.transport = s.node.transport
  connection : t.node.radio.connection = s.node.radio.connection
  bringup : t.node.radio.bringup = s.node.radio.bringup
  /-- The command in flight, and those that are held back. -/
  slot : t.node.radio.slot = s.node.radio.slot
  pending : t.node.radio.pending = s.node.radio.pending
  evalElapsed : t.node.evalElapsed = s.node.evalElapsed
  stats : t.node.stats = s.node.stats

omit [Peripherals β] in
/-- Reading a message and sending do none of this. -/
theorem unmoved_receiver (s : Station β) (c d : Channel) (payload : Option Bytes) :
    Unmoved s ((s.receiver c).transmit? d payload) := by
  obtain ⟨radioWire, usbWire, hsent⟩ := (s.receiver c).transmit?_eq d payload
  rw [hsent]
  cases c with
  | usb => constructor <;> rfl
  | bluetooth => constructor <;> rfl

/-- **A frame that is rejected changes nothing**, after any history and on either channel: not the
program and its upload, not the board, nothing that is queued or outstanding, and neither the
connection nor a command. The reader has moved on to the next frame, the USB host counts as heard,
and there may be an echo. -/
theorem rejected_changes_nothing (config : NodeConfig) (image : Array UInt8) (board : β)
    (radioWire usbWire : Wire) (history : List (Stimulus β)) (c : Channel) {front : Bytes}
    {last : UInt8} {next : FrameReader} {e : NodeError} :
    let s := (boot config image board radioWire usbWire).after history
    (s.reader c).Feeds front next →
      ((s.after (front.map (.byteOn c))).receiveOn c last).1 = .error e → e.IsRejection →
      let t := s.after ((front ++ [last]).map (.byteOn c))
      Unmoved s t ∧ ∃ echo?, t = (s.receiver c).transmit? c echo? ∧
        ∀ echo ∈ echo?, ∃ bytes, echo = echoOf bytes := by
  intro s quiet h rejected t
  have framed : s.Framed c := framed_after config image board radioWire usbWire history c
  have hfront : s.after (front.map (.byteOn c)) = s.withReader c next := after_feeds_on framed quiet
  rw [hfront] at h
  obtain ⟨bytes, arrives⟩ := arrives_of_rejected rejected h
  have htaken := receiveOn_of_arrives arrives
  have hreceiver : (s.withReader c next).receiver c = s.receiver c := by
    cases c <;> rfl
  rw [hreceiver] at htaken
  rw [htaken] at h
  obtain ⟨echo?, hecho, honly⟩ := receiveMessage_of_rejected rejected h
  have hlast : t = (s.receiver c).transmit? c echo? := by
    show s.after ((front ++ [last]).map (.byteOn c)) = _
    rw [List.map_append, after_append, hfront, ← hecho, ← htaken]
    exact react_byteOn ..
  rw [hlast]
  refine ⟨unmoved_receiver s c c echo?, echo?, rfl, ?_⟩
  intro echo hmem
  exact ⟨bytes, honly echo hmem⟩

/-- A chunk of two bytes from the peer that has announced nine, where only one is left. -/
def overlong : Frame :=
  ⟨Response.dataOpcode, .ofPrefix (0x20 :: Message.packet .chunk [0, 8, 2, 1, 1])⟩

/-- Its bytes up to the checksum. -/
def overlongFront : Bytes :=
  Frame.sync :: (wordBytes overlong.lengthField ++ overlong.opcode :: overlong.payload.bytes)

theorem overlong_chunk_changes_nothing :
    ((visited.after (overlongFront.map (.byteOn .bluetooth))).receiveOn .bluetooth
        overlong.checksum).1 = .error (.transfer .outOfRange) ∧
      visited.node.upload.isSome = true ∧
      Unmoved visited
        (visited.after ((overlongFront ++ [overlong.checksum]).map (.byteOn .bluetooth))) := by
  have hidle : visited.reader .bluetooth = .idle := by decide +kernel
  have quiet : (visited.reader .bluetooth).Feeds overlongFront
      (.checksum overlong.lengthField overlong.opcode overlong.payload) := by
    rw [hidle]
    exact FrameReader.feeds_frame overlong
  have hanswer : ((visited.after (overlongFront.map (.byteOn .bluetooth))).receiveOn .bluetooth
      overlong.checksum).1 = .error (.transfer .outOfRange) := by decide +kernel
  exact ⟨hanswer, by decide +kernel,
    (rejected_changes_nothing _ _ _ _ _ _ .bluetooth quiet hanswer trivial).1⟩

end Station

end RoomControl
