import RoomControl.Proofs.Node.Inbound
import RoomControl.Proofs.Program.Repeats

/-!
# What a message asks of the upload

Messages of two kinds concern the upload: one announces a program, the other brings a piece of it.
`Message.transfer?` reads from a message what it asks for, and `Transfer.apply` is what that does to
the upload and the memory, which are the `session` of a station. Any other message leaves both alone
(`session_receiveMessage`), and a request that comes twice does no more than one (`apply_again`).
-/

set_option autoImplicit false

namespace RoomControl

open Upload (Chunk Session deliver)

/-! ## Requests -/

/-- What can be asked of an upload. -/
inductive Transfer where
  | announce (total : Nat)
  | supply (piece : Chunk)
  deriving DecidableEq

namespace Transfer

/-- What the body of an announcement asks for, unless it is too short. -/
def ofAnnouncement : Bytes → Option Transfer
  | high :: low :: _ => some (.announce (word high low).toNat)
  | _ => none

/-- What the body of a chunk asks for, unless it is too short or ends before its data. -/
def ofChunk : Bytes → Option Transfer
  | high :: low :: count :: data =>
    if data.length < count.toNat then none
    else some (.supply ⟨(word high low).toNat, data.take count.toNat⟩)
  | _ => none

/-- The upload and the memory after what was asked for on a channel. -/
def apply (c : Channel) (s : Session) : Option Transfer → Session
  | none => s
  | some (.announce total) => (Upload.begin s.1 s.2 total c).2
  | some (.supply piece) => (deliver s piece).2

theorem takes_apply (c : Channel) {s : Session} (takes : s.2.writesLeft = none)
    (asked : Option Transfer) : (apply c s asked).2.writesLeft = none := by
  match asked with
  | none => exact takes
  | some (.announce total) => exact Upload.takes_begin takes s.1 total c
  | some (.supply piece) => exact Upload.takes_chunk takes s.1 piece.addr piece.data

/-- **What is asked for twice** is done once. -/
theorem apply_again (c : Channel) {s : Session} (takes : s.2.writesLeft = none)
    (asked : Option Transfer) : apply c (apply c s asked) asked = apply c s asked := by
  match asked with
  | none => rfl
  | some (.announce total) => exact congrArg Prod.snd (Upload.begin_again takes s.1 total c)
  | some (.supply piece) => exact Upload.chunk_again takes s.1 piece.addr piece.data

end Transfer

/-- What a message asks of the upload. -/
def Message.transfer? (m : Message) : Option Transfer :=
  match m.kind with
  | .uploadBegin => Transfer.ofAnnouncement m.body.bytes
  | .chunk => Transfer.ofChunk m.body.bytes
  | _ => none

/-- What received bytes ask of the upload. -/
def Message.transferIn? (bytes : Bytes) : Option Transfer :=
  (Message.decode bytes).toOption.bind Message.transfer?

theorem Message.transferIn?_eq {bytes : Bytes} {m : Message} (h : Message.decode bytes = .ok m) :
    Message.transferIn? bytes = m.transfer? := by
  rw [transferIn?, h]
  rfl

/-! ## The session of a station -/

namespace Station

variable {β : Type}

/-- The upload and the memory. -/
def session (s : Station β) : Session := (s.node.upload, s.memory)

theorem session_of_programming {s t : Station β} (h : t.programming = s.programming) :
    t.session = s.session :=
  congrArg (fun p => (p.upload, p.memory)) h

theorem session_beginUpload (s : Station β) (c : Channel) (body : Bytes) :
    (s.beginUpload c body).2.session = Transfer.apply c s.session (Transfer.ofAnnouncement body) := by
  match body with
  | high :: low :: rest =>
    show _ = (Upload.begin s.node.upload s.memory (word high low).toNat c).2
    simp only [beginUpload]
    generalize Upload.begin s.node.upload s.memory (word high low).toNat c = begun
    obtain ⟨result, upload, memory⟩ := begun
    cases result with
    | error e => rfl
    | ok _ => rfl
  | [high] => rfl
  | [] => rfl

theorem session_takeChunk (s : Station β) (c : Channel) (body : Bytes) :
    (s.takeChunk c body).2.session = Transfer.apply c s.session (Transfer.ofChunk body) := by
  match body with
  | high :: low :: count :: data =>
    by_cases hshort : data.length < count.toNat
    · simp only [takeChunk, if_pos hshort, Transfer.ofChunk, Transfer.apply]
    · simp only [takeChunk, if_neg hshort, Transfer.ofChunk, Transfer.apply, deliver]
      show _ = (Upload.chunk s.node.upload s.memory (word high low).toNat
        (data.take count.toNat)).2
      generalize Upload.chunk s.node.upload s.memory (word high low).toNat
        (data.take count.toNat) = taken
      obtain ⟨result, upload, memory⟩ := taken
      have hnode : ∀ closed : Bool, session { s with
          node := if closed then
              ({ s.node with upload }.enqueue c ⟨.programState, none⟩).enqueue c ⟨.consistency, none⟩
            else { s.node with upload }
          memory } = (upload, memory) := by
        intro closed
        cases closed with
        | true => rfl
        | false => rfl
      cases result with
      | error e => exact hnode _
      | ok outcome =>
        cases outcome with
        | stored => exact hnode _
        | complete =>
          refine Eq.trans ?_ (hnode (s.node.upload.isSome && upload.isNone))
          dsimp only
          generalize ({ s with node := _, memory } : Station β) = t
          exact congrArg (fun p => (p.upload, p.memory)) t.programming_startUploaded
  | [high, low] => rfl
  | [high] => rfl
  | [] => rfl

theorem session_enterState (s : Station β) (c : Channel) (kind : Kind) (body : Bytes) :
    (s.enterState c kind body).2.session = s.session := by
  cases body with
  | nil => rfl
  | cons state rest => rfl

variable [Peripherals β]

theorem session_act (s : Station β) (c : Channel) (body : Bytes) :
    (s.act c body).2.session = s.session := by
  cases body with
  | nil => rfl
  | cons byte value =>
    unfold act
    dsimp only
    split
    · exact session_enterState ..
    · have hkept := programming_execute s s.node.isConnected (Device.ofByte byte) value
      split
      · rename_i hexec
        rw [hexec] at hkept
        exact session_of_programming hkept
      · rename_i hexec
        rw [hexec] at hkept
        exact session_of_programming hkept

theorem session_follow (s : Station β) (c : Channel) (m : Message) :
    (s.follow c m).2.session = Transfer.apply c s.session m.transfer? := by
  unfold follow Message.transfer?
  cases hkind : m.kind with
  | request =>
    show (s.answerRequest c m.body.bytes).2.session = s.session
    cases m.body.bytes with
    | nil => rfl
    | cons requested rest => rfl
  | uploadBegin => exact session_beginUpload ..
  | chunk => exact session_takeChunk ..
  | enter => exact session_enterState ..
  | action => exact session_act ..
  | _ => rfl

/-- **What a message does to the upload and the memory** is what it asks for, on whatever channel. -/
theorem session_receiveMessage (s : Station β) (c : Channel) (bytes : Bytes) :
    (s.receiveMessage c bytes).2.session =
      Transfer.apply c s.session (Message.transferIn? bytes) := by
  cases hdecode : Message.decode bytes with
  | error e =>
    simp only [receiveMessage_eq, hdecode, Message.transferIn?, Except.toOption, Option.bind_none,
      Transfer.apply]
  | ok m =>
    rw [Message.transferIn?_eq hdecode]
    by_cases hkind : m.kind = .echo
    · rw [receiveMessage_of_echo s c hdecode hkind, Message.transfer?, hkind]
      rfl
    · have hsent := session_of_programming (s.programming_transmit c (echoOf bytes))
      rw [receiveMessage_of_kind s c hdecode hkind, session_follow, hsent]

/-- What the byte that completes a message does to the upload and the memory. -/
theorem session_of_taking {s v : Station β} {stimulus : Stimulus β} {c : Channel} {bytes : Bytes}
    (h : s.taking stimulus = some (v, c, bytes)) :
    (s.react stimulus).session = Transfer.apply c s.session (Message.transferIn? bytes) := by
  rw [react_of_taking h, session_receiveMessage]
  exact congrArg (fun t => Transfer.apply c t _)
    (session_of_programming (s.programming_receiver c))

end Station

end RoomControl
