import RoomControl.Proofs.Radio.Commands
import RoomControl.Radio

/-!
# What the radio writes

The radio writes the commands of bring-up, the commands that the node asks for, and data for the
peer. All of them fit a frame, so none is ever refused for its parameters, and only `sendData`
writes data.

`Radio.Quiet` is what every other operation of the node has in common: it leaves the peer as it was
and writes control commands alone. Bytes from the module are the one thing that can change the peer;
`heard_receive` says that a byte which brings data changes nothing else.
-/

set_option autoImplicit false

namespace RoomControl

/-! ## Wires -/

/-- Between the two states of a wire only packets with `P` were written. -/
def Wire.Gains (P : Bytes → Prop) (before after : Wire) : Prop :=
  ∃ packets, after.sent = before.sent ++ packets ∧ ∀ p ∈ packets, P p

namespace Wire

variable {P Q : Bytes → Prop} {a b c : Wire}

theorem Gains.refl (P : Bytes → Prop) (w : Wire) : Gains P w w :=
  ⟨[], (List.append_nil _).symm, fun _ h => absurd h List.not_mem_nil⟩

theorem Gains.trans (first : Gains P a b) (second : Gains P b c) : Gains P a c := by
  obtain ⟨ps, hps, hp⟩ := first
  obtain ⟨qs, hqs, hq⟩ := second
  refine ⟨ps ++ qs, by rw [hqs, hps, List.append_assoc], fun p hmem => ?_⟩
  rcases List.mem_append.mp hmem with h | h
  · exact hp p h
  · exact hq p h

theorem Gains.mono (h : Gains P a b) (weaker : ∀ p, P p → Q p) : Gains Q a b := by
  obtain ⟨ps, hps, hp⟩ := h
  exact ⟨ps, hps, fun p hmem => weaker p (hp p hmem)⟩

/-- What held of every packet still does. -/
theorem Gains.all_sent (h : Gains P a b) (before : ∀ p ∈ a.sent, P p) : ∀ p ∈ b.sent, P p := by
  obtain ⟨ps, hps, hp⟩ := h
  intro p hmem
  rw [hps] at hmem
  rcases List.mem_append.mp hmem with h | h
  · exact before p h
  · exact hp p h

theorem gains_send (w : Wire) {packet : Bytes} (h : P packet) : Gains P w (w.send packet).2 := by
  have hone : ∀ p ∈ [packet], P p := by
    intro p hmem
    rw [List.mem_singleton.mp hmem]
    exact h
  unfold send
  dsimp only
  split
  · exact ⟨[packet], rfl, hone⟩
  · exact .refl P w
  · exact ⟨[packet], rfl, hone⟩

end Wire

/-! ## Errors -/

/-- The error says that the parameters of a command do not fit a frame. -/
def CommandError.IsEncode : CommandError → Prop
  | .encode _ => True
  | _ => False

def RadioError.IsEncode : RadioError → Prop
  | .command e => e.IsEncode
  | .bringup (.reset e) => e.IsEncode
  | _ => False

/-! ## Commands -/

namespace Command

/-- The command is not one that carries data to the peer. -/
def IsControl (c : Command) : Prop := ∀ handle data, c ≠ .sendTransparentData handle data

/-- The parameters fit a frame. -/
def Encodes (c : Command) : Prop := ∃ packet, c.toBytes = .ok packet

theorem encodes_of_fits {c : Command} (h : c.Fits) : c.Encodes := by
  obtain ⟨f, hf⟩ := exists_toFrame_iff.mpr h
  exact ⟨f.toBytes, toBytes_eq_ok_iff.mpr ⟨f, hf, rfl⟩⟩

theorem encodes_data (handle : UInt8) {data : Bytes} (h : data.length < Frame.maxPayload) :
    (sendTransparentData handle data).Encodes :=
  encodes_of_fits h

theorem encodes_reset : reset.Encodes := encodes_of_fits trivial

/-- **Every stage has a command that fits**, whatever the settings are. -/
theorem encodes_stage (settings : RadioSettings) (stage : Stage) :
    (stage.command settings).Encodes := by
  apply encodes_of_fits
  cases stage with
  | writeName => exact settings.name.length_bytes_le
  | writeAdvertisingData => exact settings.advData.fits
  | writeScanResponse => exact settings.scanResponse.fits
  | writePin => exact settings.pin.length_bytes_le
  | _ => trivial

theorem isControl_stage (settings : RadioSettings) (stage : Stage) :
    (stage.command settings).IsControl := by
  intro handle data h
  cases stage <;> cases h

theorem encodes_app (c : AppCommand) : c.toCommand.Encodes := by
  apply encodes_of_fits
  cases c <;> trivial

theorem isControl_app (c : AppCommand) : c.toCommand.IsControl := by
  intro handle data h
  cases c <;> cases h

end Command

/-- The packet is that of a control command. -/
def ControlPacket (packet : Bytes) : Prop :=
  ∃ c : Command, c.IsControl ∧ c.toBytes = .ok packet

theorem Command.write_control {c : Command} (hcontrol : c.IsControl) (hfits : c.Encodes)
    (wire : Wire) :
    wire.Gains ControlPacket (c.write wire).2 ∧
      ∀ e, (c.write wire).1 = .error e → ¬ e.IsEncode := by
  obtain ⟨packet, hpacket⟩ := hfits
  simp only [write, hpacket]
  refine ⟨Wire.gains_send wire ⟨c, hcontrol, hpacket⟩, fun e h => ?_⟩
  split at h
  · cases h
  · cases h
    exact id

theorem CommandSlot.send_control (slot : CommandSlot) {c : Command} (hcontrol : c.IsControl)
    (hfits : c.Encodes) (wire : Wire) :
    wire.Gains ControlPacket (slot.send wire c).2.2 ∧
      ∀ e, (slot.send wire c).1 = .error e → ¬ e.IsEncode := by
  have hwrite := c.write_control hcontrol hfits wire
  unfold send
  generalize c.write wire = written at hwrite
  obtain ⟨result, wire'⟩ := written
  cases result with
  | ok _ => exact hwrite
  | error e => exact hwrite

/-! ## Bring-up -/

namespace Bringup

/-- A step of bring-up that does not complete it and writes control commands alone. -/
structure Unfinished (wire : Wire) (step : BringupStep) : Prop where
  open_ : step.bringup.isComplete = false
  writes : wire.Gains ControlPacket step.wire
  fits : ∀ e, step.result = .error e → ¬ (RadioError.bringup e).IsEncode

theorem unfinished_fail (b : Bringup) (slot : CommandSlot) (wire : Wire) :
    Unfinished wire (b.fail slot wire) := by
  unfold fail
  dsimp only
  split
  · refine ⟨rfl, .refl _ _, fun e h => ?_⟩
    cases h
    exact id
  · split
    · have hreset :=
        Command.write_control (c := .reset) (fun _ _ => nofun) Command.encodes_reset wire
      generalize Command.reset.write wire = written at hreset
      obtain ⟨result, wire'⟩ := written
      cases result with
      | ok _ => exact ⟨rfl, hreset.1, nofun⟩
      | error e =>
        refine ⟨rfl, hreset.1, fun e' h => ?_⟩
        cases h
        exact hreset.2 e rfl
    · exact ⟨rfl, .refl _ _, nofun⟩

theorem Unfinished.after {wire mid : Wire} {step : BringupStep} (h : Unfinished mid step)
    (before : wire.Gains ControlPacket mid) : Unfinished wire step :=
  ⟨h.open_, before.trans h.writes, h.fits⟩

theorem unfinished_issue (b : Bringup) (slot : CommandSlot) (wire : Wire) :
    Unfinished wire (b.issue slot wire) := by
  have hsend := slot.send_control (Command.isControl_stage b.settings b.stage)
    (Command.encodes_stage b.settings b.stage) wire
  unfold issue
  dsimp only
  generalize slot.send wire (b.stage.command b.settings) = sent at hsend
  obtain ⟨result, slot', wire'⟩ := sent
  cases result with
  | ok _ => exact ⟨rfl, hsend.1, nofun⟩
  | error e => exact (unfinished_fail _ slot' wire').after hsend.1

/-- **A tick never completes bring-up**: only the answer to a command does. -/
theorem unfinished_tick (b : Bringup) (slot : CommandSlot) (wire : Wire)
    (hactive : b.isActive = true) : Unfinished wire (b.tick slot wire) := by
  have hnext : Unfinished wire (b.issueNext slot wire) := by
    unfold issueNext
    split
    · exact unfinished_issue ..
    · exact unfinished_issue ..
  unfold tick
  split
  · rename_i hphase
    simp [isActive, hphase] at hactive
  · rename_i hphase
    simp [isActive, hphase] at hactive
  · exact hnext
  · exact hnext
  · exact ⟨rfl, .refl _ _, nofun⟩
  · exact unfinished_fail ..
  · exact ⟨rfl, .refl _ _, nofun⟩

theorem answer_control (b : Bringup) (slot : CommandSlot) (wire : Wire) (command status : UInt8)
    (data : Bytes) :
    wire.Gains ControlPacket (b.answer slot wire command status data).wire ∧
      ∀ e, (b.answer slot wire command status data).result = .error e →
        ¬ (RadioError.bringup e).IsEncode := by
  unfold answer
  split
  · exact ⟨.refl _ _, nofun⟩
  · split
    · have hfail := unfinished_fail b slot wire
      exact ⟨hfail.writes, hfail.fits⟩
    · exact ⟨.refl _ _, nofun⟩

theorem isComplete_of_isActive {b : Bringup} (h : b.isActive = true) : b.isComplete = false := by
  unfold isActive at h
  split at h <;> simp_all [isComplete]

end Bringup

/-! ## The radio -/

namespace Radio

/-- The peer stays as it was, and control commands alone are written. -/
structure Quiet (r : Radio) (wire : Wire) (r' : Radio) (wire' : Wire) : Prop where
  connection : r'.connection = r.connection
  ready : r'.isReady = r.isReady
  writes : wire.Gains ControlPacket wire'

theorem Quiet.refl (r : Radio) (wire : Wire) : Quiet r wire r wire := ⟨rfl, rfl, .refl _ _⟩

theorem Quiet.trans {r₁ r₂ r₃ : Radio} {w₁ w₂ w₃ : Wire} (first : Quiet r₁ w₁ r₂ w₂)
    (second : Quiet r₂ w₂ r₃ w₃) : Quiet r₁ w₁ r₃ w₃ :=
  ⟨second.connection.trans first.connection, second.ready.trans first.ready,
    first.writes.trans second.writes⟩

theorem Quiet.peer?_eq {r r' : Radio} {wire wire' : Wire} (h : Quiet r wire r' wire') :
    r'.peer? = r.peer? := by
  rw [peer?, peer?, h.ready, h.connection]

/-- The answer to a request, with the radio and the wire after it. -/
abbrev Asked := Except CommandError Unit × Radio × Wire

/-- The request was quiet, and was not refused for the parameters of a command. -/
def QuietAsked (r : Radio) (wire : Wire) (asked : Asked) : Prop :=
  Quiet r wire asked.2.1 asked.2.2 ∧ ∀ e, asked.1 = .error e → ¬ e.IsEncode

theorem quiet_send (r : Radio) (wire : Wire) (c : AppCommand) :
    QuietAsked r wire (r.send wire c) := by
  have hsend := r.slot.send_control (Command.isControl_app c) (Command.encodes_app c) wire
  exact ⟨⟨rfl, rfl, hsend.1⟩, hsend.2⟩

theorem quiet_request (r : Radio) (wire : Wire) (c : AppCommand) :
    QuietAsked r wire (r.request wire c) := by
  have hbusy : ∀ e : CommandError, (.error .busy : Except CommandError Unit) = .error e →
      ¬ e.IsEncode := by
    intro e h
    cases h
    exact id
  unfold request
  split
  · exact ⟨.refl _ _, hbusy⟩
  · split
    · split
      · exact ⟨⟨rfl, rfl, .refl _ _⟩, nofun⟩
      · exact ⟨.refl _ _, hbusy⟩
    · exact quiet_send r wire c

theorem quiet_disconnect (r : Radio) (wire : Wire) : QuietAsked r wire (r.disconnect wire) := by
  unfold disconnect
  split
  · exact quiet_request ..
  · exact ⟨.refl _ _, nofun⟩

theorem quiet_sendNext (r : Radio) (wire : Wire) : QuietAsked r wire (r.sendNext wire) := by
  unfold sendNext
  split
  · exact ⟨.refl _ _, nofun⟩
  · split
    · exact ⟨⟨rfl, rfl, .refl _ _⟩, nofun⟩
    · rename_i c rest _
      have hsend := quiet_send { r with pending := rest } wire c
      exact ⟨⟨hsend.1.connection, hsend.1.ready, hsend.1.writes⟩, hsend.2⟩

theorem error_of_afterBringup {r : Radio} {step : BringupStep} {e : RadioError}
    (h : (r.afterBringup step).result = .error e) :
    ∃ cause, step.result = .error cause ∧ e = .bringup cause := by
  cases hresult : step.result with
  | ok event? =>
    rw [afterBringup, hresult] at h
    cases h
  | error cause =>
    rw [afterBringup, hresult] at h
    cases h
    exact ⟨cause, rfl, rfl⟩

/-- **A tick of the radio is quiet.** -/
theorem quiet_tick (r : Radio) (wire : Wire) :
    Quiet r wire (r.tick wire).radio (r.tick wire).wire ∧
      ∀ e, (r.tick wire).result = .error e → ¬ e.IsEncode := by
  unfold tick
  split
  · rename_i hactive
    have htick := Bringup.unfinished_tick r.bringup r.slot wire hactive
    refine ⟨⟨rfl, ?_, htick.writes⟩, fun e h => ?_⟩
    · exact htick.open_.trans (Bringup.isComplete_of_isActive hactive).symm
    · obtain ⟨cause, hcause, rfl⟩ := error_of_afterBringup h
      exact htick.fits cause hcause
  · have hnext := quiet_sendNext { r with slot := (r.slot.tick r.responseTimeout).2 } wire
    dsimp only
    generalize sendNext { r with slot := (r.slot.tick r.responseTimeout).2 } wire = asked at hnext
    obtain ⟨result, r', wire'⟩ := asked
    have hquiet : Quiet r wire r' wire' :=
      ⟨hnext.1.connection, hnext.1.ready, hnext.1.writes⟩
    cases result with
    | ok _ => exact ⟨hquiet, nofun⟩
    | error e =>
      refine ⟨hquiet, fun e' h => ?_⟩
      cases h
      exact hnext.2 e rfl

/-! ### What the module sends -/

/-- What the radio made of a byte from the module: data of the peer, which leaves all but the line
as it was, or something else. -/
inductive Heard (r : Radio) (wire : Wire) : Step → Prop
  | data {bytes : Buffer 128} {line : LineReader} :
      Heard r wire ⟨.ok (some (.data bytes)), { r with line }, wire⟩
  | other {step : Step} : (∀ bytes, step.result ≠ .ok (some (.data bytes))) →
      (step.result = .ok (some .disconnected) → step.radio.connection = none) →
      wire.Gains ControlPacket step.wire → (∀ e, step.result = .error e → ¬ e.IsEncode) →
      Heard r wire step

/-- Neither data nor the end of a connection. -/
def Plain (event? : Option RadioEvent) : Prop :=
  (∀ bytes, event? ≠ some (.data bytes)) ∧ event? ≠ some .disconnected

theorem heard_of_plain {r r' : Radio} {wire wire' : Wire} {event? : Option RadioEvent}
    (hplain : Plain event?) (hwire : wire.Gains ControlPacket wire') :
    Heard r wire ⟨.ok event?, r', wire'⟩ :=
  .other (fun bytes h => hplain.1 bytes (Except.ok.inj h))
    (fun h => absurd (Except.ok.inj h) hplain.2) hwire nofun

theorem heard_completeRequest {r₀ : Radio} (r : Radio) (wire : Wire) (command status : UInt8)
    (data : Bytes) : Heard r₀ wire (r.completeRequest wire command status data) := by
  have hnext := quiet_sendNext r wire
  unfold completeRequest
  generalize r.sendNext wire = asked at hnext
  obtain ⟨result, r', wire'⟩ := asked
  have hwrites := hnext.1.writes
  cases result with
  | error e =>
    refine .other nofun nofun hwrites (fun e' h => ?_)
    cases h
    exact hnext.2 e rfl
  | ok _ =>
    dsimp only
    split
    · split
      · have hstatus := quiet_request r' wire' .readStatus
        generalize r'.request wire' .readStatus = asked at hstatus
        obtain ⟨result, r'', wire''⟩ := asked
        cases result with
        | ok _ => exact heard_of_plain ⟨nofun, nofun⟩ (hwrites.trans hstatus.1.writes)
        | error e =>
          refine .other nofun nofun (hwrites.trans hstatus.1.writes) (fun e' h => ?_)
          cases h
          exact hstatus.2 e rfl
      · exact heard_of_plain ⟨nofun, nofun⟩ hwrites
    · split
      · exact heard_of_plain ⟨nofun, nofun⟩ hwrites
      · exact heard_of_plain ⟨nofun, nofun⟩ hwrites

theorem heard_complete {r₀ : Radio} (r : Radio) (wire : Wire) (command status : UInt8)
    (data : Bytes) : Heard r₀ wire (r.complete wire command status data) := by
  unfold complete
  dsimp only
  split
  · exact heard_completeRequest ..
  · split
    · exact heard_of_plain ⟨nofun, nofun⟩ (.refl _ _)
    · have hanswer := Bringup.answer_control r.bringup (r.slot.complete command).2 wire command
        status data
      have hevent : ∀ (step : BringupStep) (event : RadioEvent), (∀ e, event ≠ .bringup e) →
          (r.afterBringup step).result ≠ .ok (some event) := by
        intro step event hne h
        unfold afterBringup at h
        rcases step with ⟨_ | _ | _, _, _, _⟩
        · cases h
        · cases h
        · cases h
          exact hne _ rfl
      refine .other (fun bytes => hevent _ _ nofun) (fun h => absurd h (hevent _ _ nofun))
        hanswer.1 (fun e h => ?_)
      · obtain ⟨cause, hcause, rfl⟩ := error_of_afterBringup h
        exact hanswer.2 cause hcause

theorem heard_receive (r : Radio) (wire : Wire) (byte : UInt8) :
    Heard r wire (r.receive wire byte) := by
  unfold receive
  dsimp only
  split
  · exact .other nofun nofun (.refl _ _) (fun e h => by cases h; exact id)
  · exact heard_of_plain ⟨nofun, nofun⟩ (.refl _ _)
  · exact heard_of_plain ⟨nofun, nofun⟩ (.refl _ _)
  · split
    · exact .other nofun nofun (.refl _ _) (fun e h => by cases h; exact id)
    · rename_i response _
      cases response with
      | commandComplete command status data => exact heard_complete ..
      | transparentData handle data =>
        unfold react
        dsimp only
        split
        · exact .data
        · exact heard_of_plain ⟨nofun, nofun⟩ (.refl _ _)
      | connectionComplete status handle address =>
        unfold react
        dsimp only
        split
        · exact heard_of_plain ⟨nofun, nofun⟩ (.refl _ _)
        · exact heard_of_plain ⟨nofun, nofun⟩ (.refl _ _)
      | disconnectionComplete handle reason =>
        refine .other (fun bytes h => ?_) (fun _ => rfl) (.refl _ _) nofun
        have hevent := Except.ok.inj h
        split at hevent <;> cases hevent
      | statusReport status => exact heard_of_plain ⟨nofun, nofun⟩ (.refl _ _)
      | pairingComplete handle result => exact heard_of_plain ⟨nofun, nofun⟩ (.refl _ _)
      | unknown opcode => exact heard_of_plain ⟨nofun, nofun⟩ (.refl _ _)

end Radio

end RoomControl
