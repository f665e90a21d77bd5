import RoomControl.Proofs.Radio.Course

/-!
# One command in flight

Bring-up and the commands of the node share one slot. `Sends` is what may become of a slot and a wire
when every command is written from a free slot. A `Radio` takes each of its inputs that way, whatever
the module sends and however the wire fails: the input itself may free the slot, as a completion or a
timeout does, and what is written after that is `Sends`.

So while bring-up is under way the slot holds the command that bring-up waits for, and nothing else.
Data for the peer is written without a slot and is not part of this.
-/

set_option autoImplicit false

namespace RoomControl

/-! ## Writing from a free slot -/

/-- What becomes of a slot and a wire when commands are written, each while none is in flight. A reset
of the module is written without waiting for it. -/
inductive Sends : CommandSlot → Wire → CommandSlot → Wire → Prop
  | nothing (slot : CommandSlot) (wire : Wire) : Sends slot wire slot wire
  | send {wire wire' : Wire} {slot' : CommandSlot} (c : Command) :
      Sends (CommandSlot.free.send wire c).2.1 (CommandSlot.free.send wire c).2.2 slot' wire' →
      Sends .free wire slot' wire'
  | reset {wire wire' : Wire} {slot' : CommandSlot} :
      Sends .free (Command.reset.write wire).2 slot' wire' → Sends .free wire slot' wire'

namespace Sends

variable {slot slot' slot'' : CommandSlot} {wire wire' wire'' : Wire}

theorem one (wire : Wire) (c : Command) :
    Sends .free wire (CommandSlot.free.send wire c).2.1 (CommandSlot.free.send wire c).2.2 :=
  .send c (.nothing _ _)

theorem trans (first : Sends slot wire slot' wire') (second : Sends slot' wire' slot'' wire'') :
    Sends slot wire slot'' wire'' := by
  induction first with
  | nothing _ _ => exact second
  | send c _ ih => exact .send c (ih second)
  | reset _ ih => exact .reset (ih second)

/-- While a command is in flight nothing is written. -/
theorem nothing_of_busy (h : Sends slot wire slot' wire') (hbusy : slot.isBusy = true) :
    slot' = slot ∧ wire' = wire := by
  cases h with
  | nothing _ _ => exact ⟨rfl, rfl⟩
  | send _ _ => cases hbusy
  | reset _ => cases hbusy

end Sends

theorem CommandSlot.eq_free {slot : CommandSlot} (h : slot.outstanding = none) : slot = .free := by
  cases slot with
  | free => rfl
  | waiting _ _ => cases h

theorem CommandSlot.eq_free_of_idle {slot : CommandSlot} (h : slot.isBusy = false) :
    slot = .free := by
  cases slot with
  | free => rfl
  | waiting _ _ => cases h

namespace Sequencer

/-! ## Bring-up -/

/-- The slot holds the command that bring-up waits for. -/
structure InStep (s : Sequencer) : Prop where
  slot : s.bringup.isActive = true →
    s.slot.outstanding = if s.bringup.isAwaiting then some s.bringup.command else none
  command : s.bringup.isAwaiting = true → s.bringup.command = s.bringup.stage.opcode

theorem InStep.free {s : Sequencer} (h : InStep s) (hactive : s.bringup.isActive = true)
    (hidle : s.bringup.isAwaiting = false) : s.slot = .free := by
  have hslot := h.slot hactive
  rw [hidle] at hslot
  exact CommandSlot.eq_free hslot

theorem inStep_of_free {b : Bringup} (hidle : b.isAwaiting = false) : InStep ⟨b, .free⟩ := by
  refine ⟨fun _ => ?_, fun hawaiting => ?_⟩
  · rw [hidle]
    rfl
  · rw [hidle] at hawaiting
    cases hawaiting

theorem inStep_of_failed {b : Bringup} {wire : Wire} {step : BringupStep}
    (h : b.Failed .free wire step) : InStep ⟨step.bringup, step.slot⟩ := by
  cases h with
  | exhausted _ => exact inStep_of_free rfl
  | reset _ _ => exact inStep_of_free rfl
  | retry _ _ => exact inStep_of_free rfl

theorem sends_of_failed {b : Bringup} {wire : Wire} {step : BringupStep}
    (h : b.Failed .free wire step) : Sends .free wire step.slot step.wire := by
  cases h with
  | exhausted _ => exact .nothing _ _
  | reset _ _ => exact .reset (.nothing _ _)
  | retry _ _ => exact .nothing _ _

/-- The slot once bring-up has taken note of the input, before it writes. -/
def released (s : Sequencer) : Input → CommandSlot
  | .start => s.slot
  | .forget => .free
  | .tick => if s.bringup.phase = .awaiting 0 then .free else s.slot
  | .completion command _ _ => (s.slot.complete command).2

theorem released_tick {s : Sequencer} (h : s.bringup.phase ≠ .awaiting 0) :
    s.released .tick = s.slot := if_neg h

theorem ne_of_due {b : Bringup} {c : Command} (h : b.due? = some c) : b.phase ≠ .awaiting 0 := by
  intro hphase
  rw [Bringup.due?, hphase] at h
  cases h

theorem released_of_answered {s : Sequencer} {command status : UInt8} {data : Bytes}
    (h : s.slot.outstanding = some command) : s.released (.completion command status data) = .free := by
  rw [released, CommandSlot.complete, if_pos h]

/-- While bring-up is under way, what answers the command in flight is what it waits for. -/
theorem InStep.waits {s : Sequencer} (h : InStep s) (hactive : s.bringup.isActive = true)
    {command : UInt8} (houtstanding : s.slot.outstanding = some command) :
    s.bringup.isAwaiting = true ∧ command = s.bringup.command := by
  have hslot := h.slot hactive
  rw [houtstanding] at hslot
  split at hslot
  next hawaiting => exact ⟨hawaiting, Option.some.inj hslot⟩
  next => cases hslot

/-- **Bring-up keeps in step**, and writes from a free slot. -/
theorem InStep.moved {s : Sequencer} {wire : Wire} {input : Input} {es : List Entry}
    {step : BringupStep} (h : InStep s) (hmoved : Moved s wire input es step)
    (hstart : input ≠ .start) (hforget : input ≠ .forget) :
    InStep ⟨step.bringup, step.slot⟩ ∧ Sends (s.released input) wire step.slot step.wire := by
  cases hmoved with
  | started => exact absurd rfl hstart
  | forgot => exact absurd rfl hforget
  | rested hidle =>
    have hphase : s.bringup.phase ≠ .awaiting 0 := by
      intro hphase
      rw [Bringup.isActive, hphase] at hidle
      cases hidle
    rw [released_tick hphase]
    exact ⟨h, .nothing _ _⟩
  | @settled left hphase =>
    have hfree := h.free (by simp only [Bringup.isActive, hphase])
      (by simp only [Bringup.isAwaiting, hphase])
    have hstill : InStep ⟨{ s.bringup with phase := .settling left }, s.slot⟩ := by
      rw [hfree]
      exact inStep_of_free rfl
    rw [released_tick fun hsame => by cases hphase.symm.trans hsame]
    exact ⟨hstill, .nothing _ _⟩
  | waited hphase =>
    have hawaiting : s.bringup.isAwaiting = true := by simp only [Bringup.isAwaiting, hphase]
    have hslot := h.slot (Bringup.isActive_of_isAwaiting hawaiting)
    rw [hawaiting] at hslot
    rw [released_tick fun hsame => by cases hphase.symm.trans hsame]
    exact ⟨⟨fun _ => hslot, fun _ => h.command hawaiting⟩, .nothing _ _⟩
  | expired hphase hfailed =>
    rw [released, if_pos hphase]
    exact ⟨inStep_of_failed hfailed, sends_of_failed hfailed⟩
  | @issued c _ hdue hwrite =>
    have hc := Bringup.command_of_due hdue
    have hfree := h.free (Bringup.isActive_of_due hdue) (Bringup.isAwaiting_of_due hdue)
    have hsends := Sends.one wire c
    rw [CommandSlot.send, hwrite] at hsends
    rw [released_tick (ne_of_due hdue), hfree]
    refine ⟨⟨fun _ => ?_, fun _ => Stage.opcode_command _ _⟩, hsends⟩
    rw [← hc]
    rfl
  | @unwritten c _ _ _ hdue hwrite hfailed =>
    have hfree := h.free (Bringup.isActive_of_due hdue) (Bringup.isAwaiting_of_due hdue)
    have hsends := Sends.one wire c
    rw [CommandSlot.send, hwrite] at hsends
    rw [hfree] at hfailed
    rw [released_tick (ne_of_due hdue), hfree]
    exact ⟨inStep_of_failed hfailed, hsends.trans (sends_of_failed hfailed)⟩
  | stray hother =>
    rw [released, CommandSlot.complete, if_neg hother]
    exact ⟨h, .nothing _ _⟩
  | ignored houtstanding hignored =>
    rw [released_of_answered houtstanding]
    refine ⟨⟨fun hactive => ?_, h.command⟩, .nothing _ _⟩
    obtain ⟨hawaiting, hcommand⟩ := h.waits hactive houtstanding
    rcases hignored with hidle | hother
    · rw [hawaiting] at hidle
      cases hidle
    · exact absurd hcommand hother
  | refused houtstanding _ _ hfailed =>
    rw [released_of_answered houtstanding]
    exact ⟨inStep_of_failed hfailed, sends_of_failed hfailed⟩
  | advanced houtstanding _ _ =>
    rw [released_of_answered houtstanding]
    exact ⟨inStep_of_free rfl, .nothing _ _⟩
  | completed houtstanding _ _ =>
    rw [released_of_answered houtstanding]
    exact ⟨inStep_of_free rfl, .nothing _ _⟩

end Sequencer

namespace Radio

/-! ## The radio -/

/-- What happens to a radio. -/
inductive Input where
  | start
  /-- The module sends a byte. -/
  | byte (byte : UInt8)
  | tick
  | setVisible (visible : Bool)
  | disconnect
  | setLineMode (mode : LineMode)
  deriving DecidableEq, Repr

/-- Takes an input, with the wire as it then is: the radio and the wire after it. -/
def handle (r : Radio) (wire : Wire) : Input → Radio × Wire
  | .start => (r.start, wire)
  | .byte byte => ((r.receive wire byte).radio, (r.receive wire byte).wire)
  | .tick => ((r.tick wire).radio, (r.tick wire).wire)
  | .setVisible visible => (r.setVisible wire visible).2
  | .disconnect => (r.disconnect wire).2
  | .setLineMode mode => (r.setLineMode mode, wire)

/-- The radio after inputs, each with the wire as it then is. -/
def after (r : Radio) (inputs : List (Wire × Input)) : Radio :=
  inputs.foldl (fun r (wire, input) => (r.handle wire input).1) r

/-- The event that this byte completes. -/
def heard? (r : Radio) (byte : UInt8) : Option Response :=
  match (r.line.feed byte).1 with
  | .ok (some (.event frame)) => (Response.ofFrame frame).toOption
  | _ => none

/-- The slot once an event is noted. -/
def noted (slot : CommandSlot) : Response → CommandSlot
  | .commandComplete command _ _ => (slot.complete command).2
  | _ => slot

/-- The slot once the radio has taken note of the input, before it writes. -/
def released (r : Radio) : Input → CommandSlot
  | .start => .free
  | .byte byte =>
    match r.heard? byte with
    | some response => noted r.slot response
    | none => r.slot
  | .tick =>
    if r.bringup.isActive then if r.bringup.phase = .awaiting 0 then .free else r.slot
    else (r.slot.tick r.responseTimeout).2
  | .setVisible _ | .disconnect | .setLineMode _ => r.slot

/-- A byte that completes an event has the radio take it. -/
theorem receive_of_some {r : Radio} {byte : UInt8} {response : Response}
    (h : r.heard? byte = some response) (wire : Wire) :
    r.receive wire byte = { r with line := (r.line.feed byte).2 }.react wire response := by
  unfold heard? at h
  unfold receive
  generalize r.line.feed byte = fed at h ⊢
  obtain ⟨received, line⟩ := fed
  rcases received with e | _ | frame | packet
  · cases h
  · cases h
  · dsimp only at h ⊢
    generalize Response.ofFrame frame = parsed at h ⊢
    cases parsed with
    | error e => cases h
    | ok response' =>
      cases h
      rfl
  · cases h

/-- Any other byte moves the line alone. -/
theorem receive_of_none {r : Radio} {byte : UInt8} (h : r.heard? byte = none) (wire : Wire) :
    (r.receive wire byte).radio = { r with line := (r.line.feed byte).2 } ∧
      (r.receive wire byte).wire = wire := by
  unfold heard? at h
  unfold receive
  generalize r.line.feed byte = fed at h ⊢
  obtain ⟨received, line⟩ := fed
  rcases received with e | _ | frame | packet
  · exact ⟨rfl, rfl⟩
  · exact ⟨rfl, rfl⟩
  · dsimp only at h ⊢
    generalize Response.ofFrame frame = parsed at h ⊢
    cases parsed with
    | error e => exact ⟨rfl, rfl⟩
    | ok response' => cases h
  · exact ⟨rfl, rfl⟩

/-! ### The commands of the node -/

/-- Bring-up is left alone, and what is written is written from a free slot. -/
structure Serves (r : Radio) (wire : Wire) (r' : Radio) (wire' : Wire) : Prop where
  bringup : r'.bringup = r.bringup
  sends : Sends r.slot wire r'.slot wire'

theorem Serves.refl (r : Radio) (wire : Wire) : Serves r wire r wire := ⟨rfl, .nothing _ _⟩

theorem Serves.trans {r₁ r₂ r₃ : Radio} {w₁ w₂ w₃ : Wire} (first : Serves r₁ w₁ r₂ w₂)
    (second : Serves r₂ w₂ r₃ w₃) : Serves r₁ w₁ r₃ w₃ :=
  ⟨second.bringup.trans first.bringup, first.sends.trans second.sends⟩

theorem serves_send {r : Radio} (hfree : r.slot = .free) (wire : Wire) (c : AppCommand) :
    Serves r wire (r.send wire c).2.1 (r.send wire c).2.2 := by
  have hsends := Sends.one wire c.toCommand
  rw [← hfree] at hsends
  exact ⟨rfl, hsends⟩

theorem serves_request (r : Radio) (wire : Wire) (c : AppCommand) :
    Serves r wire (r.request wire c).2.1 (r.request wire c).2.2 := by
  unfold request
  split
  · exact .refl r wire
  · split
    · split
      · exact ⟨rfl, .nothing _ _⟩
      · exact .refl r wire
    next hfree =>
      rw [not_or, Bool.not_eq_true] at hfree
      exact serves_send (CommandSlot.eq_free_of_idle hfree.1) wire c

theorem serves_sendNext (r : Radio) (wire : Wire) :
    Serves r wire (r.sendNext wire).2.1 (r.sendNext wire).2.2 := by
  unfold sendNext
  split
  · exact .refl r wire
  next hfree =>
    rw [Bool.not_eq_true] at hfree
    split
    · exact ⟨rfl, .nothing _ _⟩
    next c rest _ =>
      have hsend := serves_send (r := { r with pending := rest })
        (CommandSlot.eq_free_of_idle hfree) wire c
      exact ⟨hsend.bringup, hsend.sends⟩

theorem serves_completeRequest (r : Radio) (wire : Wire) (command status : UInt8) (data : Bytes) :
    Serves r wire (r.completeRequest wire command status data).radio
      (r.completeRequest wire command status data).wire := by
  have hnext := serves_sendNext r wire
  unfold completeRequest
  generalize r.sendNext wire = asked at hnext
  obtain ⟨result, r', wire'⟩ := asked
  cases result with
  | error e => exact hnext
  | ok _ =>
    dsimp only
    split
    · split
      · have hstatus := serves_request r' wire' .readStatus
        generalize r'.request wire' .readStatus = asked at hstatus
        obtain ⟨result, r'', wire''⟩ := asked
        cases result with
        | ok _ => exact hnext.trans hstatus
        | error e => exact hnext.trans hstatus
      · exact hnext
    · split
      · exact ⟨hnext.bringup, hnext.sends⟩
      · exact hnext

/-- All but the slot, the commands held back and the status is as it was. -/
structure Keeps (r r' : Radio) : Prop where
  line : r'.line = r.line
  bringup : r'.bringup = r.bringup
  connection : r'.connection = r.connection
  responseTimeout : r'.responseTimeout = r.responseTimeout

theorem Keeps.refl (r : Radio) : Keeps r r := ⟨rfl, rfl, rfl, rfl⟩

theorem Keeps.trans {r₁ r₂ r₃ : Radio} (first : Keeps r₁ r₂) (second : Keeps r₂ r₃) : Keeps r₁ r₃ :=
  ⟨second.line.trans first.line, second.bringup.trans first.bringup,
    second.connection.trans first.connection,
    second.responseTimeout.trans first.responseTimeout⟩

theorem keeps_request (r : Radio) (wire : Wire) (c : AppCommand) :
    Keeps r (r.request wire c).2.1 := by
  unfold request
  split
  · exact .refl r
  · split
    · split
      · exact ⟨rfl, rfl, rfl, rfl⟩
      · exact .refl r
    · exact ⟨rfl, rfl, rfl, rfl⟩

theorem keeps_disconnect (r : Radio) (wire : Wire) : Keeps r (r.disconnect wire).2.1 := by
  unfold disconnect
  split
  · exact keeps_request ..
  · exact .refl r

theorem keeps_sendNext (r : Radio) (wire : Wire) : Keeps r (r.sendNext wire).2.1 := by
  unfold sendNext
  split
  · exact .refl r
  · split
    · exact ⟨rfl, rfl, rfl, rfl⟩
    · exact ⟨rfl, rfl, rfl, rfl⟩

theorem keeps_completeRequest (r : Radio) (wire : Wire) (command status : UInt8) (data : Bytes) :
    Keeps r (r.completeRequest wire command status data).radio := by
  have hnext := keeps_sendNext r wire
  unfold completeRequest
  generalize r.sendNext wire = asked at hnext
  obtain ⟨result, r', wire'⟩ := asked
  cases result with
  | error e => exact hnext
  | ok _ =>
    dsimp only
    split
    · split
      · have hstatus := keeps_request r' wire' .readStatus
        generalize r'.request wire' .readStatus = asked at hstatus
        obtain ⟨result, r'', wire''⟩ := asked
        cases result with
        | ok _ => exact hnext.trans hstatus
        | error e => exact hnext.trans hstatus
      · exact hnext
    · split
      · exact ⟨hnext.line, hnext.bringup, hnext.connection, hnext.responseTimeout⟩
      · exact hnext

/-- A tick on which bring-up is at rest. -/
theorem keeps_tick {r : Radio} (hrested : r.bringup.isActive = false) (wire : Wire) :
    Keeps r (r.tick wire).radio := by
  rw [tick, hrested, if_neg Bool.false_ne_true]
  have hnext := keeps_sendNext { r with slot := (r.slot.tick r.responseTimeout).2 } wire
  have hkeeps : Keeps r (sendNext { r with slot := (r.slot.tick r.responseTimeout).2 } wire).2.1 :=
    ⟨hnext.line, hnext.bringup, hnext.connection, hnext.responseTimeout⟩
  dsimp only
  generalize sendNext { r with slot := (r.slot.tick r.responseTimeout).2 } wire = asked at hkeeps
  obtain ⟨result, r', wire'⟩ := asked
  cases result with
  | ok _ => exact hkeeps
  | error e => exact hkeeps

/-! ### Both together -/

/-- While bring-up is under way nothing is held back, and the slot holds what it waits for. -/
structure Sound (r : Radio) : Prop where
  pending : r.bringup.isActive = true → r.pending = []
  inStep : Sequencer.InStep ⟨r.bringup, r.slot⟩

theorem sound_of_rested {r : Radio} (h : r.bringup.isActive = false) : Sound r := by
  have hactive {P : Prop} (hactive : r.bringup.isActive = true) : P := by
    rw [h] at hactive
    cases hactive
  exact ⟨hactive, ⟨hactive, fun hawaiting => hactive (Bringup.isActive_of_isAwaiting hawaiting)⟩⟩

theorem Serves.sound {r r' : Radio} {wire wire' : Wire} (h : Serves r wire r' wire')
    (hrested : r.bringup.isActive = false) : Sound r' :=
  sound_of_rested (by rw [h.bringup, hrested])

/-- A step of bring-up, seen from the radio. -/
theorem Sound.afterBringup {r : Radio} (h : Sound r) (hactive : r.bringup.isActive = true)
    (wire : Wire) (input : Sequencer.Input) (hstart : input ≠ .start) (hforget : input ≠ .forget) :
    let s : Sequencer := ⟨r.bringup, r.slot⟩
    Sound (r.afterBringup (s.react wire input)).radio ∧
      Sends (s.released input) wire (r.afterBringup (s.react wire input)).radio.slot
        (r.afterBringup (s.react wire input)).wire := by
  have hmoved := h.inStep.moved (Sequencer.moved _ wire input) hstart hforget
  exact ⟨⟨fun _ => h.pending hactive, hmoved.1⟩, hmoved.2⟩

theorem sound_tick {r : Radio} (h : Sound r) (wire : Wire) :
    Sound (r.tick wire).radio ∧ Sends (r.released .tick) wire (r.tick wire).radio.slot
      (r.tick wire).wire := by
  unfold tick released
  split
  next hactive => exact h.afterBringup hactive wire .tick nofun nofun
  next hrested =>
    rw [Bool.not_eq_true] at hrested
    have hnext := serves_sendNext { r with slot := (r.slot.tick r.responseTimeout).2 } wire
    dsimp only
    generalize sendNext { r with slot := (r.slot.tick r.responseTimeout).2 } wire = asked at hnext
    obtain ⟨result, r', wire'⟩ := asked
    cases result with
    | ok _ => exact ⟨hnext.sound hrested, hnext.sends⟩
    | error e => exact ⟨hnext.sound hrested, hnext.sends⟩

theorem sound_complete {r : Radio} (h : Sound r) (wire : Wire) (command status : UInt8)
    (data : Bytes) :
    Sound (r.complete wire command status data).radio ∧
      Sends (r.slot.complete command).2 wire (r.complete wire command status data).radio.slot
        (r.complete wire command status data).wire := by
  unfold complete
  dsimp only
  split
  next hrested =>
    have hserves := serves_completeRequest { r with slot := (r.slot.complete command).2 } wire
      command status data
    exact ⟨hserves.sound hrested, hserves.sends⟩
  next hactive =>
    rw [Bool.not_eq_false] at hactive
    have hstep := h.afterBringup hactive wire (.completion command status data) nofun nofun
    simp only [Sequencer.react, Sequencer.released] at hstep
    split
    next hstray =>
      rw [hstray, if_neg Bool.false_ne_true] at hstep
      exact hstep
    next hanswered =>
      rw [Bool.not_eq_false] at hanswered
      rw [if_pos hanswered] at hstep
      exact hstep

/-- The radio but for its line, its status and its connection. -/
theorem Sound.of_same {r r' : Radio} (h : Sound r) (hbringup : r'.bringup = r.bringup)
    (hslot : r'.slot = r.slot) (hpending : r'.pending = r.pending) : Sound r' := by
  refine ⟨fun hactive => ?_, ?_⟩
  · rw [hbringup] at hactive
    rw [hpending]
    exact h.pending hactive
  · rw [hbringup, hslot]
    exact h.inStep

theorem sound_react {r : Radio} (h : Sound r) (wire : Wire) (response : Response) :
    Sound (r.react wire response).radio ∧
      Sends (noted r.slot response) wire (r.react wire response).radio.slot
        (r.react wire response).wire := by
  cases response with
  | commandComplete command status data => exact sound_complete h wire command status data.bytes
  | connectionComplete status handle address =>
    unfold react
    dsimp only
    split
    · exact ⟨h.of_same rfl rfl rfl, .nothing _ _⟩
    · exact ⟨h, .nothing _ _⟩
  | statusReport status => exact ⟨h.of_same rfl rfl rfl, .nothing _ _⟩
  | disconnectionComplete handle reason => exact ⟨h.of_same rfl rfl rfl, .nothing _ _⟩
  | transparentData handle data => exact ⟨h, .nothing _ _⟩
  | pairingComplete handle result => exact ⟨h, .nothing _ _⟩
  | unknown opcode => exact ⟨h, .nothing _ _⟩

theorem sound_receive {r : Radio} (h : Sound r) (wire : Wire) (byte : UInt8) :
    Sound (r.receive wire byte).radio ∧
      Sends (r.released (.byte byte)) wire (r.receive wire byte).radio.slot
        (r.receive wire byte).wire := by
  have hline : Sound { r with line := (r.line.feed byte).2 } := h.of_same rfl rfl rfl
  cases hheard : r.heard? byte with
  | none =>
    obtain ⟨hradio, hwire⟩ := receive_of_none hheard wire
    rw [hradio, hwire, released, hheard]
    exact ⟨hline, .nothing _ _⟩
  | some response =>
    rw [receive_of_some hheard wire, released, hheard]
    exact sound_react hline wire response

/-- A request of the node. While bring-up is under way it is refused. -/
theorem sound_request {r : Radio} (h : Sound r) (wire : Wire) (c : AppCommand) :
    Sound (r.request wire c).2.1 ∧
      Sends r.slot wire (r.request wire c).2.1.slot (r.request wire c).2.2 := by
  have hserves := serves_request r wire c
  refine ⟨?_, hserves.sends⟩
  cases hactive : r.bringup.isActive with
  | true =>
    rw [request, if_pos hactive]
    exact h
  | false => exact hserves.sound hactive

/-- **Every input keeps one command in flight.** -/
theorem sound_handle {r : Radio} (h : Sound r) (wire : Wire) (input : Input) :
    Sound (r.handle wire input).1 ∧
      Sends (r.released input) wire (r.handle wire input).1.slot (r.handle wire input).2 := by
  cases input with
  | start => exact ⟨⟨fun _ => rfl, ⟨fun _ => rfl, nofun⟩⟩, .nothing _ _⟩
  | byte byte => exact sound_receive h wire byte
  | tick => exact sound_tick h wire
  | setVisible visible => exact sound_request h wire (.advertise visible)
  | disconnect =>
    rw [handle, Radio.disconnect]
    split
    · exact sound_request h wire .disconnect
    · exact ⟨h, .nothing _ _⟩
  | setLineMode mode => exact ⟨h.of_same rfl rfl rfl, .nothing _ _⟩

theorem sound_after {r : Radio} (h : Sound r) (inputs : List (Wire × Input)) :
    Sound (r.after inputs) := by
  induction inputs generalizing r with
  | nil => exact h
  | cons x rest ih => exact ih (sound_handle h x.1 x.2).1

/-- **One command in flight.** After any inputs, on wires that fail in any way: while bring-up is under
way no command is held back, and one is in flight exactly when bring-up waits for it, which is then
the command of its stage. Whatever comes next, every command is written from a free slot; so nothing
is written while one is in flight. -/
theorem one_in_flight (config : NodeConfig) (inputs : List (Wire × Input)) :
    (((ofConfig config).after inputs).bringup.isActive = true →
      ((ofConfig config).after inputs).pending = [] ∧
      (((ofConfig config).after inputs).slot.isBusy = true ↔
        ((ofConfig config).after inputs).bringup.isAwaiting = true) ∧
      ∀ opcode, ((ofConfig config).after inputs).slot.outstanding = some opcode →
        opcode = ((ofConfig config).after inputs).bringup.command ∧
        opcode = ((ofConfig config).after inputs).bringup.stage.opcode) ∧
    ∀ wire input,
      let (r', wire') := ((ofConfig config).after inputs).handle wire input
      let slot := ((ofConfig config).after inputs).released input
      Sends slot wire r'.slot wire' ∧ (slot.isBusy = true → r'.slot = slot ∧ wire' = wire) := by
  have hrested : (ofConfig config).bringup.isActive = false := rfl
  have h := sound_after (sound_of_rested hrested) inputs
  generalize (ofConfig config).after inputs = r at h ⊢
  refine ⟨fun hactive => ⟨h.pending hactive, ?_, fun opcode houtstanding => ?_⟩,
    fun wire input => ⟨(sound_handle h wire input).2, (sound_handle h wire input).2.nothing_of_busy⟩⟩
  · have hslot := h.inStep.slot hactive
    rw [CommandSlot.isBusy, hslot]
    split
    next hawaiting => exact ⟨fun _ => hawaiting, fun _ => rfl⟩
    next hidle => exact ⟨nofun, fun hawaiting => absurd hawaiting hidle⟩
  · obtain ⟨hawaiting, hcommand⟩ := h.inStep.waits hactive houtstanding
    exact ⟨hcommand, hcommand.trans (h.inStep.command hawaiting)⟩

end Radio

end RoomControl
