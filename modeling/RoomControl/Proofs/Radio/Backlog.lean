import RoomControl.Proofs.Radio.Requests

/-!
# Runs of commands

From the input that completes bring-up on, the commands accepted are those whose turn has come and
those that still wait, in this order, and what was written are the former but for what was passed over
(`accepted_in_order`). So no command is lost, and none overtakes another.

A failed command has the status requested again, unless there is no room for the request: then a
completion that answers nothing has reported the failure while as many commands as can be were held
back, and they stay as they are (`status_wanted_iff`). This is a law of all runs; what the wires do to
bring-up does not matter to it, since nothing is held back meanwhile (`Orderly`).
-/

set_option autoImplicit false

namespace RoomControl

namespace Radio

variable {r : Radio} {wire : Wire}

/-! ## While the node is served -/

/-- The wires deliver, and the radio is not started. -/
def Undisturbed (later : List (Wire × Input)) : Prop :=
  ∀ x ∈ later, x.1.Delivers ∧ x.2 ≠ .start

theorem Undisturbed.append {later more : List (Wire × Input)} (h : Undisturbed later)
    (hmore : Undisturbed more) : Undisturbed (later ++ more) := List.forall_mem_append.mpr ⟨h, hmore⟩

theorem Undisturbed.dropLast {later : List (Wire × Input)} (h : Undisturbed later) :
    Undisturbed later.dropLast := fun x hx => h x ((List.dropLast_sublist later).mem hx)

theorem serving_after (h : Serving r) {later : List (Wire × Input)} (hlater : Undisturbed later) :
    Serving (r.after later) := by
  induction later generalizing r with
  | nil => exact h
  | cons x rest ih =>
    obtain ⟨⟨hwire, hstart⟩, hrest⟩ := List.forall_mem_cons.mp hlater
    exact ih (passes_handle h hwire hstart).1 hrest

/-- Over a run, what was held back or is accepted has its turn or is held back after it, in order. -/
theorem order_during (h : Serving r) {later : List (Wire × Input)} (hlater : Undisturbed later) :
    r.pending ++ during accepts r later =
      (during turns r later).map Turn.command ++ (r.after later).pending := by
  induction later generalizing r with
  | nil => exact List.append_nil _
  | cons x rest ih =>
    obtain ⟨wire, input⟩ := x
    obtain ⟨⟨hwire, hstart⟩, hrest⟩ := List.forall_mem_cons.mp hlater
    obtain ⟨hserving, turned, hpasses⟩ := passes_handle h hwire hstart
    have hcommands : (turned.map fun c => (⟨c, r.isConnected⟩ : Turn)).map Turn.command = turned := by
      rw [List.map_map]
      exact List.map_id turned
    calc r.pending ++ (r.accepts wire input ++ during accepts (r.handle wire input).1 rest)
        = turned ++ ((r.handle wire input).1.pending ++
            during accepts (r.handle wire input).1 rest) := by
          rw [← List.append_assoc, hpasses.order, List.append_assoc]
      _ = turned ++ ((during turns (r.handle wire input).1 rest).map Turn.command ++
            ((r.handle wire input).1.after rest).pending) := by rw [ih hserving hrest]
      _ = _ := by
          rw [during, hpasses.turns_eq, List.map_append, hcommands, List.append_assoc]
          rfl

/-- Over a run, what is written are the packets of the turns that are not passed over. -/
theorem writes_during (h : Serving r) {later : List (Wire × Input)} (hlater : Undisturbed later) :
    during writes r later = written (during turns r later) := by
  induction later generalizing r with
  | nil => rfl
  | cons x rest ih =>
    obtain ⟨wire, input⟩ := x
    obtain ⟨⟨hwire, hstart⟩, hrest⟩ := List.forall_mem_cons.mp hlater
    obtain ⟨hserving, turned, hpasses⟩ := passes_handle h hwire hstart
    rw [during, during, written_append, hpasses.turns_eq, hpasses.writes_eq, ih hserving hrest]

/-! ## Under bring-up -/

theorem pending_of_active (hactive : r.bringup.isActive = true) (wire : Wire) {input : Input}
    (hstart : input ≠ .start) : (r.handle wire input).1.pending = r.pending := by
  have hrefused (c : AppCommand) : (r.request wire c).2.1 = r := by rw [request, if_pos hactive]
  cases input with
  | start => exact absurd rfl hstart
  | byte byte =>
    rw [handle]
    dsimp only
    by_cases hcompletion : r.HearsCompletion byte
    · obtain ⟨command, status, data, hheard⟩ := hcompletion
      rw [receive_of_some hheard, react, complete]
      dsimp only
      rw [hactive, if_neg Bool.false_ne_true.symm]
      split
      · rfl
      · rfl
    · obtain ⟨_, _, _, hstep, -⟩ := receive_of_other hcompletion wire
      rw [hstep]
  | tick => rw [handle, tick, if_pos hactive, afterBringup]
  | setVisible visible => exact congrArg pending (hrefused _)
  | disconnect =>
    rw [handle, Radio.disconnect]
    split
    · exact congrArg pending (hrefused _)
    · rfl
  | setLineMode mode => rfl

/-- While bring-up is under way no command is reported as failed. -/
theorem rested_of_failed {byte command status : UInt8}
    (h : r.event? wire (.byte byte) = some (.commandFailed command status)) :
    r.bringup.isActive = false := by
  rw [← Bool.not_eq_true]
  intro hactive
  by_cases hcompletion : r.HearsCompletion byte
  · obtain ⟨command', status', data, hheard⟩ := hcompletion
    rw [event?, receive_of_some hheard, react, complete] at h
    dsimp only at h
    rw [hactive, if_neg Bool.false_ne_true.symm] at h
    split at h
    · cases h
    · unfold afterBringup Step.event? at h
      generalize Bringup.answer _ _ _ _ _ _ = step at h
      rcases step with ⟨_ | _ | _, _, _, _⟩
      · cases h
      · cases h
      · cases h
  · exact not_failed_of_other hcompletion wire _ _ h

/-- While bring-up is under way nothing is held back, and at rest the radio serves the node. -/
structure Orderly (r : Radio) : Prop where
  active : r.bringup.isActive = true → r.pending = []
  serving : r.bringup.isActive = false → Serving r

theorem orderly_of_nothing (h : r.pending = []) : Orderly r := by
  refine ⟨fun _ => h, fun hrested => ⟨hrested, ?_, fun _ => h⟩⟩
  rw [h]
  exact Nat.zero_le _

theorem orderly_handle (h : Orderly r) (hwire : r.bringup.isActive = false → wire.Delivers)
    (input : Input) : Orderly (r.handle wire input).1 := by
  by_cases hstart : input = .start
  · subst hstart
    exact orderly_of_nothing rfl
  · cases hactive : r.bringup.isActive with
    | true =>
      refine orderly_of_nothing ?_
      rw [pending_of_active hactive wire hstart, h.active hactive]
    | false =>
      have hserving := (passes_handle (h.serving hactive) (hwire hactive) hstart).1
      refine ⟨fun hactive' => ?_, fun _ => hserving⟩
      cases hactive'.symm.trans hserving.rested

/-- The wires deliver, but for those that bring-up meets. -/
def Delivered : Radio → List (Wire × Input) → Prop
  | _, [] => True
  | r, (wire, input) :: rest =>
    (r.bringup.isActive = false → wire.Delivers) ∧ Delivered (r.handle wire input).1 rest

theorem orderly_after (h : Orderly r) {inputs : List (Wire × Input)} (hinputs : Delivered r inputs) :
    Orderly (r.after inputs) := by
  induction inputs generalizing r with
  | nil => exact h
  | cons x rest ih => exact ih (orderly_handle h hinputs.1 x.2) hinputs.2

theorem Undisturbed.delivered {later : List (Wire × Input)} (h : Undisturbed later) (r : Radio) :
    Delivered r later := by
  induction later generalizing r with
  | nil => trivial
  | cons x rest ih =>
    obtain ⟨hnow, hrest⟩ := List.forall_mem_cons.mp h
    exact ⟨fun _ => hnow.1, ih hrest _⟩

/-- The input completes bring-up. -/
def Completes (r : Radio) (wire : Wire) (input : Input) : Prop :=
  r.isReady = false ∧ (r.handle wire input).1.isReady = true

/-- When bring-up is complete, nothing is held back. -/
theorem Completes.pending {input : Input} (h : r.Completes wire input) (hsound : Sound r) :
    (r.handle wire input).1.pending = [] := by
  obtain ⟨hbefore, hcomplete⟩ := h
  have hactive : r.bringup.isActive = true ∧ input ≠ .start := by
    cases turned_handle r wire input with
    | started _ hbringup _ =>
      rw [isReady, hbringup] at hcomplete
      cases hcomplete
    | moved event hactive _ _ _ _ =>
      refine ⟨hactive, fun hstart => ?_⟩
      subst hstart
      cases hcomplete
    | served hbringup _ _ =>
      rw [isReady, hbringup] at hcomplete
      cases hbefore.symm.trans hcomplete
  rw [pending_of_active hactive.1 wire hactive.2, hsound.pending hactive.1]

/-! ## Nothing is lost or overtaken -/

/-- **The commands accepted pass in order.** From the input that completes bring-up on, whatever led to
it, on wires that deliver and until the radio is started: the commands accepted are, in this order,
those whose turn has come and those that are held back. Those whose turn has come are what was written,
but for each disconnect whose turn came while nobody was connected. No more than `maxPending` are held
back, and what is refused as busy leaves the radio and the wire as they were. -/
theorem accepted_in_order (config : NodeConfig) (before : List (Wire × Input)) {wire : Wire}
    {input : Input} (hup : ((ofConfig config).after before).Completes wire input)
    {later : List (Wire × Input)} (hlater : Undisturbed later) :
    let r := (((ofConfig config).after before).handle wire input).1
    let r' := r.after later
    during accepts r later = (during turns r later).map Turn.command ++ r'.pending ∧
      during writes r later = written (during turns r later) ∧
      r'.pending.length ≤ maxPending ∧
      ∀ wire, (∀ visible, (r'.setVisible wire visible).1 = .error .busy →
        (r'.setVisible wire visible).2 = (r', wire)) ∧
        ((r'.disconnect wire).1 = .error .busy → (r'.disconnect wire).2 = (r', wire)) := by
  intro r r'
  have hidle : (ofConfig config).bringup.isActive = false := rfl
  have hnothing : r.pending = [] := hup.pending (sound_after (sound_of_rested hidle) before)
  have hrested : r.bringup.isActive = false := by
    have hphase : r.bringup.phase = .complete := of_decide_eq_true hup.2
    rw [Bringup.isActive, hphase]
  have hserving : Serving r := (orderly_of_nothing hnothing).serving hrested
  have horder := order_during hserving hlater
  rw [hnothing, List.nil_append] at horder
  refine ⟨horder, writes_during hserving hlater, (serving_after hserving hlater).room, fun wire =>
    ⟨fun visible => request_of_busy, fun hbusy => ?_⟩⟩
  unfold Radio.disconnect at hbusy ⊢
  split
  next hconnected =>
    rw [if_pos hconnected] at hbusy
    exact request_of_busy hbusy
  next => rfl

/-- Inputs on a wire that delivers everything. -/
def asked (inputs : List Input) : List (Wire × Input) := inputs.map ({}, ·)

theorem undisturbed_asked {inputs : List Input} (h : .start ∉ inputs) : Undisturbed (asked inputs) := by
  intro x hx
  obtain ⟨input, hinput, rfl⟩ := List.mem_map.mp hx
  refine ⟨fun _ => rfl, fun hstart => h ?_⟩
  rw [← hstart]
  exact hinput

theorem undisturbed_reported (response : Response) : Undisturbed (reported response) := by
  intro x hx
  rw [reported] at hx
  split at hx
  · obtain ⟨byte, -, rfl⟩ := List.mem_map.mp hx
    exact ⟨fun _ => rfl, nofun⟩
  · cases hx

theorem undisturbed_answered (status : UInt8) (stages : List Stage) :
    Undisturbed (answered status stages) := by
  intro x hx
  obtain ⟨stage, -, hx⟩ := List.mem_flatMap.mp hx
  rcases List.mem_cons.mp hx with rfl | hx
  · exact ⟨fun _ => rfl, nofun⟩
  · exact undisturbed_reported _ x hx

/-- A node that hides, is told to drop its peer and to show again, while the peer leaves and nothing is
answered yet; then the first command is answered. -/
def departing : List (Wire × Input) :=
  asked [.setVisible false] ++ reported (.connectionComplete Response.success 0x20 (.replicate 6 0)) ++
    asked [.disconnect, .setVisible true] ++ reported (.disconnectionComplete 0x20 0x13) ++
    reported (.commandComplete 0x1C Response.success .empty)

/-- The disconnect is passed over, and the command after it is written. -/
theorem departing_in_order :
    let r := (((ofConfig hasty).after broughtUp.dropLast).handle {} (.byte 0x61)).1
    ((ofConfig hasty).after broughtUp.dropLast).Completes {} (.byte 0x61) ∧ Undisturbed departing ∧
      during accepts r departing = [.advertise false, .disconnect, .advertise true] ∧
      (during turns r departing).map Turn.command ++ (r.after departing).pending =
        [.advertise false, .disconnect, .advertise true] ∧
      written (during turns r departing) =
        [(AppCommand.advertise false).packet, (AppCommand.advertise true).packet] := by
  intro r
  have hup : ((ofConfig hasty).after broughtUp.dropLast).Completes {} (.byte 0x61) := by
    constructor <;> decide +kernel
  have hlater : Undisturbed departing :=
    ((((undisturbed_asked (by decide)).append (undisturbed_reported _)).append
      (undisturbed_asked (by decide))).append (undisturbed_reported _)).append
      (undisturbed_reported _)
  obtain ⟨horder, hwritten, -⟩ := accepted_in_order hasty broughtUp.dropLast hup hlater
  have haccepts : during accepts r departing = [.advertise false, .disconnect, .advertise true] := by
    decide +kernel
  have hwrites : during writes r departing =
      [(AppCommand.advertise false).packet, (AppCommand.advertise true).packet] := by
    decide +kernel
  exact ⟨hup, hlater, haccepts, horder.symm.trans haccepts, hwritten.symm.trans hwrites⟩

/-! ## A failure has the status read again -/

/-- **A failed command has the status requested, unless there is no room for the request.** Whatever
came before, on wires that deliver but for those that bring-up meets: when a byte reports that another
command than the request itself has failed, the status is wanted after it if it was wanted before, or
if the command in flight is the one that failed, or if fewer commands than can be are held back.
Otherwise the commands stay as they are. -/
theorem status_wanted_iff (config : NodeConfig) {inputs : List (Wire × Input)}
    (hinputs : Delivered (ofConfig config) inputs) {wire : Wire} (hwire : wire.Delivers)
    {byte command status : UInt8}
    (hfailed : ((ofConfig config).after inputs).event? wire (.byte byte) =
      some (.commandFailed command status)) (hother : command ≠ Command.readStatus.opcode) :
    let r := (ofConfig config).after inputs
    let r' := (r.handle wire (.byte byte)).1
    let room := r.slot.outstanding = some command ∨ r.pending.length < maxPending
    (r'.Wants .readStatus ↔ r.Wants .readStatus ∨ room) ∧
      (¬ room → r.pending.length = maxPending ∧ r'.slot = r.slot ∧ r'.pending = r.pending) := by
  intro r r' room
  have hserving : Serving r :=
    (orderly_after (orderly_of_nothing rfl) hinputs).serving (rested_of_failed hfailed)
  obtain ⟨data, hheard, hstatus⟩ := hserving.completion_of_failed hwire hfailed
  obtain ⟨-, -, -, hwants, hfull⟩ := passes_of_failed hserving hwire hheard hstatus
  by_cases hroom : room
  · exact ⟨iff_of_true (hwants ⟨hother, hroom⟩) (.inr hroom), fun hnone => absurd hroom hnone⟩
  · obtain ⟨hslot, hpending⟩ := hfull hroom
    have hlength : r.pending.length = maxPending :=
      Nat.le_antisymm hserving.room (Nat.not_lt.mp fun hless => hroom (.inr hless))
    refine ⟨?_, fun _ => ⟨hlength, hslot, hpending⟩⟩
    have hsame : r'.Wants .readStatus ↔ r.Wants .readStatus := by
      rw [Wants, Wants, show r'.slot = r.slot from hslot, show r'.pending = r.pending from hpending]
    rw [hsame, or_iff_left hroom]

/-- Five changes of visibility: the first is in flight, and there is no room for more. -/
def crowded : List (Wire × Input) := broughtUp ++ asked (List.replicate 5 (.setVisible true))

theorem delivered_crowded {more : List (Wire × Input)} (h : Undisturbed more) :
    Delivered (ofConfig hasty) (crowded ++ more) := by
  have hlater : Undisturbed (answered Response.success Stage.all ++
      asked (List.replicate 5 (.setVisible true)) ++ more) :=
    ((undisturbed_answered _ _).append (undisturbed_asked (by decide))).append h
  exact ⟨fun _ _ => rfl, hlater.delivered _⟩

/-- The command in flight fails while there is no room: it makes way for the next, and there is room
for the request again. -/
theorem status_wanted_of_crowded :
    let inputs := crowded ++ (reported (.commandComplete 0x1C 1 .empty)).dropLast
    let r := (ofConfig hasty).after inputs
    Delivered (ofConfig hasty) inputs ∧
      r.event? {} (.byte 0x60) = some (.commandFailed 0x1C 1) ∧
      (r.handle {} (.byte 0x60)).1.Wants .readStatus := by
  intro inputs r
  have hinputs : Delivered (ofConfig hasty) inputs :=
    delivered_crowded (undisturbed_reported _).dropLast
  have hfailed : r.event? {} (.byte 0x60) = some (.commandFailed 0x1C 1) := by decide +kernel
  have hroom : r.slot.outstanding = some 0x1C := by decide +kernel
  exact ⟨hinputs, hfailed,
    (status_wanted_iff hasty hinputs (fun _ => rfl) hfailed (by decide)).1.mpr (.inr (.inl hroom))⟩

/-- **A failure without room has no status read.** While there is no room, a completion that answers no
command in flight reports a failure, and the status is neither in flight nor held back. -/
theorem status_unwanted_of_crowded :
    let inputs := crowded ++ (reported (.commandComplete 0x3F 1 .empty)).dropLast
    let r := (ofConfig hasty).after inputs
    Delivered (ofConfig hasty) inputs ∧
      r.event? {} (.byte 0x3D) = some (.commandFailed 0x3F 1) ∧
      0x3F ≠ Command.readStatus.opcode ∧ ¬ (r.handle {} (.byte 0x3D)).1.Wants .readStatus := by
  refine ⟨delivered_crowded (undisturbed_reported _).dropLast, ?_, ?_, ?_⟩ <;> decide +kernel

end Radio

end RoomControl
