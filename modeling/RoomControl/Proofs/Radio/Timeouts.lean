import RoomControl.Config.Document
import RoomControl.Proofs.Radio.Peer

/-!
# Commands that nobody answers

A command that nobody answers is given up after some ticks, so that the next one can be written. Two
counters see to that. Bring-up counts down from the timeout, and has failed once it finds zero. For
the node's own commands the slot counts up, and the command is given up when the count exceeds the
timeout.

`Waited` is what a number of ticks makes of the radio that has written a command, and `Lasts` says
how many it takes: `Waited.after` is the law of a run. Both counters take one tick more than the
timeout, but for the largest timeout there is. The count of the slot stops there, so it never exceeds
that one, and a command of the node that nobody answers stays in flight for good
(`unanswered_given_up`).
-/

set_option autoImplicit false

namespace RoomControl

/-- Bring-up after so many ticks, when it waits for a command that it had just issued. -/
def Bringup.waited (b : Bringup) (ticks : Nat) : Bringup :=
  if b.isActive then { b with phase := .awaiting (b.responseTimeout - ticks) } else b

theorem Bringup.waited_of_active {b : Bringup} (h : b.isActive = true) (ticks : Nat) :
    b.waited ticks = { b with phase := .awaiting (b.responseTimeout - ticks) } := if_pos h

theorem Bringup.waited_of_rested {b : Bringup} (h : b.isActive = false) (ticks : Nat) :
    b.waited ticks = b := by
  rw [waited, h, if_neg Bool.false_ne_true]

@[simp] theorem Bringup.isActive_waited (b : Bringup) (ticks : Nat) :
    (b.waited ticks).isActive = b.isActive := by
  cases hactive : b.isActive with
  | true =>
    rw [waited_of_active hactive]
    rfl
  | false => rw [waited_of_rested hactive, hactive]

/-- One more tick for a command that has waited for `k`, as far as the slot counts. -/
theorem CommandSlot.tick_waiting (opcode : UInt8) (k timeout : Nat) :
    (waiting opcode (min k maxElapsed)).tick timeout =
      if timeout < min (k + 1) maxElapsed then (some opcode, .free)
      else (none, .waiting opcode (min (k + 1) maxElapsed)) := by
  have hcount : min (min k maxElapsed + 1) maxElapsed = min (k + 1) maxElapsed := by omega
  rw [tick, hcount]

/-- What is in flight, after commands were written from a free slot, has not waited yet. -/
theorem Sends.slot_of_free {slot slot' : CommandSlot} {wire wire' : Wire}
    (h : Sends slot wire slot' wire') (hfree : slot = .free) :
    slot' = .free ∨ ∃ opcode, slot' = .waiting opcode 0 := by
  induction h with
  | nothing slot wire => exact .inl hfree
  | @send wire wire' slot' c rest ih =>
    unfold CommandSlot.send at rest ih
    generalize c.write wire = written at rest ih
    obtain ⟨result, wire''⟩ := written
    cases result with
    | error e => exact ih rfl
    | ok _ => exact .inr ⟨c.opcode, (rest.nothing_of_busy rfl).1⟩
  | reset _ ih => exact ih rfl

/-- A command that bring-up leaves in flight, when the slot was free before it wrote, has just been
issued. -/
theorem Sequencer.Moved.awaiting_of_written {s : Sequencer} {wire : Wire} {input : Input}
    {es : List Entry} {step : BringupStep} {opcode : UInt8} (hmoved : Moved s wire input es step)
    (hstep : InStep s) (hfree : s.released input = .free)
    (hwritten : step.slot.outstanding = some opcode) :
    step.bringup.phase = .awaiting step.bringup.responseTimeout := by
  have hfailed {b : Bringup} {wire : Wire} (h : b.Failed .free wire step) :
      step.slot = .free := by cases h <;> rfl
  have hidle (h : step.slot = .free) : False := by
    rw [h] at hwritten
    cases hwritten
  -- every other move leaves the slot as it was released, or frees it
  cases hmoved with
  | issued _ _ => rfl
  | started => exact (hidle hfree).elim
  | forgot => exact (hidle rfl).elim
  | rested hrested =>
    refine (hidle ?_).elim
    rw [← hfree, released_tick]
    intro hphase
    rw [Bringup.isActive, hphase] at hrested
    cases hrested
  | settled hphase =>
    refine (hidle ?_).elim
    rw [← hfree, released_tick fun hsame => by cases hphase.symm.trans hsame]
  | waited hphase =>
    refine (hidle ?_).elim
    rw [← hfree, released_tick fun hsame => by cases hphase.symm.trans hsame]
  | expired _ h => exact (hidle (hfailed h)).elim
  | unwritten hdue _ h =>
    rw [hstep.free (Bringup.isActive_of_due hdue) (Bringup.isAwaiting_of_due hdue)] at h
    exact (hidle (hfailed h)).elim
  | stray hother =>
    rw [released, CommandSlot.complete, if_neg hother] at hfree
    exact (hidle hfree).elim
  | ignored _ _ => exact (hidle rfl).elim
  | refused _ _ _ h => exact (hidle (hfailed h)).elim
  | advanced _ _ _ => exact (hidle rfl).elim
  | completed _ _ _ => exact (hidle rfl).elim

namespace Radio

variable {r r' : Radio} {opcode : UInt8} {k : Nat}

/-! ## The step that writes a command -/

/-- What an input does to bring-up, and to the slot while bring-up is under way. -/
inductive Turned (r : Radio) (wire : Wire) (input : Input) (r' : Radio) : Prop
  | started : r'.slot = .free → r'.bringup = r.bringup.start →
      r'.responseTimeout = r.responseTimeout → Turned r wire input r'
  /-- Bring-up moves. -/
  | moved (event : Sequencer.Input) :
      r.bringup.isActive = true →
      r.released input = Sequencer.released ⟨r.bringup, r.slot⟩ event →
      r'.bringup = (Sequencer.react ⟨r.bringup, r.slot⟩ wire event).bringup →
      r'.slot = (Sequencer.react ⟨r.bringup, r.slot⟩ wire event).slot →
      r'.responseTimeout = r.responseTimeout → Turned r wire input r'
  /-- The node is served, unless bring-up is under way. -/
  | served : r'.bringup = r.bringup → (r.bringup.isActive = true → r'.slot = r.released input) →
      r'.responseTimeout = r.responseTimeout → Turned r wire input r'

theorem Keeps.turned (h : Keeps r r') (hrested : r.bringup.isActive = false) (wire : Wire)
    (input : Input) : Turned r wire input r' := by
  refine .served h.bringup (fun hactive => ?_) h.responseTimeout
  rw [hrested] at hactive
  cases hactive

theorem turned_request (r : Radio) (wire : Wire) (c : AppCommand) {input : Input}
    (hreleased : r.released input = r.slot) : Turned r wire input (r.request wire c).2.1 := by
  cases hactive : r.bringup.isActive with
  | true =>
    rw [request, if_pos hactive]
    exact .served rfl (fun _ => hreleased.symm) rfl
  | false => exact (keeps_request r wire c).turned hactive wire input

theorem turned_complete (r : Radio) (wire : Wire) (command status : UInt8) (data : Bytes)
    {line : LineReader} {input : Input}
    (hreleased : r.released input = (r.slot.complete command).2) :
    Turned r wire input (({ r with line } : Radio).complete wire command status data).radio := by
  unfold complete
  dsimp only
  split
  next hrested =>
    have hkeeps := keeps_completeRequest { r with line, slot := (r.slot.complete command).2 } wire
      command status data
    refine .served hkeeps.bringup (fun hactive => ?_) hkeeps.responseTimeout
    rw [hrested] at hactive
    cases hactive
  next hactive =>
    rw [Bool.not_eq_false] at hactive
    have hmoved := @Turned.moved r wire input
      (({ r with line, slot := (r.slot.complete command).2 } : Radio).afterBringup
        (Sequencer.react ⟨r.bringup, r.slot⟩ wire (.completion command status data))).radio
      (.completion command status data) hactive hreleased rfl rfl rfl
    unfold Sequencer.react at hmoved
    dsimp only at hmoved
    split
    next hstray =>
      rw [hstray, if_neg Bool.false_ne_true] at hmoved
      exact hmoved
    next hanswered =>
      rw [Bool.not_eq_false] at hanswered
      rw [if_pos hanswered] at hmoved
      exact hmoved

theorem turned_handle (r : Radio) (wire : Wire) (input : Input) :
    Turned r wire input (r.handle wire input).1 := by
  cases input with
  | start => exact .started rfl rfl rfl
  | byte byte =>
    rw [handle]
    dsimp only
    cases hheard : r.heard? byte with
    | none =>
      rw [(receive_of_none hheard wire).1]
      exact .served rfl (fun _ => by rw [released, hheard]) rfl
    | some response =>
      have hreleased : r.released (.byte byte) = noted r.slot response := by rw [released, hheard]
      rw [receive_of_some hheard wire]
      cases response with
      | commandComplete command status data => exact turned_complete _ _ _ _ _ hreleased
      | connectionComplete status handle address =>
        rw [react]
        split
        · exact .served rfl (fun _ => hreleased.symm) rfl
        · exact .served rfl (fun _ => hreleased.symm) rfl
      | _ => exact .served rfl (fun _ => hreleased.symm) rfl
  | tick =>
    cases hactive : r.bringup.isActive with
    | true =>
      rw [handle, tick, if_pos hactive]
      refine .moved .tick hactive ?_ rfl rfl rfl
      rw [released, if_pos hactive]
      rfl
    | false => exact (keeps_tick hactive wire).turned hactive wire .tick
  | setVisible visible => exact turned_request _ _ _ rfl
  | disconnect =>
    rw [handle, Radio.disconnect]
    split
    · exact turned_request _ _ _ rfl
    · exact .served rfl (fun _ => rfl) rfl
  | setLineMode mode => exact .served rfl (fun _ => rfl) rfl

/-- No input changes the timeouts. -/
theorem timeouts_handle (r : Radio) (wire : Wire) (input : Input) :
    (r.handle wire input).1.responseTimeout = r.responseTimeout ∧
      (r.handle wire input).1.bringup.responseTimeout = r.bringup.responseTimeout := by
  cases turned_handle r wire input with
  | started _ hbringup htimeout => exact ⟨htimeout, by rw [hbringup]; rfl⟩
  | moved event _ _ hbringup _ htimeout =>
    exact ⟨htimeout, by rw [hbringup, (Sequencer.moved _ wire event).responseTimeout_eq]⟩
  | served hbringup _ htimeout => exact ⟨htimeout, by rw [hbringup]⟩

theorem timeouts_after (r : Radio) (inputs : List (Wire × Input)) :
    (r.after inputs).responseTimeout = r.responseTimeout ∧
      (r.after inputs).bringup.responseTimeout = r.bringup.responseTimeout := by
  induction inputs generalizing r with
  | nil => exact ⟨rfl, rfl⟩
  | cons x rest ih =>
    have hnow := timeouts_handle r x.1 x.2
    have hlater := ih (r.handle x.1 x.2).1
    exact ⟨hlater.1.trans hnow.1, hlater.2.trans hnow.2⟩

/-- The input has a command with this opcode written and waited for. -/
def Writes (r : Radio) (wire : Wire) (input : Input) (opcode : UInt8) : Prop :=
  r.released input = .free ∧ (r.handle wire input).1.slot.outstanding = some opcode

/-- A command that has just been written has not waited yet, by either counter. -/
structure Fresh (r : Radio) (opcode : UInt8) : Prop where
  slot : r.slot = .waiting opcode 0
  bringup : r.bringup.isActive = true → r.bringup.phase = .awaiting r.bringup.responseTimeout

theorem Sound.fresh {wire : Wire} {input : Input} (h : Sound r)
    (hwritten : r.Writes wire input opcode) : Fresh (r.handle wire input).1 opcode := by
  obtain ⟨hfree, houtstanding⟩ := hwritten
  have hsends := (sound_handle h wire input).2
  refine ⟨?_, fun hactive => ?_⟩
  · rcases hsends.slot_of_free hfree with hidle | ⟨opcode', hslot⟩
    · rw [hidle] at houtstanding
      cases houtstanding
    · rw [hslot] at houtstanding ⊢
      cases houtstanding
      rfl
  · have hbusy {P : Prop} (hidle : (r.handle wire input).1.slot = .free) : P := by
      rw [hidle] at houtstanding
      cases houtstanding
    cases turned_handle r wire input with
    | started hidle _ _ => exact hbusy hidle
    | moved event _ hreleased hbringup hslot _ =>
      rw [hslot] at houtstanding
      rw [hbringup]
      exact (Sequencer.moved _ wire event).awaiting_of_written h.inStep
        (hreleased.symm.trans hfree) houtstanding
    | served hbringup hslot _ =>
      rw [hbringup] at hactive
      exact hbusy ((hslot hactive).trans hfree)

/-! ## Waiting -/

/-- The input ends the wait for a command with this opcode: it is answered, or the radio is started. -/
def ends (r : Radio) (opcode : UInt8) : Input → Bool
  | .start => true
  | .byte byte =>
    match r.heard? byte with
    | some (.commandComplete command _ _) => command = opcode
    | _ => false
  | .tick | .setVisible _ | .disconnect | .setLineMode _ => false

/-- None of the inputs ends the wait. -/
def Unanswered (opcode : UInt8) : Radio → List (Wire × Input) → Prop
  | _, [] => True
  | r, (wire, input) :: rest =>
    r.ends opcode input = false ∧ Unanswered opcode (r.handle wire input).1 rest

/-- How many of the inputs are ticks. -/
def ticks (inputs : List (Wire × Input)) : Nat := inputs.countP fun x => x.2 = .tick

/-- Bring-up and the slot rest, and commands are held back but none is written. -/
structure Stalls (r r' : Radio) : Prop where
  bringup : r'.bringup = r.bringup
  slot : r'.slot = r.slot
  responseTimeout : r'.responseTimeout = r.responseTimeout
  pending : r.pending <+: r'.pending

theorem Stalls.refl (r : Radio) : Stalls r r := ⟨rfl, rfl, rfl, List.prefix_refl _⟩

theorem sendNext_of_busy (hbusy : r.slot.isBusy = true) (wire : Wire) :
    r.sendNext wire = (.ok (), r, wire) := if_pos hbusy

theorem stalls_request (hbusy : r.slot.isBusy = true) (wire : Wire) (c : AppCommand) :
    Stalls r (r.request wire c).2.1 := by
  unfold request
  split
  · exact .refl r
  · rw [if_pos (.inl hbusy)]
    split
    · exact ⟨rfl, rfl, rfl, List.prefix_append _ _⟩
    · exact .refl r

theorem stalls_completeRequest (hbusy : r.slot.isBusy = true) (wire : Wire)
    (command status : UInt8) (data : Bytes) :
    Stalls r (r.completeRequest wire command status data).radio := by
  rw [completeRequest, sendNext_of_busy hbusy]
  dsimp only
  split
  · split
    · have hstatus := stalls_request hbusy wire .readStatus
      generalize r.request wire .readStatus = asked at hstatus
      obtain ⟨result, r', wire'⟩ := asked
      cases result with
      | ok _ => exact hstatus
      | error e => exact hstatus
    · exact .refl r
  · split
    · exact ⟨rfl, rfl, rfl, List.prefix_refl _⟩
    · exact .refl r

/-- A completion that answers another command. -/
theorem stalls_complete (houtstanding : r.slot.outstanding = some opcode) {command : UInt8}
    (hother : command ≠ opcode) (wire : Wire) (status : UInt8) (data : Bytes) :
    Stalls r (r.complete wire command status data).radio := by
  have hstray : r.slot.complete command = (false, r.slot) := by
    refine if_neg fun hsame => hother ?_
    exact (Option.some.inj (houtstanding.symm.trans hsame)).symm
  have hbusy : r.slot.isBusy = true := by
    rw [CommandSlot.isBusy, houtstanding]
    rfl
  rw [complete, hstray]
  dsimp only
  split
  · exact stalls_completeRequest hbusy wire command status data
  · exact .refl r

/-- While a command is in flight, an input that neither ends the wait nor is a tick changes nothing
about it. -/
theorem stalls_handle (houtstanding : r.slot.outstanding = some opcode) {input : Input}
    (hopen : r.ends opcode input = false) (htick : input ≠ .tick) (wire : Wire) :
    Stalls r (r.handle wire input).1 := by
  have hbusy : r.slot.isBusy = true := by
    rw [CommandSlot.isBusy, houtstanding]
    rfl
  cases input with
  | start => cases hopen
  | tick => exact absurd rfl htick
  | setVisible visible => exact stalls_request hbusy wire (.advertise visible)
  | disconnect =>
    rw [handle, Radio.disconnect]
    split
    · exact stalls_request hbusy wire .disconnect
    · exact .refl r
  | setLineMode mode => exact ⟨rfl, rfl, rfl, List.prefix_refl _⟩
  | byte byte =>
    rw [ends] at hopen
    rw [handle]
    dsimp only
    cases hheard : r.heard? byte with
    | none =>
      rw [(receive_of_none hheard wire).1]
      exact ⟨rfl, rfl, rfl, List.prefix_refl _⟩
    | some response =>
      rw [hheard] at hopen
      rw [receive_of_some hheard wire]
      cases response with
      | commandComplete command status data =>
        have hother : command ≠ opcode := of_decide_eq_false hopen
        have hstalls := stalls_complete (r := { r with line := (r.line.feed byte).2 }) houtstanding
          hother wire status data.bytes
        exact ⟨hstalls.bringup, hstalls.slot, hstalls.responseTimeout, hstalls.pending⟩
      | connectionComplete status handle address =>
        rw [react]
        split
        · exact ⟨rfl, rfl, rfl, List.prefix_refl _⟩
        · exact ⟨rfl, rfl, rfl, List.prefix_refl _⟩
      | _ => exact ⟨rfl, rfl, rfl, List.prefix_refl _⟩

/-- What the radio `r`, which has just written a command with this opcode, is after so many ticks. -/
structure Waited (r : Radio) (opcode : UInt8) (k : Nat) (r' : Radio) : Prop where
  bringup : r'.bringup = r.bringup.waited k
  slot : r'.slot =
    .waiting opcode (if r.bringup.isActive then 0 else min k CommandSlot.maxElapsed)
  responseTimeout : r'.responseTimeout = r.responseTimeout
  pending : r.pending <+: r'.pending

theorem Waited.outstanding (h : Waited r opcode k r') : r'.slot.outstanding = some opcode := by
  rw [h.slot]
  rfl

theorem Waited.isActive_eq (h : Waited r opcode k r') : r'.bringup.isActive = r.bringup.isActive := by
  rw [h.bringup, Bringup.isActive_waited]

theorem Fresh.waited (h : Fresh r opcode) : Waited r opcode 0 r := by
  refine ⟨?_, ?_, rfl, List.prefix_refl _⟩
  · cases hactive : r.bringup.isActive with
    | true =>
      have hphase := h.bringup hactive
      rw [Bringup.waited_of_active hactive, Nat.sub_zero, ← hphase]
    | false => rw [Bringup.waited_of_rested hactive]
  · rw [h.slot, Nat.zero_min, ite_self]

theorem Waited.stalls {r'' : Radio} (h : Waited r opcode k r') (hstalls : Stalls r' r'') :
    Waited r opcode k r'' :=
  ⟨hstalls.bringup.trans h.bringup, hstalls.slot.trans h.slot,
    hstalls.responseTimeout.trans h.responseTimeout, h.pending.trans hstalls.pending⟩

/-- A command that this radio has just written is not given up within so many ticks. -/
def Lasts (r : Radio) (k : Nat) : Prop :=
  if r.bringup.isActive then k ≤ r.bringup.responseTimeout
  else min k CommandSlot.maxElapsed ≤ r.responseTimeout

theorem lasts_of_active (hactive : r.bringup.isActive = true) :
    r.Lasts k ↔ k ≤ r.bringup.responseTimeout := by
  rw [Lasts, if_pos hactive]

theorem lasts_of_rested (hrested : r.bringup.isActive = false) :
    r.Lasts k ↔ min k CommandSlot.maxElapsed ≤ r.responseTimeout := by
  rw [Lasts, hrested, if_neg Bool.false_ne_true]

theorem Lasts.mono {m : Nat} (h : r.Lasts k) (hle : m ≤ k) : r.Lasts m := by
  cases hactive : r.bringup.isActive with
  | true =>
    rw [lasts_of_active hactive] at h ⊢
    exact Nat.le_trans hle h
  | false =>
    rw [lasts_of_rested hactive] at h ⊢
    omega

/-- A tick on which bring-up is at rest and a command has waited for `k` ticks. -/
theorem tick_of_rested (hrested : r.bringup.isActive = false)
    (hslot : r.slot = .waiting opcode (min k CommandSlot.maxElapsed))
    (hlasts : min (k + 1) CommandSlot.maxElapsed ≤ r.responseTimeout) (wire : Wire) :
    r.tick wire =
      ⟨.ok none, { r with slot := .waiting opcode (min (k + 1) CommandSlot.maxElapsed) }, wire⟩ := by
  rw [tick, hrested, if_neg Bool.false_ne_true, hslot, CommandSlot.tick_waiting,
    if_neg (Nat.not_lt_of_le hlasts)]
  dsimp only
  rw [sendNext_of_busy rfl]

/-- **One more tick of waiting.** -/
theorem Waited.tick (h : Waited r opcode k r') (hlasts : r.Lasts (k + 1)) (wire : Wire) :
    Waited r opcode (k + 1) (r'.tick wire).radio := by
  cases hactive : r.bringup.isActive with
  | true =>
    rw [lasts_of_active hactive] at hlasts
    have hphase : r'.bringup.phase = .awaiting (r.bringup.responseTimeout - (k + 1) + 1) := by
      rw [h.bringup, Bringup.waited_of_active hactive]
      exact congrArg Phase.awaiting (by omega)
    have htick : r'.tick wire = r'.afterBringup
        ⟨.ok none, { r'.bringup with phase := .awaiting (r.bringup.responseTimeout - (k + 1)) },
          r'.slot, wire⟩ := by
      rw [Radio.tick, if_pos (h.isActive_eq.trans hactive), Bringup.tick, hphase]
    refine ⟨?_, ?_, ?_, ?_⟩
    · rw [htick, h.bringup, Bringup.waited_of_active hactive, Bringup.waited_of_active hactive]
      rfl
    · rw [htick, hactive, if_pos rfl]
      refine h.slot.trans ?_
      rw [hactive, if_pos rfl]
    · rw [htick]
      exact h.responseTimeout
    · rw [htick]
      exact h.pending
  | false =>
    rw [lasts_of_rested hactive, ← h.responseTimeout] at hlasts
    have hslot := h.slot
    rw [hactive, if_neg Bool.false_ne_true] at hslot
    rw [tick_of_rested (h.isActive_eq.trans hactive) hslot hlasts]
    refine ⟨?_, ?_, h.responseTimeout, h.pending⟩
    · rw [Bringup.waited_of_rested hactive]
      exact h.bringup.trans (Bringup.waited_of_rested hactive k)
    · rw [hactive, if_neg Bool.false_ne_true]

/-- **The law of the wait.** As long as the command lasts and nothing ends the wait, the ticks are
all that counts. -/
theorem Waited.after (h : Waited r opcode k r') {later : List (Wire × Input)}
    (hopen : Unanswered opcode r' later) (hlasts : r.Lasts (k + ticks later)) :
    Waited r opcode (k + ticks later) (r'.after later) := by
  -- on the rest of the run, for the count and the radio that it is resumed with
  induction later generalizing k r' with
  | nil => exact h
  | cons x rest ih =>
    obtain ⟨wire, input⟩ := x
    obtain ⟨hnow, hrest⟩ := hopen
    by_cases htick : input = .tick
    · subst htick
      have hcount : k + ticks ((wire, .tick) :: rest) = k + 1 + ticks rest := by
        rw [ticks, List.countP_cons_of_pos (by simp), Nat.add_comm _ 1, ← Nat.add_assoc, ticks]
      rw [hcount] at hlasts ⊢
      have hone : r.Lasts (k + 1) := hlasts.mono (Nat.le_add_right _ _)
      exact ih (h.tick hone wire) hrest hlasts
    · have hcount : ticks ((wire, input) :: rest) = ticks rest :=
        List.countP_cons_of_neg (by simpa using htick)
      rw [hcount] at hlasts ⊢
      exact ih (h.stalls (stalls_handle h.outstanding hnow htick wire)) hrest hlasts

/-! ## Giving up -/

/-- Of the commands held back, the first that there still is a reason to write is written. -/
def WritesNext (r : Radio) (wire : Wire) (r' : Radio) (wire' : Wire) : Prop :=
  match dropStale r.isConnected r.pending with
  | [] => r'.slot = .free ∧ r'.pending = [] ∧ wire' = wire
  | c :: rest =>
    wire' = (c.toCommand.write wire).2 ∧ r'.pending = rest ∧
      r'.slot = if (c.toCommand.write wire).1.isOk then .waiting c.toCommand.opcode 0 else .free

theorem writesNext_sendNext (hfree : r.slot = .free) (wire : Wire) :
    r.WritesNext wire (r.sendNext wire).2.1 (r.sendNext wire).2.2 := by
  have hidle : r.slot.isBusy = false := by
    rw [hfree]
    rfl
  unfold WritesNext sendNext
  rw [hidle, if_neg Bool.false_ne_true]
  generalize dropStale r.isConnected r.pending = waiting
  cases waiting with
  | nil => exact ⟨hfree, rfl, rfl⟩
  | cons c rest =>
    -- a command that the wire does not take leaves the slot free
    unfold send CommandSlot.send
    dsimp only
    generalize c.toCommand.write wire = written
    obtain ⟨result, wire'⟩ := written
    cases result with
    | ok _ => exact ⟨rfl, rfl, rfl⟩
    | error e => exact ⟨rfl, rfl, hfree⟩

/-- Bring-up has waited for as long as it does: one more attempt has failed. -/
theorem Waited.failed (h : Waited r opcode r.bringup.responseTimeout r')
    (hactive : r.bringup.isActive = true) :
    r'.released .tick = .free ∧ ∀ wire, (r'.tick wire).radio.slot = .free ∧
      (r'.tick wire).radio.bringup.attempts = r.bringup.attempts + 1 := by
  have hphase : r'.bringup.phase = .awaiting 0 := by
    rw [h.bringup, Bringup.waited_of_active hactive]
    exact congrArg Phase.awaiting (Nat.sub_self _)
  have hattempts : r'.bringup.attempts = r.bringup.attempts := by
    rw [h.bringup, Bringup.waited_of_active hactive]
  have hactive' := h.isActive_eq.trans hactive
  refine ⟨by rw [released, if_pos hactive', if_pos hphase], fun wire => ?_⟩
  have htick : r'.tick wire = r'.afterBringup (r'.bringup.fail .free wire) := by
    rw [Radio.tick, if_pos hactive', Bringup.tick, hphase]
  have hfailed := Bringup.failed_fail r'.bringup .free wire
  rw [htick, ← hattempts]
  generalize r'.bringup.fail .free wire = step at hfailed
  cases hfailed with
  | exhausted _ => exact ⟨rfl, rfl⟩
  | reset hreset _ => exact ⟨rfl, hreset.symm⟩
  | retry _ _ => exact ⟨rfl, rfl⟩

/-- A command of the node that lasts through the next tick. -/
theorem Waited.released_ne_free (h : Waited r opcode k r') (hrested : r.bringup.isActive = false)
    (hlasts : r.Lasts (k + 1)) : r'.released .tick ≠ .free := by
  rw [lasts_of_rested hrested, ← h.responseTimeout] at hlasts
  rw [released, h.isActive_eq, hrested, if_neg Bool.false_ne_true, h.slot, hrested,
    if_neg Bool.false_ne_true, CommandSlot.tick_waiting, if_neg (Nat.not_lt_of_le hlasts)]
  intro hfree
  cases hfree

/-- A command of the node has waited for as long as it does: the next one is written. -/
theorem Waited.passed (h : Waited r opcode k r') (hrested : r.bringup.isActive = false)
    (hover : ¬ r.Lasts (k + 1)) :
    r'.released .tick = .free ∧ ∀ wire,
      WritesNext { r' with slot := .free } wire (r'.tick wire).radio (r'.tick wire).wire := by
  rw [lasts_of_rested hrested, ← h.responseTimeout, Nat.not_le] at hover
  have hrested' := h.isActive_eq.trans hrested
  have hslot : (r'.slot.tick r'.responseTimeout).2 = .free := by
    rw [h.slot, hrested, if_neg Bool.false_ne_true, CommandSlot.tick_waiting, if_pos hover]
  refine ⟨by rw [released, hrested', if_neg Bool.false_ne_true, hslot], fun wire => ?_⟩
  have hnext := writesNext_sendNext (r := { r' with slot := .free }) rfl wire
  rw [Radio.tick, hrested', if_neg Bool.false_ne_true, hslot]
  dsimp only
  generalize sendNext { r' with slot := .free } wire = asked at hnext
  obtain ⟨result, r'', wire'⟩ := asked
  cases result with
  | ok _ => exact hnext
  | error e => exact hnext

/-- **A command that nobody answers is given up one tick after its timeout**, but for a command of
the node under the largest timeout. Whatever led to the step that wrote it, and whatever else comes
while nothing ends the wait: through as many ticks as the timeout has, it stays in flight and
commands are only held back. On the next tick bring-up counts a failed attempt, and a command of the
node makes way for the next that is held back. Under the largest timeout a command of the node stays
in flight through any number of ticks. -/
theorem unanswered_given_up (config : NodeConfig) (history : List (Wire × Input)) {wire : Wire}
    {input : Input} {opcode : UInt8} {later : List (Wire × Input)}
    (hwritten : ((ofConfig config).after history).Writes wire input opcode)
    (hopen : Unanswered opcode (((ofConfig config).after history).handle wire input).1 later) :
    let timeout := config.timing.responseTimeout.toNat
    let r := (((ofConfig config).after history).handle wire input).1
    let r' := r.after later
    let forGood := r.bringup.isActive = false ∧ timeout = CommandSlot.maxElapsed
    (ticks later ≤ timeout ∨ forGood →
      r'.slot.outstanding = some opcode ∧ r.pending <+: r'.pending) ∧
    (ticks later = timeout →
      (r'.released .tick = .free ↔ ¬ forGood) ∧
      (r.bringup.isActive = true → ∀ wire, (r'.tick wire).radio.slot = .free ∧
        (r'.tick wire).radio.bringup.attempts = r.bringup.attempts + 1) ∧
      (r.bringup.isActive = false → timeout ≠ CommandSlot.maxElapsed → ∀ wire,
        WritesNext { r' with slot := .free } wire (r'.tick wire).radio (r'.tick wire).wire)) := by
  intro timeout r r' forGood
  have hrested : (ofConfig config).bringup.isActive = false := rfl
  have hfresh : Fresh r opcode := (sound_after (sound_of_rested hrested) history).fresh hwritten
  have htimeouts : r.responseTimeout = timeout ∧ r.bringup.responseTimeout = timeout := by
    have hbefore := timeouts_after (ofConfig config) history
    have hstep := timeouts_handle ((ofConfig config).after history) wire input
    exact ⟨hstep.1.trans hbefore.1, hstep.2.trans hbefore.2⟩
  have hlargest : timeout ≤ CommandSlot.maxElapsed := by
    have hlt := config.timing.responseTimeout.toNat_lt
    simp only [CommandSlot.maxElapsed, timeout]
    omega
  have hlasts (n : Nat) : r.Lasts n ↔ n ≤ timeout ∨ forGood := by
    cases hactive : r.bringup.isActive with
    | true => simp [lasts_of_active hactive, htimeouts.2, forGood, hactive]
    | false =>
      simp only [lasts_of_rested hactive, htimeouts.1, forGood, hactive, true_and]
      omega
  have hwaited (h : ticks later ≤ timeout ∨ forGood) : Waited r opcode (ticks later) r' := by
    have hrun := hfresh.waited.after hopen
    rw [Nat.zero_add] at hrun
    exact hrun ((hlasts _).mpr h)
  refine ⟨fun h => ⟨(hwaited h).outstanding, (hwaited h).pending⟩, fun hticks => ?_⟩
  have hdue := hwaited (.inl (Nat.le_of_eq hticks))
  rw [hticks] at hdue
  cases hactive : r.bringup.isActive with
  | true =>
    have hnot : ¬ forGood := fun h => Bool.false_ne_true (h.1.symm.trans hactive)
    rw [← htimeouts.2] at hdue
    have hfailed := hdue.failed hactive
    exact ⟨⟨fun _ => hnot, fun _ => hfailed.1⟩, fun _ => hfailed.2, nofun⟩
  | false =>
    -- the count stops at the largest timeout, which it would have to exceed
    by_cases hmax : timeout = CommandSlot.maxElapsed
    · have hforGood : forGood := ⟨hactive, hmax⟩
      have hbusy := hdue.released_ne_free hactive ((hlasts _).mpr (.inr hforGood))
      exact ⟨⟨fun hfree => absurd hfree hbusy, fun hnot => absurd hforGood hnot⟩, nofun,
        fun _ hless => absurd hmax hless⟩
    · have hnot : ¬ forGood := fun h => hmax h.2
      have hover : ¬ r.Lasts (timeout + 1) := by
        rw [hlasts, not_or]
        exact ⟨Nat.not_succ_le_self _, hnot⟩
      have hpassed := hdue.passed hactive hover
      exact ⟨⟨fun _ => hnot, fun _ => hpassed.1⟩, nofun, fun _ _ => hpassed.2⟩

/-- A start, and answers that bring the module up. -/
def broughtUp : List (Wire × Input) := ({}, .start) :: answered Response.success Stage.all

/-- A configuration whose commands may take two ticks. -/
def brisk : NodeConfig := { timing := { resetSettle := 0, responseTimeout := 2 } }

/-- A second command is asked for, and two ticks pass. -/
def twoTicks : List (Wire × Input) := [({}, .setVisible true), ({}, .tick), ({}, .tick)]

/-- Of two commands nobody answers the first. It waits for two ticks, and on the third the second
command is written. -/
theorem second_written_after_timeout :
    let before := (ofConfig brisk).after broughtUp
    let r := (before.handle {} (.setVisible false)).1
    let r' := r.after twoTicks
    before.Writes {} (.setVisible false) 0x1C ∧ Unanswered 0x1C r twoTicks ∧
      r'.slot.outstanding = some 0x1C ∧ r'.pending = [.advertise true] ∧
      (r'.tick {}).radio.pending = [] ∧
      (r'.tick {}).wire = ((Command.setAdvertisingEnable true).write {}).2 := by
  have hwritten : ((ofConfig brisk).after broughtUp).Writes {} (.setVisible false) 0x1C := by
    constructor <;> decide +kernel
  have hopen : Unanswered 0x1C (((ofConfig brisk).after broughtUp).handle {} (.setVisible false)).1
      twoTicks := by
    simp only [twoTicks, Unanswered, ends, and_self]
  have hlaw := unanswered_given_up brisk broughtUp hwritten hopen
  generalize hr : (((ofConfig brisk).after broughtUp).handle {} (.setVisible false)).1 = r at hlaw hopen
  have hrested : r.bringup.isActive = false := by
    rw [← hr]
    decide +kernel
  have hpending : (r.after twoTicks).pending = [.advertise true] := by
    rw [← hr]
    decide +kernel
  have hwaits := hlaw.1 (.inl (by decide))
  have hnext := (hlaw.2 (by decide)).2.2 hrested (by decide) {}
  simp only [WritesNext, hpending] at hnext
  obtain ⟨hwire, hrest, -⟩ := hnext
  dsimp only
  rw [hr]
  exact ⟨hwritten, hopen, hwaits.1, hpending, hrest, hwire⟩

/-- Under the largest timeout, ticks do no more to a command of the node than to count it up. -/
theorem after_ticks_of_largest (hrested : r.bringup.isActive = false)
    (hslot : r.slot = .waiting opcode (min k CommandSlot.maxElapsed))
    (hlargest : r.responseTimeout = CommandSlot.maxElapsed) (wire : Wire) (n : Nat) :
    r.after (List.replicate n (wire, .tick)) =
      { r with slot := .waiting opcode (min (k + n) CommandSlot.maxElapsed) } := by
  induction n generalizing r k with
  | zero => rw [Nat.add_zero, ← hslot]; rfl
  | succ n ih =>
    have hlasts : min (k + 1) CommandSlot.maxElapsed ≤ r.responseTimeout := by
      rw [hlargest]
      exact Nat.min_le_right _ _
    have hstep : (r.handle wire .tick).1 =
        { r with slot := .waiting opcode (min (k + 1) CommandSlot.maxElapsed) } := by
      rw [handle, tick_of_rested hrested hslot hlasts]
    rw [List.replicate_succ]
    show (r.handle wire .tick).1.after _ = _
    rw [hstep, ih (by exact hrested) rfl (by exact hlargest)]
    have hcount : k + 1 + n = k + (n + 1) := by omega
    rw [hcount]

/-- The largest timeout, as the settings give it. -/
def largestTimeout : String := "[timing]\nresponse_timeout_ticks = 65535\nreset_settle_ticks = 0"

/-- **One command that nobody answers holds the rest back for good.** A settings text may give the
largest timeout. Two commands are then asked for, the first is not answered, and on the tick after
the timeout, which is the 65536th, it is still in flight and the second still held back. -/
theorem second_held_back_for_good :
    ∃ config, NodeConfig.ofText largestTimeout = .ok config ∧
      let r := ((ofConfig config).after broughtUp).after
        [({}, .setVisible false), ({}, .setVisible true)]
      let r' := r.after (List.replicate 65536 ({}, .tick))
      r.slot.outstanding = some 0x1C ∧ r.pending = [.advertise true] ∧
        r'.slot.outstanding = some 0x1C ∧ r'.pending = [.advertise true] := by
  refine ⟨{ timing := { resetSettle := 0, responseTimeout := 65535 } }, rfl, ?_⟩
  dsimp only
  generalize hr : ((ofConfig _).after broughtUp).after
    [({}, .setVisible false), ({}, .setVisible true)] = r
  have hrested : r.bringup.isActive = false := by
    rw [← hr]
    decide +kernel
  have hslot : r.slot = .waiting 0x1C (min 0 CommandSlot.maxElapsed) := by
    rw [← hr]
    decide +kernel
  have hpending : r.pending = [.advertise true] := by
    rw [← hr]
    decide +kernel
  have hlargest : r.responseTimeout = CommandSlot.maxElapsed := by
    rw [← hr]
    decide +kernel
  rw [after_ticks_of_largest hrested hslot hlargest, hslot]
  exact ⟨rfl, hpending, rfl, hpending⟩

end Radio

end RoomControl
