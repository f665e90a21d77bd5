import RoomControl.Proofs.Radio.Writing

/-!
# The course of bring-up

A `Sequencer` is bring-up with the slot of its command. It takes starts, ticks and the completions
that the module reports, each on a wire in any state, and its log says what came of them: which
commands were issued, which completions answered one, and what was reported. `ledger` reads off a log
which command is in flight and what has completed.

`Moved` says once what an input can do; later proofs go by its cases. The log is told from the
inputs and the answers; that no write is left out of it is `Moved.wire_eq`. `Tracks` ties the slot and
the ledger to the stage. What a whole run comes to is not said here.
-/

set_option autoImplicit false

namespace RoomControl

namespace Stage

theorem index_next {s t : Stage} (h : s.next? = some t) : t.index = s.index + 1 := by
  cases s <;> cases h <;> rfl

theorem opcode_injective {s t : Stage} (h : s.opcode = t.opcode) : s = t := by
  cases s <;> cases t <;> first | rfl | exact absurd h (by decide)

/-- Different stages issue different commands. -/
theorem command_injective {settings : RadioSettings} {s t : Stage}
    (h : s.command settings = t.command settings) : s = t := by
  apply opcode_injective
  rw [← opcode_command s settings, ← opcode_command t settings, h]

end Stage

namespace Bringup

/-! ## Issuing and failing -/

/-- Bring-up past a stage whose setting the module already has. -/
def pastSettled (b : Bringup) : Bringup := if b.isSettled b.stage then b.advance.2 else b

/-- The command that the next tick issues. -/
def due? (b : Bringup) : Option Command :=
  match b.phase with
  | .settling 0 | .issue => some (b.pastSettled.stage.command b.settings)
  | _ => none

/-- Bring-up once the command of its stage is issued. -/
def issued (b : Bringup) : Bringup :=
  { b with command := (b.stage.command b.settings).opcode, phase := .awaiting b.responseTimeout }

theorem pastSettled_cases (b : Bringup) :
    b.isSettled b.stage = false ∧ b.pastSettled = b ∨
      ∃ stage, b.isSettled b.stage = true ∧ b.stage.next? = some stage ∧
        b.pastSettled =
          { b with attempts := 0, stage, command := stage.opcode, phase := .issue } := by
  cases hsettled : b.isSettled b.stage with
  | false =>
    refine .inl ⟨rfl, ?_⟩
    rw [pastSettled, hsettled]
    rfl
  | true =>
    obtain ⟨stage, hnext⟩ : ∃ stage, b.stage.next? = some stage := by
      cases hstage : b.stage <;> rw [hstage] at hsettled <;> first | exact ⟨_, rfl⟩ | cases hsettled
    refine .inr ⟨stage, rfl, hnext, ?_⟩
    rw [pastSettled, if_pos hsettled, advance, hnext]

/-- What bring-up is given before its first start. -/
def given (b : Bringup) : RadioSettings × Nat × Nat := (b.settings, b.responseTimeout, b.resetSettle)

theorem given_pastSettled (b : Bringup) : b.pastSettled.given = b.given := by
  rcases b.pastSettled_cases with ⟨-, hpast⟩ | ⟨stage, -, -, hpast⟩
  · rw [hpast]
  · rw [hpast]
    rfl

@[simp] theorem settings_pastSettled (b : Bringup) : b.pastSettled.settings = b.settings :=
  congrArg Prod.fst b.given_pastSettled

theorem attempts_pastSettled_le (b : Bringup) : b.pastSettled.attempts ≤ b.attempts := by
  rcases b.pastSettled_cases with ⟨-, hpast⟩ | ⟨stage, -, -, hpast⟩
  · exact Nat.le_of_eq (by rw [hpast])
  · rw [hpast]
    exact Nat.zero_le _

/-- A settled stage is not followed by another. -/
theorem isSettled_pastSettled (b : Bringup) : b.pastSettled.isSettled b.pastSettled.stage = false := by
  rcases b.pastSettled_cases with ⟨hopen, hpast⟩ | ⟨stage, hsettled, hnext, hpast⟩
  · rw [hpast, hopen]
  · rw [hpast]
    cases hstage : b.stage <;> rw [hstage] at hsettled hnext <;> cases hnext <;>
      first | rfl | cases hsettled

/-- What a failure leads to. -/
inductive Failed (b : Bringup) (slot : CommandSlot) (wire : Wire) : BringupStep → Prop
  | exhausted : maxAttempts ≤ b.attempts + 1 →
      Failed b slot wire ⟨.error (.attemptsExhausted b.stage),
        { b with attempts := b.attempts + 1, phase := .idle }, slot, wire⟩
  | reset {result : Except BringupError (Option BringupEvent)} : b.attempts + 1 = resetAttempt →
      result = .ok (some (.moduleReset resetAttempt)) ∨ (∃ e, result = .error (.reset e)) →
      Failed b slot wire ⟨result,
        { b with
          attempts := resetAttempt
          stage := .readIdentity
          command := Command.reset.opcode
          phase := .settling b.resetSettle
          resets := min (b.resets + 1) maxResets }, .free, (Command.reset.write wire).2⟩
  | retry : b.attempts + 1 < maxAttempts → b.attempts + 1 ≠ resetAttempt →
      Failed b slot wire ⟨.ok (some (.retrying b.stage (b.attempts + 1))),
        { b with attempts := b.attempts + 1, phase := .issue }, slot, wire⟩

theorem failed_fail (b : Bringup) (slot : CommandSlot) (wire : Wire) :
    Failed b slot wire (b.fail slot wire) := by
  unfold fail
  dsimp only
  split
  next hmax => exact .exhausted hmax
  next hmax =>
    split
    next hreset =>
      have hresult (result : Except BringupError (Option BringupEvent)) :=
        @Failed.reset b slot wire result hreset
      generalize Command.reset.write wire = written at hresult ⊢
      obtain ⟨result, wire'⟩ := written
      rw [hreset]
      cases result with
      | ok _ => exact hresult _ (.inl rfl)
      | error e => exact hresult _ (.inr ⟨e, rfl⟩)
    next hreset => exact .retry (Nat.lt_of_not_le hmax) hreset

theorem Failed.given_eq {b : Bringup} {slot : CommandSlot} {wire : Wire} {step : BringupStep}
    (h : b.Failed slot wire step) : step.bringup.given = b.given := by
  cases h <;> rfl

theorem command_of_due {b : Bringup} {c : Command} (h : b.due? = some c) :
    b.pastSettled.stage.command b.pastSettled.settings = c := by
  rw [settings_pastSettled]
  unfold due? at h
  split at h
  · exact Option.some.inj h
  · exact Option.some.inj h
  · cases h

theorem isAwaiting_of_due {b : Bringup} {c : Command} (h : b.due? = some c) :
    b.isAwaiting = false := by
  unfold due? at h
  unfold isAwaiting
  split
  next hphase =>
    rw [hphase] at h
    cases h
  next => rfl

theorem isActive_of_isAwaiting {b : Bringup} (h : b.isAwaiting = true) : b.isActive = true := by
  unfold isAwaiting at h
  split at h
  next hphase => simp only [isActive, hphase]
  next => cases h

theorem isActive_of_due {b : Bringup} {c : Command} (h : b.due? = some c) : b.isActive = true := by
  unfold due? at h
  split at h
  next hphase => simp only [isActive, hphase]
  next hphase => simp only [isActive, hphase]
  next => cases h

/-- A tick that is due issues its command: the command is in flight, or bring-up has failed. -/
theorem tick_of_due {b : Bringup} {c : Command} (h : b.due? = some c) (slot : CommandSlot)
    (wire : Wire) :
    b.tick slot wire =
      match c.write wire with
      | (.ok (), wire') => ⟨.ok none, b.pastSettled.issued, .waiting c.opcode 0, wire'⟩
      | (.error _, wire') => b.pastSettled.issued.fail slot wire' := by
  have htick : b.tick slot wire = b.pastSettled.issue slot wire := by
    have hpast : b.issueNext slot wire = b.pastSettled.issue slot wire := by
      unfold issueNext pastSettled
      split <;> rfl
    rw [← hpast]
    unfold due? at h
    split at h
    next hphase => rw [tick, hphase]
    next hphase => rw [tick, hphase]
    next => cases h
  rw [htick, issue, CommandSlot.send, ← command_of_due h]
  generalize (b.pastSettled.stage.command b.pastSettled.settings).write wire = written
  obtain ⟨result, wire'⟩ := written
  cases result with
  | ok _ => rfl
  | error e => rfl

end Bringup

/-- Bring-up and the slot that its commands go through. -/
structure Sequencer where
  bringup : Bringup
  slot : CommandSlot

namespace Sequencer

/-- The sequencer before its first start. -/
def ofConfig (radio : RadioSettings) (timing : TimingSettings) : Sequencer :=
  ⟨.ofConfig radio timing, .free⟩

/-! ## Inputs and what is seen of them -/

/-- What happens to a sequencer. -/
inductive Input where
  /-- Bring-up is started. The command in flight stays in flight. -/
  | start
  /-- The command in flight is forgotten, as it is when the radio is started. -/
  | forget
  | tick
  /-- The module reports that a command has completed. -/
  | completion (command status : UInt8) (data : Bytes)
  deriving DecidableEq, Repr

/-- Takes an input, with the wire as it then is. A completion counts when it answers the command in
flight. -/
def react (s : Sequencer) (wire : Wire) : Input → BringupStep
  | .start => ⟨.ok none, s.bringup.start, s.slot, wire⟩
  | .forget => ⟨.ok none, s.bringup, .free, wire⟩
  | .tick => s.bringup.tick s.slot wire
  | .completion command status data =>
    let (answered, slot) := s.slot.complete command
    if answered then s.bringup.answer slot wire command status data
    else ⟨.ok none, s.bringup, slot, wire⟩

def next (s : Sequencer) (wire : Wire) (input : Input) : Sequencer :=
  ⟨(s.react wire input).bringup, (s.react wire input).slot⟩

/-- What is seen of a sequencer. -/
inductive Entry where
  | started
  /-- The command of a stage is written, and the wire takes it or fails. -/
  | issued (command : Command) (taken : Bool)
  /-- The command in flight has completed. -/
  | answered (status : UInt8) (data : Bytes)
  | reported (event : BringupEvent)
  | failed (error : BringupError)
  deriving DecidableEq

/-- The entry that ends bring-up. -/
def Entry.isEnd : Entry → Bool
  | reported .completed | failed (.attemptsExhausted _) => true
  | _ => false

/-- What is seen of the input itself. -/
def noticed (s : Sequencer) (wire : Wire) : Input → List Entry
  | .start => [.started]
  | .forget => []
  | .tick => s.bringup.due?.toList.map fun c => .issued c (c.write wire).1.isOk
  | .completion command status data =>
    if s.slot.outstanding = some command then [.answered status data] else []

/-- What is seen of the answer. -/
def reportOf : Except BringupError (Option BringupEvent) → List Entry
  | .ok none => []
  | .ok (some event) => [.reported event]
  | .error e => [.failed e]

def entries (s : Sequencer) (wire : Wire) (input : Input) : List Entry :=
  s.noticed wire input ++ reportOf (s.react wire input).result

/-- The sequencer after inputs, each with the wire as it then is. -/
def after (s : Sequencer) (inputs : List (Wire × Input)) : Sequencer :=
  inputs.foldl (fun s (wire, input) => s.next wire input) s

/-- What is seen during inputs. -/
def log (s : Sequencer) : List (Wire × Input) → List Entry
  | [] => []
  | (wire, input) :: rest => s.entries wire input ++ (s.next wire input).log rest

theorem kept_through (P : List (Wire × Input) → List Entry → Sequencer → Prop)
    (allowed : Input → Prop)
    (keeps : ∀ inputs log s wire input, allowed input → P inputs log s →
      P (inputs ++ [(wire, input)]) (log ++ s.entries wire input) (s.next wire input))
    {before : List (Wire × Input)} {log : List Entry} {s : Sequencer} (h : P before log s)
    (inputs : List (Wire × Input)) (hallowed : ∀ x ∈ inputs, allowed x.2) :
    P (before ++ inputs) (log ++ s.log inputs) (s.after inputs) := by
  induction inputs generalizing before log s with
  | nil =>
    rw [Sequencer.log, List.append_nil, List.append_nil]
    exact h
  | cons x rest ih =>
    have hstep := keeps before log s x.1 x.2 (hallowed x List.mem_cons_self) h
    have hrest := ih hstep fun y hy => hallowed y (List.mem_cons_of_mem x hy)
    rw [List.append_assoc, List.append_assoc] at hrest
    exact hrest

/-- **What each input keeps, a run keeps.** -/
theorem kept_during (P : List (Wire × Input) → List Entry → Sequencer → Prop)
    (allowed : Input → Prop)
    (keeps : ∀ inputs log s wire input, allowed input → P inputs log s →
      P (inputs ++ [(wire, input)]) (log ++ s.entries wire input) (s.next wire input))
    {s : Sequencer} (h : P [] [] s) (inputs : List (Wire × Input))
    (hallowed : ∀ x ∈ inputs, allowed x.2) : P inputs (s.log inputs) (s.after inputs) :=
  kept_through P allowed keeps h inputs hallowed

/-! ## What an input can do -/

/-- What an input does, and what is seen of it. -/
inductive Moved (s : Sequencer) (wire : Wire) : Input → List Entry → BringupStep → Prop
  | started : Moved s wire .start [.started] ⟨.ok none, s.bringup.start, s.slot, wire⟩
  | forgot : Moved s wire .forget [] ⟨.ok none, s.bringup, .free, wire⟩
  /-- A tick passes when bring-up is not under way. -/
  | rested : s.bringup.isActive = false →
      Moved s wire .tick [] ⟨.ok none, s.bringup, s.slot, wire⟩
  | settled {left : Nat} : s.bringup.phase = .settling (left + 1) →
      Moved s wire .tick [] ⟨.ok none, { s.bringup with phase := .settling left }, s.slot, wire⟩
  | waited {left : Nat} : s.bringup.phase = .awaiting (left + 1) →
      Moved s wire .tick [] ⟨.ok none, { s.bringup with phase := .awaiting left }, s.slot, wire⟩
  | expired {step : BringupStep} : s.bringup.phase = .awaiting 0 →
      s.bringup.Failed .free wire step → Moved s wire .tick (reportOf step.result) step
  | issued {c : Command} {wire' : Wire} : s.bringup.due? = some c →
      c.write wire = (.ok (), wire') →
      Moved s wire .tick [.issued c true]
        ⟨.ok none, s.bringup.pastSettled.issued, .waiting c.opcode 0, wire'⟩
  /-- The command that is due cannot be written. -/
  | unwritten {c : Command} {e : CommandError} {wire' : Wire} {step : BringupStep} :
      s.bringup.due? = some c → c.write wire = (.error e, wire') →
      s.bringup.pastSettled.issued.Failed s.slot wire' step →
      Moved s wire .tick (.issued c false :: reportOf step.result) step
  /-- The completion answers nothing that is in flight. -/
  | stray {command status : UInt8} {data : Bytes} : s.slot.outstanding ≠ some command →
      Moved s wire (.completion command status data) [] ⟨.ok none, s.bringup, s.slot, wire⟩
  /-- The completion answers a command that bring-up does not wait for. -/
  | ignored {command status : UInt8} {data : Bytes} : s.slot.outstanding = some command →
      s.bringup.isAwaiting = false ∨ command ≠ s.bringup.command →
      Moved s wire (.completion command status data) [.answered status data]
        ⟨.ok none, s.bringup, .free, wire⟩
  | refused {status : UInt8} {data : Bytes} {step : BringupStep} :
      s.slot.outstanding = some s.bringup.command → s.bringup.isAwaiting = true →
      status ≠ Response.success → s.bringup.Failed .free wire step →
      Moved s wire (.completion s.bringup.command status data)
        (.answered status data :: reportOf step.result) step
  | advanced {data : Bytes} {stage : Stage} : s.slot.outstanding = some s.bringup.command →
      s.bringup.isAwaiting = true → s.bringup.stage.next? = some stage →
      Moved s wire (.completion s.bringup.command Response.success data)
        [.answered Response.success data, .reported (.advanced stage)]
        ⟨.ok (some (.advanced stage)),
          { s.bringup with
            info := s.bringup.info.learn s.bringup.stage data
            attempts := 0
            stage
            command := stage.opcode
            phase := .issue }, .free, wire⟩
  | completed {data : Bytes} : s.slot.outstanding = some s.bringup.command →
      s.bringup.isAwaiting = true → s.bringup.stage.next? = none →
      Moved s wire (.completion s.bringup.command Response.success data)
        [.answered Response.success data, .reported .completed]
        ⟨.ok (some .completed),
          { s.bringup with
            info := s.bringup.info.learn s.bringup.stage data
            attempts := 0
            phase := .complete }, .free, wire⟩

variable {s : Sequencer} {wire : Wire} {input : Input} {es : List Entry} {step : BringupStep}

theorem moved_tick (s : Sequencer) (wire : Wire) :
    Moved s wire .tick (s.entries wire .tick) (s.react wire .tick) := by
  cases hdue : s.bringup.due? with
  | some c =>
    have hnoticed : s.noticed wire .tick = [.issued c (c.write wire).1.isOk] := by
      rw [noticed, hdue]
      rfl
    have hreact : s.react wire .tick = s.bringup.tick s.slot wire := rfl
    rw [entries, hnoticed, hreact, Bringup.tick_of_due hdue]
    cases hwrite : c.write wire with
    | mk result wire' =>
      cases result with
      | ok _ => exact .issued hdue hwrite
      | error e => exact .unwritten hdue hwrite (Bringup.failed_fail ..)
  | none =>
    rw [entries, noticed, hdue]
    show Moved s wire .tick (reportOf (s.bringup.tick s.slot wire).result) (s.bringup.tick s.slot wire)
    unfold Bringup.due? at hdue
    unfold Bringup.tick
    split
    next hphase => exact .rested (by simp only [Bringup.isActive, hphase])
    next hphase => exact .rested (by simp only [Bringup.isActive, hphase])
    next hphase =>
      rw [hphase] at hdue
      cases hdue
    next hphase =>
      rw [hphase] at hdue
      cases hdue
    next hphase => exact .settled hphase
    next hphase => exact .expired hphase (Bringup.failed_fail ..)
    next hphase => exact .waited hphase

theorem moved_completion (s : Sequencer) (wire : Wire) (command status : UInt8) (data : Bytes) :
    Moved s wire (.completion command status data)
      (s.entries wire (.completion command status data))
      (s.react wire (.completion command status data)) := by
  rw [entries, noticed, react, CommandSlot.complete]
  by_cases houtstanding : s.slot.outstanding = some command
  · rw [if_pos houtstanding, if_pos houtstanding]
    dsimp only
    rw [if_pos rfl]
    unfold Bringup.answer
    split
    next hignored => exact .ignored houtstanding hignored
    next htaken =>
      rw [not_or, Bool.not_eq_false, Classical.not_not] at htaken
      obtain ⟨hawaiting, rfl⟩ := htaken
      split
      next hstatus => exact .refused houtstanding hawaiting hstatus (Bringup.failed_fail ..)
      next hstatus =>
        rw [Classical.not_not] at hstatus
        subst hstatus
        unfold Bringup.advance
        dsimp only
        cases hnext : s.bringup.stage.next? with
        | some stage => exact .advanced houtstanding hawaiting hnext
        | none => exact .completed houtstanding hawaiting hnext
  · rw [if_neg houtstanding, if_neg houtstanding]
    exact .stray houtstanding

/-- **What an input can do.** -/
theorem moved (s : Sequencer) (wire : Wire) (input : Input) :
    Moved s wire input (s.entries wire input) (s.react wire input) := by
  cases input with
  | start => exact .started
  | forget => exact .forgot
  | tick => exact moved_tick s wire
  | completion command status data => exact moved_completion s wire command status data

/-- No input changes what bring-up is given. -/
theorem Moved.given_eq (h : Moved s wire input es step) : step.bringup.given = s.bringup.given := by
  cases h with
  | expired _ hfailed => exact hfailed.given_eq
  | refused _ _ _ hfailed => exact hfailed.given_eq
  | unwritten _ _ hfailed => exact hfailed.given_eq.trans s.bringup.given_pastSettled
  | issued _ _ => exact s.bringup.given_pastSettled
  | _ => rfl

theorem Moved.settings_eq (h : Moved s wire input es step) :
    step.bringup.settings = s.bringup.settings := congrArg Prod.fst h.given_eq

theorem Moved.responseTimeout_eq (h : Moved s wire input es step) :
    step.bringup.responseTimeout = s.bringup.responseTimeout :=
  congrArg (fun given => given.2.1) h.given_eq

/-! ## The commands in a log -/

/-- The command that was written. -/
def Entry.written? : Entry → Option Command
  | issued c _ => some c
  | reported (.moduleReset _) | failed (.reset _) => some .reset
  | _ => none

/-- The wire after these commands, one after the other. -/
def written (wire : Wire) (log : List Entry) : Wire :=
  (log.filterMap Entry.written?).foldl (fun wire c => (c.write wire).2) wire

theorem wire_of_failed {b : Bringup} {slot : CommandSlot} {wire : Wire} {step : BringupStep}
    (h : b.Failed slot wire step) : step.wire = written wire (reportOf step.result) := by
  cases h with
  | exhausted _ => rfl
  | retry _ _ => rfl
  | reset _ hresult =>
    rcases hresult with rfl | ⟨e, rfl⟩
    · rfl
    · rfl

/-- **The log leaves no write out**: on the wire are the commands that it says were written. -/
theorem Moved.wire_eq (h : Moved s wire input es step) : step.wire = written wire es := by
  cases h with
  | expired _ hfailed => exact wire_of_failed hfailed
  | refused _ _ _ hfailed => exact wire_of_failed hfailed
  | issued _ hwrite =>
    show _ = Prod.snd _
    rw [hwrite]
  | unwritten _ hwrite hfailed =>
    rw [wire_of_failed hfailed]
    show _ = written (Prod.snd _) _
    rw [hwrite]
  | _ => rfl

/-- What a log says of the commands in it. -/
structure Ledger where
  /-- The command that was written last and has not completed. -/
  inFlight : Option Command := none
  /-- The commands that have succeeded since bring-up was started or the module reset, each with the
  data of its reply. -/
  pass : List (Command × Bytes) := []
  /-- All commands that have succeeded. -/
  succeeded : List Command := []

def Ledger.note (l : Ledger) : Entry → Ledger
  | .started | .reported (.moduleReset _) | .failed (.reset _) =>
    { l with inFlight := none, pass := [] }
  | .issued c taken => { l with inFlight := if taken then some c else none }
  | .answered status data =>
    if status = Response.success then
      { inFlight := none
        pass := l.pass ++ l.inFlight.toList.map (·, data)
        succeeded := l.succeeded ++ l.inFlight.toList }
    else { l with inFlight := none }
  | .reported _ | .failed _ => l

def ledger (log : List Entry) : Ledger := log.foldl Ledger.note {}

theorem ledger_append (log more : List Entry) :
    ledger (log ++ more) = more.foldl Ledger.note (ledger log) := List.foldl_append

theorem succeeded_subset_note (l : Ledger) (e : Entry) : l.succeeded ⊆ (l.note e).succeeded := by
  intro c hc
  cases e with
  | answered status data =>
    rw [Ledger.note]
    split
    · exact List.mem_append_left _ hc
    · exact hc
  | reported event => cases event <;> exact hc
  | failed e => cases e <;> exact hc
  | _ => exact hc

/-- What has succeeded stays so. -/
theorem succeeded_subset_append (log more : List Entry) :
    (ledger log).succeeded ⊆ (ledger (log ++ more)).succeeded := by
  induction more generalizing log with
  | nil =>
    rw [List.append_nil]
    exact List.Subset.refl _
  | cons e rest ih =>
    rw [List.append_cons]
    refine List.Subset.trans ?_ (ih (log ++ [e]))
    rw [ledger_append]
    exact succeeded_subset_note _ e

/-! ## The command that bring-up waits for -/

/-- While bring-up waits, the command in flight is that of its stage. A command that is in flight
otherwise was issued before bring-up was started; so long as it is, none has been issued since, and
bring-up has not failed often enough to reset the module. -/
structure Tracks (s : Sequencer) (l : Ledger) : Prop where
  waits : s.bringup.isAwaiting = true →
    l.inFlight = some (s.bringup.stage.command s.bringup.settings) ∧
      s.bringup.isSettled s.bringup.stage = false
  slot : s.slot.outstanding = none ∨
    s.bringup.isAwaiting = true ∧ s.slot.outstanding = some s.bringup.command ∨
    s.bringup.isAwaiting = false ∧ s.bringup.isActive = true ∧
      s.bringup.attempts < Bringup.resetAttempt ∧ l.inFlight = none

theorem Tracks.slot_of_awaiting {s : Sequencer} {l : Ledger} (h : Tracks s l)
    (hawaiting : s.bringup.isAwaiting = true) :
    s.slot.outstanding = none ∨ s.slot.outstanding = some s.bringup.command := by
  rcases h.slot with hfree | ⟨-, hsome⟩ | ⟨hnot, -⟩
  · exact .inl hfree
  · exact .inr hsome
  · rw [hawaiting] at hnot
    cases hnot

theorem Tracks.slot_of_not_awaiting {s : Sequencer} {l : Ledger} (h : Tracks s l)
    (hawaiting : s.bringup.isAwaiting = false) :
    s.slot.outstanding = none ∨
      s.bringup.isActive = true ∧ s.bringup.attempts < Bringup.resetAttempt ∧
        l.inFlight = none := by
  rcases h.slot with hfree | ⟨hyes, -⟩ | ⟨-, hfew⟩
  · exact .inl hfree
  · rw [hawaiting] at hyes
    cases hyes
  · exact .inr hfew

/-- A completion that bring-up does not wait for answers a command that was issued before bring-up
was started. -/
theorem Tracks.of_ignored {s : Sequencer} {l : Ledger} (h : Tracks s l) {command : UInt8}
    (houtstanding : s.slot.outstanding = some command)
    (hignored : s.bringup.isAwaiting = false ∨ command ≠ s.bringup.command) :
    s.bringup.isAwaiting = false ∧ s.bringup.isActive = true ∧ l.inFlight = none := by
  rcases h.slot with hfree | ⟨hawaiting, hsome⟩ | ⟨hnot, hactive, -, hnone⟩
  · rw [houtstanding] at hfree
    cases hfree
  · rw [houtstanding] at hsome
    rcases hignored with hnot | hother
    · rw [hawaiting] at hnot
      cases hnot
    · exact absurd (Option.some.inj hsome) hother
  · exact ⟨hnot, hactive, hnone⟩

theorem tracks_of_failed {b : Bringup} {slot : CommandSlot} {wire : Wire} {step : BringupStep}
    (h : b.Failed slot wire step) (l : Ledger)
    (hslot : slot.outstanding = none ∨ b.attempts < Bringup.resetAttempt ∧ l.inFlight = none) :
    Tracks ⟨step.bringup, step.slot⟩ ((reportOf step.result).foldl Ledger.note l) := by
  cases h with
  | exhausted hmax =>
    refine ⟨nofun, .inl ?_⟩
    -- the reset at the third failure has freed the slot
    rcases hslot with hfree | ⟨hfew, -⟩
    · exact hfree
    · simp only [Bringup.maxAttempts, Bringup.resetAttempt] at hmax hfew
      omega
  | reset _ _ => exact ⟨nofun, .inl rfl⟩
  | retry _ hreset =>
    refine ⟨nofun, ?_⟩
    rcases hslot with hfree | ⟨hfew, hnone⟩
    · exact .inl hfree
    · exact .inr (.inr ⟨rfl, rfl, Nat.lt_of_le_of_ne hfew hreset, hnone⟩)

/-- **Every input keeps track.** -/
theorem Tracks.moved {log : List Entry} (h : Tracks s (ledger log))
    (hmoved : Moved s wire input es step) :
    Tracks ⟨step.bringup, step.slot⟩ (ledger (log ++ es)) := by
  rw [ledger_append]
  cases hmoved with
  | started =>
    have hnone : 0 < Bringup.resetAttempt := by decide
    exact ⟨nofun, .inr (.inr ⟨rfl, rfl, hnone, rfl⟩)⟩
  | forgot => exact ⟨h.waits, .inl rfl⟩
  | rested _ => exact h
  | settled hphase =>
    have hslot := h.slot_of_not_awaiting (by simp only [Bringup.isAwaiting, hphase])
    exact ⟨nofun, hslot.imp id fun hfew => .inr ⟨rfl, rfl, hfew.2⟩⟩
  | waited hphase =>
    have hawaiting : s.bringup.isAwaiting = true := by simp only [Bringup.isAwaiting, hphase]
    exact ⟨fun _ => h.waits hawaiting, (h.slot_of_awaiting hawaiting).imp id fun hsome =>
      .inl ⟨rfl, hsome⟩⟩
  | expired _ hfailed => exact tracks_of_failed hfailed _ (.inl rfl)
  | @issued c _ hdue _ =>
    have hc := Bringup.command_of_due hdue
    refine ⟨fun _ => ⟨congrArg some hc.symm, Bringup.isSettled_pastSettled _⟩, .inr (.inl ⟨rfl, ?_⟩)⟩
    rw [← hc]
    rfl
  | unwritten hdue _ hfailed =>
    refine tracks_of_failed hfailed _ ?_
    have hslot := h.slot_of_not_awaiting (Bringup.isAwaiting_of_due hdue)
    exact hslot.imp id fun hfew =>
      ⟨Nat.lt_of_le_of_lt s.bringup.attempts_pastSettled_le hfew.2.1, rfl⟩
  | stray _ => exact h
  | ignored houtstanding hignored =>
    refine ⟨fun hawaiting => ?_, .inl rfl⟩
    have hawaiting' : s.bringup.isAwaiting = true := hawaiting
    rw [(h.of_ignored houtstanding hignored).1] at hawaiting'
    cases hawaiting'
  | refused _ _ _ hfailed => exact tracks_of_failed hfailed _ (.inl rfl)
  | advanced _ _ _ => exact ⟨nofun, .inl rfl⟩
  | completed _ _ _ => exact ⟨nofun, .inl rfl⟩

end Sequencer

end RoomControl
