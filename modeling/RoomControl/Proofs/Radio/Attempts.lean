import RoomControl.Proofs.Radio.Course

/-!
# How often a stage is tried

Bring-up counts failures up to the seventh, but a module reset at the third leads back to the first
stage, and once that stage has succeeded the count starts over. So only the first stage is ever given
up: it is tried seven times. A later stage is tried three times between one module reset and the
next, and when it never succeeds the module is reset for ever.

`Bringup.left` is what a later stage has left before the next reset, and `Bringup.patience` is how
long the first stage can last. A run is taken from a start to the next.
-/

set_option autoImplicit false

namespace RoomControl

theorem Stage.command_ne_reset (stage : Stage) (settings : RadioSettings) :
    stage.command settings ≠ .reset := by
  cases stage <;> exact nofun

namespace Sequencer

/-! ## Counting -/

/-- How often a command was written. -/
def tries (c : Command) (log : List Entry) : Nat := (log.filterMap Entry.written?).count c

theorem tries_append (c : Command) (log more : List Entry) :
    tries c (log ++ more) = tries c log + tries c more := by
  rw [tries, List.filterMap_append, List.count_append]
  rfl

/-- All that a report tells of writing is a reset. -/
theorem tries_reportOf {c : Command} (h : c ≠ .reset)
    (result : Except BringupError (Option BringupEvent)) : tries c (reportOf result) = 0 := by
  have hreset : tries c [.reported (.moduleReset 0)] = 0 :=
    List.count_eq_zero.mpr fun hmem => h (List.mem_singleton.mp hmem)
  rcases result with e | _ | event
  · cases e with
    | attemptsExhausted _ => rfl
    | reset _ => exact hreset
  · rfl
  · cases event with
    | moduleReset _ => exact hreset
    | _ => rfl

/-- How many ticks there are. -/
def ticks (inputs : List (Wire × Input)) : Nat := inputs.countP (·.2 = .tick)

end Sequencer

open Sequencer (tries reportOf)

namespace Bringup

/-! ## Later stages -/

/-- After the first stage a module reset comes before the count of failures can go on. -/
def Few (b : Bringup) : Prop := b.stage ≠ .readIdentity → b.attempts < resetAttempt

/-- How often a stage can still be tried before the module is reset. -/
def left (b : Bringup) (stage : Stage) : Nat :=
  if b.isComplete = true ∨ stage.index < b.stage.index then 0
  else if stage = b.stage then resetAttempt - (b.attempts + b.isAwaiting.toNat)
  else resetAttempt

theorem left_le (b : Bringup) (stage : Stage) : b.left stage ≤ resetAttempt := by
  unfold left
  split
  · exact Nat.zero_le _
  · split
    · exact Nat.sub_le _ _
    · exact Nat.le_refl _

theorem left_self {b : Bringup} (hopen : b.isComplete = false) :
    b.left b.stage = resetAttempt - (b.attempts + b.isAwaiting.toNat) := by
  have hnot : ¬ (b.isComplete = true ∨ b.stage.index < b.stage.index) := by simp [hopen]
  rw [left, if_neg hnot, if_pos rfl]

/-- What the other stages have left depends on the stage alone. -/
theorem left_other {b b' : Bringup} (hopen : b.isComplete = false) (hopen' : b'.isComplete = false)
    (hsame : b'.stage = b.stage) {stage : Stage} (hne : stage ≠ b.stage) :
    b'.left stage = b.left stage := by
  rw [left, left, hopen, hopen', hsame, if_neg hne, if_neg hne]

theorem left_of_phase {b : Bringup} {phase : Phase}
    (hawaiting : { b with phase }.isAwaiting = b.isAwaiting)
    (hcomplete : { b with phase }.isComplete = b.isComplete) (stage : Stage) :
    { b with phase }.left stage = b.left stage := by
  rw [left, left, hawaiting, hcomplete]

/-- Going on to the next stage leaves none more. -/
theorem left_of_next {b b' : Bringup} (hnext : b.stage.next? = some b'.stage)
    (hopen : b.isComplete = false) (stage : Stage) : b'.left stage ≤ b.left stage := by
  have hindex := Stage.index_next hnext
  by_cases hlt : stage.index < b'.stage.index
  · rw [left, if_pos (.inr hlt)]
    exact Nat.zero_le _
  · have hle : ¬ (b.isComplete = true ∨ stage.index < b.stage.index) := by
      rw [hopen]
      rintro (h | h)
      · cases h
      · omega
    have hne : stage ≠ b.stage := by
      intro h
      rw [h, hindex] at hlt
      omega
    rw [left.eq_1 b, if_neg hle, if_neg hne]
    exact b'.left_le stage

theorem few_pastSettled {b : Bringup} (h : b.Few) : b.pastSettled.Few := by
  have hzero : 0 < resetAttempt := by decide
  rcases b.pastSettled_cases with ⟨-, hpast⟩ | ⟨stage, -, -, hpast⟩
  · rwa [hpast]
  · rw [hpast]
    exact fun _ => hzero

theorem isAwaiting_pastSettled {b : Bringup} (h : b.isAwaiting = false) :
    b.pastSettled.isAwaiting = false := by
  rcases b.pastSettled_cases with ⟨-, hpast⟩ | ⟨stage, -, -, hpast⟩
  · rwa [hpast]
  · rw [hpast]
    rfl

theorem isComplete_pastSettled {b : Bringup} (h : b.isComplete = false) :
    b.pastSettled.isComplete = false := by
  rcases b.pastSettled_cases with ⟨-, hpast⟩ | ⟨stage, -, -, hpast⟩
  · rwa [hpast]
  · rw [hpast]
    rfl

theorem left_pastSettled {b : Bringup} (hopen : b.isComplete = false) (stage : Stage) :
    b.pastSettled.left stage ≤ b.left stage := by
  rcases b.pastSettled_cases with ⟨-, hpast⟩ | ⟨following, -, hnext, hpast⟩
  · exact Nat.le_of_eq (by rw [hpast])
  · rw [hpast]
    exact left_of_next hnext hopen stage

/-- Issuing a command takes one of the tries of its stage. -/
theorem left_issued {b : Bringup} (hidle : b.isAwaiting = false) (hopen : b.isComplete = false)
    (hfew : b.Few) {stage : Stage} (hlater : stage ≠ .readIdentity) :
    b.issued.left stage + (if stage = b.stage then 1 else 0) ≤ b.left stage := by
  have hopen' : b.issued.isComplete = false := by simp [isComplete, issued]
  by_cases hstage : stage = b.stage
  · subst hstage
    have hless := hfew hlater
    have hissued : b.issued.left b.stage = resetAttempt - (b.attempts + 1) := left_self hopen'
    rw [if_pos rfl, hissued, left_self hopen, hidle, Bool.toNat_false]
    omega
  · rw [if_neg hstage]
    exact Nat.le_of_eq (left_other hopen hopen' rfl hstage)

theorem Few.of_failed {b : Bringup} {slot : CommandSlot} {wire : Wire} {step : BringupStep}
    (h : b.Few) (hfailed : b.Failed slot wire step) : step.bringup.Few := by
  cases hfailed with
  | exhausted hmax =>
    intro hlater
    have hless := h hlater
    simp only [maxAttempts, resetAttempt] at hmax hless
    omega
  | reset _ _ => exact fun hlater => absurd rfl hlater
  | retry _ hreset =>
    intro hlater
    exact Nat.lt_of_le_of_ne (h hlater) hreset

/-- Only the first stage is given up. -/
theorem Failed.first_of_exhausted {b : Bringup} {slot : CommandSlot} {wire : Wire}
    {step : BringupStep} (hfailed : b.Failed slot wire step) (hfew : b.Few) {stage : Stage}
    (h : .failed (.attemptsExhausted stage) ∈ reportOf step.result) : stage = .readIdentity := by
  cases hfailed with
  | exhausted hmax =>
    obtain rfl : stage = b.stage := by
      have hsame := List.mem_singleton.mp h
      cases hsame
      rfl
    refine Classical.byContradiction fun hlater => ?_
    have hless := hfew hlater
    simp only [maxAttempts, resetAttempt] at hmax hless
    omega
  | retry _ _ => cases List.mem_singleton.mp h
  | reset _ hresult =>
    rcases hresult with rfl | ⟨e, rfl⟩
    · cases List.mem_singleton.mp h
    · cases List.mem_singleton.mp h

/-- A failure leaves a later stage as many tries as it had, until the module is reset. -/
theorem left_of_failed {b : Bringup} {slot : CommandSlot} {wire : Wire} {step : BringupStep}
    (hfailed : b.Failed slot wire step) (hawaiting : b.isAwaiting = true) (stage : Stage) :
    step.bringup.left stage ≤ b.left stage + resetAttempt * tries .reset (reportOf step.result) := by
  have hopen : b.isComplete = false := isComplete_of_isActive (isActive_of_isAwaiting hawaiting)
  -- the command that failed had taken its try when it was issued
  have hsame {b' : Bringup} (hopen' : b'.isComplete = false) (hstage : b'.stage = b.stage)
      (hattempts : b'.attempts = b.attempts + 1) : b'.left stage ≤ b.left stage := by
    by_cases h : stage = b.stage
    · have hself := left_self hopen'
      rw [hstage, hattempts] at hself
      rw [h, hself, left_self hopen, hawaiting, Bool.toNat_true]
      omega
    · exact Nat.le_of_eq (left_other hopen hopen' hstage h)
  cases hfailed with
  | exhausted _ => exact Nat.le_add_right_of_le (hsame rfl rfl rfl)
  | retry _ _ => exact Nat.le_add_right_of_le (hsame rfl rfl rfl)
  | reset _ hresult =>
    rcases hresult with rfl | ⟨e, rfl⟩
    · exact Nat.le_trans (left_le _ _) (Nat.le_add_left _ _)
    · exact Nat.le_trans (left_le _ _) (Nat.le_add_left _ _)

end Bringup

namespace Sequencer

variable {s : Sequencer} {wire : Wire} {input : Input} {log es : List Entry} {step : BringupStep}

theorem Moved.few (hmoved : Moved s wire input es step) (h : s.bringup.Few) :
    step.bringup.Few := by
  have hzero : 0 < Bringup.resetAttempt := by decide
  cases hmoved with
  | started => exact fun hlater => absurd rfl hlater
  | expired _ hfailed => exact h.of_failed hfailed
  | issued _ _ => exact Bringup.few_pastSettled h
  | unwritten _ _ hfailed =>
    have hissued : s.bringup.pastSettled.issued.Few := Bringup.few_pastSettled h
    exact hissued.of_failed hfailed
  | refused _ _ _ hfailed => exact h.of_failed hfailed
  | advanced _ _ _ => exact fun _ => hzero
  | completed _ _ _ => exact fun _ => hzero
  | _ => exact h

/-- Of what the stage had left, this was spent on its command; a reset makes it whole. -/
def Spends (stage : Stage) (b b' : Bringup) (log : List Entry) : Prop :=
  tries (stage.command b.settings) log + b'.left stage ≤
    b.left stage + Bringup.resetAttempt * tries .reset log

theorem Spends.trans {stage : Stage} {b b' b'' : Bringup} {more : List Entry}
    (first : Spends stage b b' log) (second : Spends stage b' b'' more)
    (hsettings : b'.settings = b.settings) : Spends stage b b'' (log ++ more) := by
  simp only [Spends, tries_append, hsettings, Bringup.resetAttempt] at first second ⊢
  omega

/-- Nothing is written. -/
theorem spends_nothing {stage : Stage} {b b' : Bringup}
    (hquiet : log.filterMap Entry.written? = []) (hleft : b'.left stage ≤ b.left stage) :
    Spends stage b b' log := by
  rw [Spends, tries, tries, hquiet, List.count_nil, List.count_nil, Nat.zero_add]
  exact hleft

theorem tries_issued (c c' : Command) (taken : Bool) :
    tries c [.issued c' taken] = if c' = c then 1 else 0 := by
  have hwritten : tries c [.issued c' taken] = [c'].count c := rfl
  rw [hwritten, List.count_singleton]
  simp only [beq_iff_eq]

theorem spends_issued {b : Bringup} {c : Command} (hdue : b.due? = some c) (hfew : b.Few)
    {stage : Stage} (hlater : stage ≠ .readIdentity) (taken : Bool) :
    Spends stage b b.pastSettled.issued [.issued c taken] := by
  have hopen := Bringup.isComplete_of_isActive (Bringup.isActive_of_due hdue)
  have hidle := Bringup.isAwaiting_of_due hdue
  have hissued := Bringup.left_issued (Bringup.isAwaiting_pastSettled hidle)
    (Bringup.isComplete_pastSettled hopen) (Bringup.few_pastSettled hfew) hlater
  have hpast := Bringup.left_pastSettled hopen stage
  rw [← Bringup.command_of_due hdue, Bringup.settings_pastSettled]
  have hcount (taken : Bool) : tries (stage.command b.settings)
      [.issued (b.pastSettled.stage.command b.settings) taken] =
        if stage = b.pastSettled.stage then 1 else 0 := by
    rw [tries_issued]
    by_cases hstage : stage = b.pastSettled.stage
    · rw [if_pos hstage, hstage, if_pos rfl]
    · rw [if_neg hstage, if_neg fun h => hstage (Stage.command_injective h).symm]
  rw [Spends, hcount, tries_issued, if_neg (Stage.command_ne_reset _ _), Nat.mul_zero,
    Nat.add_comm]
  exact Nat.le_trans hissued hpast

theorem spends_failed {b : Bringup} {slot : CommandSlot}
    (hfailed : b.Failed slot wire step) (hawaiting : b.isAwaiting = true) (stage : Stage) :
    Spends stage b step.bringup (reportOf step.result) := by
  rw [Spends, tries_reportOf (stage.command_ne_reset b.settings), Nat.zero_add]
  exact Bringup.left_of_failed hfailed hawaiting stage

/-- **What each input leaves a later stage.** Every try is one of those it had left, and only a reset
gives it more. -/
theorem Moved.spends (hmoved : Moved s wire input es step) (hfew : s.bringup.Few)
    (hrun : input ≠ .start) {stage : Stage} (hlater : stage ≠ .readIdentity) :
    Spends stage s.bringup step.bringup es := by
  cases hmoved with
  | started => exact absurd rfl hrun
  | forgot => exact spends_nothing rfl (Nat.le_refl _)
  | rested _ => exact spends_nothing rfl (Nat.le_refl _)
  | stray _ => exact spends_nothing rfl (Nat.le_refl _)
  | ignored _ _ => exact spends_nothing rfl (Nat.le_refl _)
  | settled hphase =>
    refine spends_nothing rfl (Nat.le_of_eq (Bringup.left_of_phase ?_ ?_ stage))
    · simp only [Bringup.isAwaiting, hphase]
    · simp [Bringup.isComplete, hphase]
  | waited hphase =>
    refine spends_nothing rfl (Nat.le_of_eq (Bringup.left_of_phase ?_ ?_ stage))
    · simp only [Bringup.isAwaiting, hphase]
    · simp [Bringup.isComplete, hphase]
  | expired hphase hfailed =>
    exact spends_failed hfailed (by simp only [Bringup.isAwaiting, hphase]) stage
  | issued hdue _ => exact spends_issued hdue hfew hlater true
  | unwritten hdue _ hfailed =>
    have hissued := spends_issued hdue hfew hlater false
    exact hissued.trans (spends_failed hfailed rfl stage) s.bringup.settings_pastSettled
  | @refused status data _ _ hawaiting _ hfailed =>
    have hanswered : Spends stage s.bringup s.bringup [.answered status data] :=
      spends_nothing rfl (Nat.le_refl _)
    exact hanswered.trans (spends_failed hfailed hawaiting stage) rfl
  | advanced _ hawaiting hnext =>
    have hopen := Bringup.isComplete_of_isActive (Bringup.isActive_of_isAwaiting hawaiting)
    exact spends_nothing rfl (Bringup.left_of_next hnext hopen stage)
  | completed _ _ _ =>
    refine spends_nothing rfl ?_
    rw [Bringup.left, if_pos (.inl rfl)]
    exact Nat.zero_le _

end Sequencer

namespace Bringup

/-! ## The first stage -/

/-- How many ticks the first stage can last. -/
def limit (b : Bringup) : Nat := 2 * b.resetSettle + maxAttempts * (b.responseTimeout + 2)

/-- The time that the module gets to settle after this failure. -/
def settleAfter (b : Bringup) (failures : Nat) : Nat :=
  if failures = resetAttempt then b.resetSettle else 0

/-- How many ticks the tries after so many failures can take. Each takes one to issue its command and
others to wait for the answer; the reset may still be ahead. -/
def ahead (b : Bringup) (failures : Nat) : Nat :=
  (if failures < resetAttempt then b.resetSettle else 0) +
    (maxAttempts - failures) * (b.responseTimeout + 2)

/-- How many more ticks the first stage can last. -/
def patience (b : Bringup) : Nat :=
  match b.phase with
  | .settling left => left + b.ahead b.attempts
  | .issue => b.ahead b.attempts
  | .awaiting left => left + 1 + b.settleAfter (b.attempts + 1) + b.ahead (b.attempts + 1)
  | .idle | .complete => 0

theorem ahead_succ (b : Bringup) {failures : Nat} (h : failures < maxAttempts) :
    b.ahead failures =
      b.responseTimeout + 2 + b.settleAfter (failures + 1) + b.ahead (failures + 1) := by
  have htries : maxAttempts - failures = (maxAttempts - (failures + 1)) + 1 := by omega
  have hsettle : (if failures < resetAttempt then b.resetSettle else 0) =
      b.settleAfter (failures + 1) +
        if failures + 1 < resetAttempt then b.resetSettle else 0 := by
    unfold settleAfter
    rcases Nat.lt_trichotomy (failures + 1) resetAttempt with hlt | heq | hgt
    · rw [if_pos (Nat.lt_of_succ_lt hlt), if_neg (Nat.ne_of_lt hlt), if_pos hlt, Nat.zero_add]
    · rw [if_pos (by omega), if_pos heq, if_neg (by omega), Nat.add_zero]
    · rw [if_neg (by omega), if_neg (by omega), if_neg (by omega)]
  rw [ahead, ahead, htries, Nat.succ_mul, hsettle]
  omega

theorem patience_start (b : Bringup) : b.start.patience = b.limit := by
  have hzero : 0 < resetAttempt := by decide
  show b.resetSettle + ((if 0 < resetAttempt then b.resetSettle else 0) +
    maxAttempts * (b.responseTimeout + 2)) = _
  rw [if_pos hzero, limit]
  omega

theorem patience_issued {b : Bringup} {c : Command} (hdue : b.due? = some c)
    (h : b.attempts < maxAttempts) : b.issued.patience + 1 ≤ b.patience := by
  have hissued : b.issued.patience =
      b.responseTimeout + 1 + b.settleAfter (b.attempts + 1) + b.ahead (b.attempts + 1) := rfl
  have hahead : b.ahead b.attempts ≤ b.patience := by
    unfold due? at hdue
    split at hdue
    next hphase =>
      rw [patience, hphase]
      exact Nat.le_add_left _ _
    next hphase => exact Nat.le_of_eq (by rw [patience, hphase])
    next => cases hdue
  rw [b.ahead_succ h] at hahead
  omega

theorem patience_of_failed {b : Bringup} {slot : CommandSlot} {wire : Wire} {step : BringupStep}
    (hfailed : b.Failed slot wire step) (hawaiting : b.isAwaiting = true) :
    step.bringup.patience + 1 ≤ b.patience := by
  have hpatience : 1 + b.settleAfter (b.attempts + 1) + b.ahead (b.attempts + 1) ≤ b.patience := by
    unfold isAwaiting at hawaiting
    split at hawaiting
    next left hphase =>
      rw [patience, hphase]
      dsimp only
      omega
    next => cases hawaiting
  cases hfailed with
  | exhausted _ =>
    show 0 + 1 ≤ _
    omega
  | reset hreset _ =>
    rw [settleAfter, if_pos hreset, hreset] at hpatience
    show b.resetSettle + b.ahead resetAttempt + 1 ≤ _
    omega
  | retry _ _ =>
    show b.ahead (b.attempts + 1) + 1 ≤ _
    omega

theorem patience_pos {b : Bringup} (hactive : b.isActive = true) (h : b.attempts < maxAttempts) :
    0 < b.patience := by
  have hahead := b.ahead_succ h
  unfold isActive at hactive
  split at hactive
  next hphase =>
    rw [patience, hphase]
    dsimp only
    omega
  next hphase =>
    rw [patience, hphase]
    dsimp only
    omega
  next hphase =>
    rw [patience, hphase]
    dsimp only
    omega
  next => cases hactive
  next => cases hactive

end Bringup

namespace Sequencer

variable {start b : Bringup} {s : Sequencer} {elapsed : Nat} {wire : Wire} {input : Input}
  {log es : List Entry} {slot : CommandSlot} {step : BringupStep}

/-- The report that the first stage is given up. -/
def givenUp : Entry := .failed (.attemptsExhausted .readIdentity)

/-- The first stage has not succeeded, after so many ticks since `start` was started. -/
structure Stuck (start : Bringup) (elapsed : Nat) (log : List Entry) (b : Bringup) : Prop where
  timeout : b.responseTimeout = start.responseTimeout
  settle : b.resetSettle = start.resetSettle
  stage : b.stage = .readIdentity
  active : b.isActive = true
  few : b.attempts < Bringup.maxAttempts
  tried : tries .readLocalInformation log = b.attempts + b.isAwaiting.toNat
  silent : givenUp ∉ log
  time : elapsed + b.patience ≤ start.limit

/-- The first stage was tried as often as it can be. -/
structure Over (log : List Entry) (b : Bringup) : Prop where
  phase : b.phase = .idle
  tried : tries .readLocalInformation log = Bringup.maxAttempts
  told : givenUp ∈ log

theorem not_mem_reportOf {result : Except BringupError (Option BringupEvent)}
    (h : result ≠ .error (.attemptsExhausted .readIdentity)) : givenUp ∉ reportOf result := by
  intro hmem
  rcases result with e | _ | event
  · cases List.mem_singleton.mp hmem
    exact h rfl
  · cases hmem
  · cases List.mem_singleton.mp hmem

theorem Stuck.of_failed (h : Stuck start elapsed log b)
    (hfailed : b.Failed slot wire step) (hawaiting : b.isAwaiting = true) :
    Stuck start (elapsed + 1) (log ++ reportOf step.result) step.bringup ∨
      Over (log ++ reportOf step.result) step.bringup := by
  have hpatience := Bringup.patience_of_failed hfailed hawaiting
  have htime := h.time
  have htried := h.tried
  rw [hawaiting, Bool.toNat_true] at htried
  have htries : tries .readLocalInformation (log ++ reportOf step.result) = b.attempts + 1 := by
    rw [tries_append, tries_reportOf (c := .readLocalInformation) nofun, htried, Nat.add_zero]
  cases hfailed with
  | exhausted hmax =>
    refine .inr ⟨rfl, ?_, ?_⟩
    · rw [htries]
      exact Nat.le_antisymm h.few hmax
    · rw [givenUp, ← h.stage]
      exact List.mem_append_right _ (List.mem_singleton.mpr rfl)
  | @reset result hreset hresult =>
    have hfew : Bringup.resetAttempt < Bringup.maxAttempts := by decide
    have hsilent : givenUp ∉ reportOf result := by
      refine not_mem_reportOf ?_
      rcases hresult with rfl | ⟨e, rfl⟩
      · exact nofun
      · exact nofun
    exact .inl ⟨h.timeout, h.settle, rfl, rfl, hfew, htries.trans hreset,
      List.not_mem_append h.silent hsilent, by omega⟩
  | retry hmax _ =>
    exact .inl ⟨h.timeout, h.settle, h.stage, rfl, hmax, htries,
      List.not_mem_append h.silent (not_mem_reportOf nofun), by omega⟩

/-- What has become of the first stage. -/
def FirstStage (start : Bringup) (elapsed : Nat) (log : List Entry) (b : Bringup) : Prop :=
  .readLocalInformation ∈ (ledger log).succeeded ∨ Stuck start elapsed log b ∨ Over log b

theorem pastSettled_of_first (h : b.stage = .readIdentity) : b.pastSettled = b := by
  have hopen : b.isSettled b.stage = false := by
    rw [h]
    rfl
  rw [Bringup.pastSettled, hopen]
  rfl

theorem Stuck.issued {c : Command} (h : Stuck start elapsed log b) (hdue : b.due? = some c)
    (taken : Bool) :
    Stuck start (elapsed + 1) (log ++ [.issued c taken]) b.pastSettled.issued := by
  have hpatience := Bringup.patience_issued hdue h.few
  have htime := h.time
  have hc := Bringup.command_of_due hdue
  rw [pastSettled_of_first h.stage] at hc ⊢
  have htried : tries .readLocalInformation (log ++ [.issued c taken]) = b.attempts + 1 := by
    rw [tries_append, h.tried, Bringup.isAwaiting_of_due hdue, tries_issued, ← hc, h.stage]
    rfl
  have hsilent : givenUp ∉ log ++ [.issued c taken] :=
    List.not_mem_append h.silent fun hmem => by cases List.mem_singleton.mp hmem
  exact ⟨h.timeout, h.settle, h.stage, rfl, h.few, htried, hsilent, by omega⟩

/-- What tells nothing of the first stage changes nothing. -/
theorem Stuck.keep (h : Stuck start elapsed log b) (hquiet : tries .readLocalInformation es = 0)
    (hsilent : givenUp ∉ es) : Stuck start elapsed (log ++ es) b :=
  ⟨h.timeout, h.settle, h.stage, h.active, h.few,
    by rw [tries_append, hquiet, h.tried, Nat.add_zero], List.not_mem_append h.silent hsilent, h.time⟩

theorem Stuck.sooner (h : Stuck start (elapsed + 1) log b) : Stuck start elapsed log b :=
  { h with time := Nat.le_trans (Nat.add_le_add_right (Nat.le_succ _) _) h.time }

/-- A tick that counts down. -/
theorem Stuck.counted {phase : Phase} (h : Stuck start elapsed log b)
    (hactive : { b with phase }.isActive = true)
    (hawaiting : { b with phase }.isAwaiting = b.isAwaiting)
    (hpatience : { b with phase }.patience + 1 ≤ b.patience) :
    Stuck start (elapsed + 1) log { b with phase } := by
  have htime := h.time
  exact ⟨h.timeout, h.settle, h.stage, hactive, h.few, h.tried.trans (by rw [hawaiting]), h.silent,
    by omega⟩

theorem Over.keep (h : Over log b) (hquiet : tries .readLocalInformation es = 0) :
    Over (log ++ es) b :=
  ⟨h.phase, by rw [tries_append, hquiet, h.tried, Nat.add_zero], List.mem_append_left _ h.told⟩

theorem mem_succeeded_note {l : Ledger} {c : Command} (h : l.inFlight = some c) (data : Bytes) :
    c ∈ (l.note (.answered Response.success data)).succeeded := by
  rw [Ledger.note, if_pos rfl, h]
  exact List.mem_append_right _ (List.mem_singleton.mpr rfl)

theorem Stuck.moved (h : Stuck start elapsed log s.bringup) (htracks : Tracks s (ledger log))
    (hmoved : Moved s wire input es step) (hrun : input ≠ .start) :
    FirstStage start (elapsed + ticks [(wire, input)]) (log ++ es) step.bringup := by
  cases hmoved with
  | started => exact absurd rfl hrun
  | forgot => exact .inr (.inl (h.keep rfl List.not_mem_nil))
  | rested hidle =>
    rw [h.active] at hidle
    cases hidle
  | @settled left hphase =>
    rw [List.append_nil]
    refine .inr (.inl (h.counted rfl ?_ ?_))
    · simp only [Bringup.isAwaiting, hphase]
    · rw [Bringup.patience.eq_1 s.bringup, hphase]
      show left + s.bringup.ahead s.bringup.attempts + 1 ≤ _
      dsimp only
      omega
  | @waited left hphase =>
    rw [List.append_nil]
    refine .inr (.inl (h.counted rfl ?_ ?_))
    · simp only [Bringup.isAwaiting, hphase]
    · rw [Bringup.patience.eq_1 s.bringup, hphase]
      show left + 1 + s.bringup.settleAfter (s.bringup.attempts + 1) +
        s.bringup.ahead (s.bringup.attempts + 1) + 1 ≤ _
      dsimp only
      omega
  | expired hphase hfailed =>
    have hawaiting : s.bringup.isAwaiting = true := by simp only [Bringup.isAwaiting, hphase]
    exact .inr (h.of_failed hfailed hawaiting)
  | issued hdue _ => exact .inr (.inl (h.issued hdue true))
  | unwritten hdue _ hfailed =>
    rw [List.append_cons]
    -- the command is issued and fails on one tick, which lowers the patience twice
    have hissued := (h.issued hdue false).of_failed hfailed rfl
    exact .inr (hissued.imp Stuck.sooner id)
  | stray _ => exact .inr (.inl (h.keep rfl List.not_mem_nil))
  | ignored _ _ => exact .inr (.inl (h.keep rfl fun hmem => by cases List.mem_singleton.mp hmem))
  | @refused status data _ _ hawaiting _ hfailed =>
    rw [List.append_cons]
    have hanswered : Stuck start elapsed (log ++ [.answered status data]) s.bringup :=
      h.keep rfl fun hmem => by cases List.mem_singleton.mp hmem
    exact .inr ((hanswered.of_failed hfailed hawaiting).imp Stuck.sooner id)
  | @advanced data _ _ hawaiting _ =>
    have hflight := (htracks.waits hawaiting).1
    rw [h.stage] at hflight
    refine .inl ?_
    rw [ledger_append]
    exact mem_succeeded_note hflight data
  | completed _ _ hlast =>
    rw [h.stage] at hlast
    cases hlast

/-- Once it has given up, bring-up does nothing until it is started. -/
theorem Over.moved (h : Over log s.bringup) (hmoved : Moved s wire input es step)
    (hrun : input ≠ .start) : Over (log ++ es) step.bringup := by
  have hidle : s.bringup.isAwaiting = false := by simp only [Bringup.isAwaiting, h.phase]
  have hnone : s.bringup.due? = none := by simp only [Bringup.due?, h.phase]
  cases hmoved with
  | started => exact absurd rfl hrun
  | forgot => exact h.keep rfl
  | rested _ => exact h.keep rfl
  | stray _ => exact h.keep rfl
  | ignored _ _ => exact h.keep rfl
  | settled hphase => cases h.phase.symm.trans hphase
  | waited hphase => cases h.phase.symm.trans hphase
  | expired hphase _ => cases h.phase.symm.trans hphase
  | issued hdue _ => cases hnone.symm.trans hdue
  | unwritten hdue _ _ => cases hnone.symm.trans hdue
  | refused _ hawaiting _ _ => cases hidle.symm.trans hawaiting
  | advanced _ hawaiting _ => cases hidle.symm.trans hawaiting
  | completed _ hawaiting _ => cases hidle.symm.trans hawaiting

theorem FirstStage.moved (h : FirstStage start elapsed log s.bringup)
    (htracks : Tracks s (ledger log)) (hmoved : Moved s wire input es step)
    (hrun : input ≠ .start) :
    FirstStage start (elapsed + ticks [(wire, input)]) (log ++ es) step.bringup := by
  rcases h with hdone | hstuck | hover
  · exact .inl (succeeded_subset_append log _ hdone)
  · exact hstuck.moved htracks hmoved hrun
  · exact .inr (.inr (hover.moved hmoved hrun))

/-! ## Whole runs -/

/-- What is known of a run since bring-up was started. -/
structure Accounted (start : Bringup) (inputs : List (Wire × Input)) (log : List Entry)
    (s : Sequencer) : Prop where
  tracks : Tracks s (ledger log)
  settings_eq : s.bringup.settings = start.settings
  few : s.bringup.Few
  first : FirstStage start (ticks inputs) log s.bringup
  onlyFirst : ∀ stage, .failed (.attemptsExhausted stage) ∈ log → stage = .readIdentity
  spent : ∀ stage, stage ≠ .readIdentity →
    tries (stage.command start.settings) log + s.bringup.left stage ≤
      Bringup.resetAttempt * (tries .reset log + 1)

theorem accounted_start (b : Bringup) (slot : CommandSlot) : Accounted b [] [] ⟨b.start, slot⟩ := by
  have hzero : 0 < Bringup.resetAttempt := by decide
  have hfew : 0 < Bringup.maxAttempts := by decide
  refine ⟨⟨nofun, .inr (.inr ⟨rfl, rfl, hzero, rfl⟩)⟩, rfl, fun h => absurd rfl h,
    .inr (.inl ?_), nofun, fun stage _ => ?_⟩
  · have htime : 0 + b.start.patience ≤ b.limit :=
      Nat.le_of_eq (by rw [b.patience_start, Nat.zero_add])
    exact ⟨rfl, rfl, rfl, rfl, hfew, rfl, nofun, htime⟩
  · exact Nat.le_trans (Nat.le_of_eq (Nat.zero_add _)) (Bringup.left_le b.start stage)

theorem Moved.first_of_exhausted (hmoved : Moved s wire input es step) (hfew : s.bringup.Few)
    {stage : Stage} (h : .failed (.attemptsExhausted stage) ∈ es) : stage = .readIdentity := by
  cases hmoved with
  | expired _ hfailed => exact hfailed.first_of_exhausted hfew h
  | @unwritten c _ _ _ _ _ hfailed =>
    have hissued : s.bringup.pastSettled.issued.Few := Bringup.few_pastSettled hfew
    have hne : Entry.failed (.attemptsExhausted stage) ≠ .issued c false := nofun
    exact hfailed.first_of_exhausted hissued (List.mem_of_ne_of_mem hne h)
  | @refused status data _ _ _ _ hfailed =>
    have hne : Entry.failed (.attemptsExhausted stage) ≠ .answered status data := nofun
    exact hfailed.first_of_exhausted hfew (List.mem_of_ne_of_mem hne h)
  | advanced _ _ _ => simp at h
  | completed _ _ _ => simp at h
  | started => cases List.mem_singleton.mp h
  | issued _ _ => cases List.mem_singleton.mp h
  | ignored _ _ => cases List.mem_singleton.mp h
  | _ => cases h

theorem Accounted.moved {inputs : List (Wire × Input)} (h : Accounted start inputs log s)
    (hmoved : Moved s wire input es step) (hrun : input ≠ .start) :
    Accounted start (inputs ++ [(wire, input)]) (log ++ es) ⟨step.bringup, step.slot⟩ := by
  refine ⟨h.tracks.moved hmoved, hmoved.settings_eq.trans h.settings_eq, hmoved.few h.few, ?_,
    fun stage hmem => ?_, fun stage hlater => ?_⟩
  · rw [ticks, List.countP_append]
    exact h.first.moved h.tracks hmoved hrun
  · rcases List.mem_append.mp hmem with hbefore | hnow
    · exact h.onlyFirst stage hbefore
    · exact hmoved.first_of_exhausted h.few hnow
  · have hspent := h.spent stage hlater
    have hnow := hmoved.spends h.few hrun hlater
    rw [Spends, h.settings_eq] at hnow
    rw [tries_append, tries_append]
    simp only [Bringup.resetAttempt] at hspent hnow ⊢
    omega

theorem Stuck.not_idle (h : Stuck start elapsed log b) : b.phase ≠ .idle := by
  intro hphase
  have hactive := h.active
  rw [Bringup.isActive, hphase] at hactive
  cases hactive

theorem Stuck.tries_le (h : Stuck start elapsed log b) :
    tries .readLocalInformation log ≤ Bringup.maxAttempts := by
  rw [h.tried]
  exact Nat.le_trans (Nat.add_le_add_left (Bool.toNat_le _) _) h.few

/-- A first stage that has not succeeded is tried on or has been given up. -/
theorem FirstStage.outcome (h : FirstStage start elapsed log b)
    (hnever : .readLocalInformation ∉ (ledger log).succeeded) :
    tries .readLocalInformation log ≤ Bringup.maxAttempts ∧
      (givenUp ∈ log ↔ b.phase = .idle) ∧
      (b.phase = .idle → tries .readLocalInformation log = Bringup.maxAttempts) ∧
      (start.limit ≤ elapsed → b.phase = .idle) := by
  rcases h with hdone | hstuck | hover
  · exact absurd hdone hnever
  · refine ⟨hstuck.tries_le, ⟨fun htold => absurd htold hstuck.silent,
      fun hphase => absurd hphase hstuck.not_idle⟩, fun hphase => absurd hphase hstuck.not_idle,
      fun hlong => ?_⟩
    -- there is patience left, so the time is not up
    have hpos := Bringup.patience_pos hstuck.active hstuck.few
    have htime := hstuck.time
    omega
  · exact ⟨Nat.le_of_eq hover.tried, ⟨fun _ => hover.phase, fun _ => hover.told⟩,
      fun _ => hover.tried, fun _ => hover.phase⟩

theorem accounted_after (b : Bringup) (slot : CommandSlot) (inputs : List (Wire × Input))
    (hrun : ∀ x ∈ inputs, x.2 ≠ .start) :
    Accounted b inputs (Sequencer.log ⟨b.start, slot⟩ inputs)
      (Sequencer.after ⟨b.start, slot⟩ inputs) :=
  kept_during (Accounted b) (· ≠ .start)
    (fun _ _ s wire input hrun h => h.moved (s.moved wire input) hrun)
    (accounted_start b slot) inputs hrun

/-- **The first stage is given up, and only it.** After a start, and until the next: a stage that does
not succeed is tried seven times at most, if it is the first stage or the module is not reset again. A
first stage that does not succeed is given up: bring-up is idle once it is and not before, it has then
been tried seven times, and that is within a time that the timing fixes. A later stage is tried three
times at most for each reset and three times more; it is never given up. -/
theorem given_up_only_first (b : Bringup) (slot : CommandSlot) (inputs : List (Wire × Input))
    (hrun : ∀ x ∈ inputs, x.2 ≠ .start) :
    let s : Sequencer := ⟨b.start, slot⟩
    (∀ stage : Stage, stage.command b.settings ∉ (ledger (s.log inputs)).succeeded →
      stage = .readIdentity ∨ tries .reset (s.log inputs) ≤ 1 →
      tries (stage.command b.settings) (s.log inputs) ≤ Bringup.maxAttempts) ∧
    (.readLocalInformation ∉ (ledger (s.log inputs)).succeeded →
      (givenUp ∈ s.log inputs ↔ (s.after inputs).bringup.phase = .idle) ∧
      ((s.after inputs).bringup.phase = .idle →
        tries .readLocalInformation (s.log inputs) = Bringup.maxAttempts) ∧
      (b.limit ≤ ticks inputs → (s.after inputs).bringup.phase = .idle)) ∧
    (∀ stage : Stage, stage ≠ .readIdentity →
      tries (stage.command b.settings) (s.log inputs) ≤
        Bringup.resetAttempt * (tries .reset (s.log inputs) + 1)) ∧
    ∀ stage, .failed (.attemptsExhausted stage) ∈ s.log inputs → stage = .readIdentity := by
  intro s
  have h := accounted_after b slot inputs hrun
  have hlater (stage : Stage) (hne : stage ≠ .readIdentity) :
      tries (stage.command b.settings) (s.log inputs) ≤
        Bringup.resetAttempt * (tries .reset (s.log inputs) + 1) :=
    Nat.le_trans (Nat.le_add_right _ _) (h.spent stage hne)
  refine ⟨fun stage hnever hcase => ?_, fun hnever => (h.first.outcome hnever).2, hlater,
    h.onlyFirst⟩
  by_cases hfirst : stage = .readIdentity
  · subst hfirst
    exact (h.first.outcome hnever).1
  · have hbound := hlater stage hfirst
    have honce := hcase.resolve_left hfirst
    simp only [Bringup.resetAttempt, Bringup.maxAttempts] at hbound ⊢
    omega

/-- On a wire that delivers everything, ticks that issue the command of a stage, each of which the
module then answers with a status. -/
def answers (stage : Stage) (statuses : List UInt8) : List (Wire × Input) :=
  statuses.flatMap fun status => [({}, .tick), ({}, .completion stage.opcode status [])]

/-- Bring-up that has just been started, of a module that settles at once. -/
def settledModule : Sequencer := ⟨(Bringup.ofConfig {} { resetSettle := 0 }).start, .free⟩

theorem first_stage_refused_seven_times :
    let inputs := answers .readIdentity [1, 1, 1, 1, 1, 1, 1]
    (∀ x ∈ inputs, x.2 ≠ .start) ∧ (settledModule.after inputs).bringup.phase = .idle ∧
      tries .readLocalInformation (settledModule.log inputs) = 7 := by
  intro inputs
  have hrun : ∀ x ∈ inputs, x.2 ≠ .start := by decide
  have hfirst := (given_up_only_first (.ofConfig {} { resetSettle := 0 }) .free inputs hrun).2.1
    (by decide +kernel)
  have hidle := hfirst.1.mp (by decide +kernel)
  exact ⟨hrun, hidle, hfirst.2.1 hidle⟩

/-- A module that answers the first stage and refuses the second has the second tried again and
again: nine tries, none of which succeeded, and bring-up goes on. -/
theorem second_stage_refused_nine_times :
    let round := answers .readIdentity [Response.success] ++ answers .readName [1, 1, 1]
    let inputs := round ++ round ++ round
    (∀ x ∈ inputs, x.2 ≠ .start) ∧
      .readDeviceName ∉ (ledger (settledModule.log inputs)).succeeded ∧
      tries .readDeviceName (settledModule.log inputs) = 9 ∧
      Bringup.maxAttempts < tries .readDeviceName (settledModule.log inputs) ∧
      (∀ e ∈ settledModule.log inputs, e.isEnd = false) ∧
      (settledModule.after inputs).bringup.isActive = true := by
  decide +kernel

end Sequencer

end RoomControl
