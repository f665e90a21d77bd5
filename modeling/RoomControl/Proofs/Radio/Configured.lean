import RoomControl.Proofs.Radio.Course

/-!
# Completed means configured

When bring-up reports that it is complete, the commands that have succeeded since it was started or
the module reset are those of the twelve stages, in order and each once. A write is left out exactly
when the name is to be kept, or when the module has said in the same walk that it already has the
setting; `Stage.omits` tells that from the replies alone.

`Bringup.Walked` is the same up to the stage that bring-up has come to. It is what every input keeps,
and `completed_means_configured` reads it off at the end. A reply is what the module answered to the
command in flight; that the module did what it was told is not said here.
-/

set_option autoImplicit false

namespace RoomControl

namespace Stage

/-! ## Walks -/

/-- The module needs no write at this stage, after these replies. Of a name or a PIN as much is
compared as is kept of it. -/
def omits (settings : RadioSettings) (replies : Stage → Bytes) : Stage → Bool
  | writeName =>
    settings.keepName || (replies readName).take Command.maxName = settings.name.bytes
  | writePairingMode =>
    (replies readPairingMode).head?.bind PairingMode.ofByte? = some settings.pairingMode
  | writePin => (replies readPin).take Command.maxPin = settings.pin.bytes
  | _ => false

/-- The commands of these stages, each with its reply, less the writes that are not needed. -/
def walk (settings : RadioSettings) (replies : Stage → Bytes) (stages : List Stage) :
    List (Command × Bytes) :=
  (stages.filter fun s => !s.omits settings replies).map fun s => (s.command settings, replies s)

/-- The replies, with that of this stage. -/
def withReply (replies : Stage → Bytes) (stage : Stage) (data : Bytes) : Stage → Bytes :=
  fun s => if s = stage then data else replies s

variable {settings : RadioSettings} {replies : Stage → Bytes} {s stage : Stage}

theorem getElem?_index (s : Stage) : all[s.index]? = some s := by
  cases s <;> rfl

theorem index_injective {s t : Stage} (h : s.index = t.index) : s = t := by
  have hsame : some s = some t := by rw [← getElem?_index s, h, getElem?_index]
  exact Option.some.inj hsame

theorem ne_of_index_lt {s t : Stage} (h : s.index < t.index) : s ≠ t := by
  intro hsame
  rw [hsame] at h
  exact Nat.lt_irrefl _ h

theorem take_index_succ (s : Stage) : all.take (s.index + 1) = all.take s.index ++ [s] := by
  cases s <;> rfl

theorem take_index_last (h : stage.next? = none) : all.take (stage.index + 1) = all := by
  cases stage <;> first | rfl | cases h

theorem index_lt_of_mem_take (h : s ∈ all.take stage.index) : s.index < stage.index := by
  have hall : ∀ t ∈ all.take stage.index, t.index < stage.index := by cases stage <;> decide
  exact hall s h

theorem withReply_of_ne (h : s ≠ stage) (data : Bytes) :
    withReply replies stage data s = replies s := if_neg h

/-- Whether a stage needs its write is settled before it is answered. -/
theorem omits_withReply (h : s.index ≤ stage.index) (data : Bytes) :
    s.omits settings (withReply replies stage data) = s.omits settings replies := by
  have hread (t : Stage) (ht : t.index < s.index) : withReply replies stage data t = replies t :=
    withReply_of_ne (ne_of_index_lt (Nat.lt_of_lt_of_le ht h)) data
  cases s with
  | writeName => rw [omits, omits, hread readName (by decide)]
  | writePairingMode => rw [omits, omits, hread readPairingMode (by decide)]
  | writePin => rw [omits, omits, hread readPin (by decide)]
  | _ => rfl

/-- A reply changes nothing about the stages before. -/
theorem walk_withReply (stage : Stage) (data : Bytes) :
    walk settings (withReply replies stage data) (all.take stage.index) =
      walk settings replies (all.take stage.index) := by
  have homits : ∀ s ∈ all.take stage.index,
      (!s.omits settings (withReply replies stage data)) = !s.omits settings replies :=
    fun s hs => by rw [omits_withReply (Nat.le_of_lt (index_lt_of_mem_take hs))]
  rw [walk, List.filter_congr homits, walk]
  refine List.map_congr_left fun s hs => ?_
  have hlt := index_lt_of_mem_take (List.mem_filter.mp hs).1
  rw [withReply_of_ne (ne_of_index_lt hlt)]

theorem walk_append (first rest : List Stage) :
    walk settings replies (first ++ rest) =
      walk settings replies first ++ walk settings replies rest := by
  rw [walk, List.filter_append, List.map_append]
  rfl

theorem walk_of_omits (h : stage.omits settings replies = true) :
    walk settings replies (all.take (stage.index + 1)) =
      walk settings replies (all.take stage.index) := by
  have hnone : walk settings replies [stage] = [] := by simp [walk, h]
  rw [take_index_succ, walk_append, hnone, List.append_nil]

theorem walk_of_reply (h : stage.omits settings replies = false) (data : Bytes) :
    walk settings (withReply replies stage data) (all.take (stage.index + 1)) =
      walk settings replies (all.take stage.index) ++ [(stage.command settings, data)] := by
  have hone : walk settings (withReply replies stage data) [stage] =
      [(stage.command settings, data)] := by
    simp [walk, omits_withReply (Nat.le_refl _), h, withReply]
  rw [take_index_succ, walk_append, walk_withReply, hone]

end Stage

/-- These commands, which succeeded in this order with these replies, give the module its
settings. -/
def RadioSettings.AppliedBy (settings : RadioSettings) (pass : List (Command × Bytes)) : Prop :=
  ∃ replies, pass = Stage.walk settings replies Stage.all

namespace ModuleInfo

/-- What the module replied at the stages before this position is known: to be told it again changes
nothing. -/
def Recalls (info : ModuleInfo) (replies : Stage → Bytes) (reached : Nat) : Prop :=
  ∀ s : Stage, s.index < reached → info.learn s (replies s) = info

theorem learn_self (info : ModuleInfo) (stage : Stage) (data : Bytes) :
    (info.learn stage data).learn stage data = info.learn stage data := by
  cases stage <;> rfl

/-- Each stage has its own part of what is known. -/
theorem learn_comm {s t : Stage} (h : s ≠ t) (info : ModuleInfo) (a b : Bytes) :
    (info.learn s a).learn t b = (info.learn t b).learn s a := by
  cases s <;> cases t <;> first | rfl | exact absurd rfl h

theorem Recalls.succ {info : ModuleInfo} {replies : Stage → Bytes} {stage : Stage}
    (h : info.Recalls replies stage.index) (hstage : info.learn stage (replies stage) = info) :
    info.Recalls replies (stage.index + 1) := by
  intro s hs
  rcases Nat.lt_or_eq_of_le (Nat.le_of_lt_succ hs) with hlt | hindex
  · exact h s hlt
  · rw [Stage.index_injective hindex]
    exact hstage

/-- A reply that is learnt is known from then on. -/
theorem Recalls.learn {info : ModuleInfo} {replies : Stage → Bytes} {stage : Stage}
    (h : info.Recalls replies stage.index) (data : Bytes) :
    (info.learn stage data).Recalls (Stage.withReply replies stage data) (stage.index + 1) := by
  refine Recalls.succ (fun s hs => ?_) ?_
  · have hne := Stage.ne_of_index_lt hs
    rw [Stage.withReply_of_ne hne, learn_comm (Ne.symm hne), h s hs]
  · rw [Stage.withReply, if_pos rfl, learn_self]

end ModuleInfo

namespace Bringup

/-! ## Where a walk has come to -/

/-- What has succeeded is a walk up to the stage of bring-up, which knows the replies. -/
def Walked (b : Bringup) (pass : List (Command × Bytes)) : Prop :=
  ∃ replies, pass = Stage.walk b.settings replies (Stage.all.take b.stage.index) ∧
    b.info.Recalls replies b.stage.index

/-- At the first stage nothing has succeeded. -/
theorem walked_first {b : Bringup} (h : b.stage = .readIdentity) : b.Walked [] := by
  refine ⟨fun _ => [], ?_, ?_⟩
  · rw [h]
    rfl
  · rw [h]
    exact fun s hs => absurd hs (Nat.not_lt_zero _)

/-- What bring-up takes for settled is what the replies leave out. -/
theorem isSettled_of_recalls {b : Bringup} {replies : Stage → Bytes}
    (h : b.info.Recalls replies b.stage.index) :
    b.isSettled b.stage = b.stage.omits b.settings replies := by
  cases hstage : b.stage with
  | writeName =>
    have hname := congrArg ModuleInfo.name (h .readName (by rw [hstage]; decide))
    rw [isSettled, ← hname]
    rfl
  | writePairingMode =>
    have hmode := congrArg ModuleInfo.pairingMode (h .readPairingMode (by rw [hstage]; decide))
    rw [isSettled, ← hmode]
    rfl
  | writePin =>
    have hpin := congrArg ModuleInfo.pin (h .readPin (by rw [hstage]; decide))
    rw [isSettled, ← hpin]
    rfl
  | _ => rfl

/-- A stage that can be settled reads nothing from the module. -/
theorem learn_of_isSettled {b : Bringup} {stage : Stage} (h : b.isSettled stage = true)
    (info : ModuleInfo) (data : Bytes) : info.learn stage data = info := by
  cases stage <;> first | rfl | cases h

theorem Walked.pastSettled {b : Bringup} {pass : List (Command × Bytes)} (h : b.Walked pass) :
    b.pastSettled.Walked pass := by
  rcases b.pastSettled_cases with ⟨-, hpast⟩ | ⟨stage, hsettled, hnext, hpast⟩
  · rwa [hpast]
  · rw [hpast]
    obtain ⟨replies, hpass, hrecalls⟩ := h
    have homits := hsettled
    rw [isSettled_of_recalls hrecalls] at homits
    have hlater := hrecalls.succ (learn_of_isSettled hsettled ..)
    rw [← Stage.walk_of_omits homits, ← Stage.index_next hnext] at hpass
    rw [← Stage.index_next hnext] at hlater
    exact ⟨replies, hpass, hlater⟩

/-- A failure leaves bring-up where it was, or at the first stage. -/
theorem Walked.of_failed {b : Bringup} {slot : CommandSlot} {wire : Wire} {step : BringupStep}
    {l : Sequencer.Ledger} (h : b.Walked l.pass) (hfailed : b.Failed slot wire step) :
    step.bringup.Walked ((Sequencer.reportOf step.result).foldl Sequencer.Ledger.note l).pass := by
  cases hfailed with
  | exhausted _ => exact h
  | retry _ _ => exact h
  | reset _ hresult =>
    rcases hresult with rfl | ⟨e, rfl⟩
    · exact walked_first rfl
    · exact walked_first rfl

/-- The stage that is answered is walked. -/
theorem Walked.answered {b : Bringup} {pass : List (Command × Bytes)} (h : b.Walked pass)
    (hopen : b.isSettled b.stage = false) (data : Bytes) :
    ∃ replies,
      pass ++ [(b.stage.command b.settings, data)] =
        Stage.walk b.settings replies (Stage.all.take (b.stage.index + 1)) ∧
      (b.info.learn b.stage data).Recalls replies (b.stage.index + 1) := by
  obtain ⟨replies, hpass, hrecalls⟩ := h
  rw [isSettled_of_recalls hrecalls] at hopen
  exact ⟨Stage.withReply replies b.stage data, by rw [hpass, Stage.walk_of_reply hopen],
    hrecalls.learn data⟩

end Bringup

namespace Sequencer

/-! ## What every input keeps -/

variable {settings : RadioSettings} {s : Sequencer} {wire : Wire} {input : Input}
  {log es : List Entry} {step : BringupStep}

/-- What every entry says: bring-up is reported complete when the settings have been applied, and
after its end there is nothing but a start. -/
def Lawful (settings : RadioSettings) (before : List Entry) (e : Entry) : Prop :=
  (e = .reported .completed → settings.AppliedBy (ledger before).pass) ∧
    ∀ last ∈ before.getLast?, last.isEnd = true → e = .started

/-- Every entry of a log has `P`, with what is before it. -/
def AtEach (P : List Entry → Entry → Prop) (log : List Entry) : Prop :=
  ∀ before e rest, log = before ++ e :: rest → P before e

theorem AtEach.snoc {P : List Entry → Entry → Prop} {e : Entry} (h : AtEach P log)
    (hlast : P log e) : AtEach P (log ++ [e]) := by
  intro before e' rest heq
  rcases List.eq_nil_or_concat rest with rfl | ⟨rest', last, rfl⟩
  · obtain ⟨rfl, hsame⟩ := List.append_inj' heq rfl
    rw [← (List.cons.inj hsame).1]
    exact hlast
  · rw [List.concat_eq_append, ← List.cons_append, ← List.append_assoc] at heq
    exact h before e' rest' (List.append_inj' heq rfl).1

/-- Every entry of the log is lawful, and after an end bring-up is not active. -/
structure Orderly (settings : RadioSettings) (log : List Entry) (active : Bool) : Prop where
  lawful : AtEach (Lawful settings) log
  ended : ∀ last ∈ log.getLast?, last.isEnd = true → active = false

theorem Orderly.snoc {active active' : Bool} {e : Entry} (h : Orderly settings log active)
    (hactive : active = true ∨ e = .started)
    (hcompleted : e = .reported .completed → settings.AppliedBy (ledger log).pass)
    (hend : e.isEnd = true → active' = false) : Orderly settings (log ++ [e]) active' := by
  refine ⟨h.lawful.snoc ⟨hcompleted, fun last hlast hover => ?_⟩, fun last hlast hover => ?_⟩
  · rcases hactive with hactive | hstarted
    · rw [h.ended last hlast hover] at hactive
      cases hactive
    · exact hstarted
  · rw [List.getLast?_concat] at hlast
    rw [← Option.some.inj hlast] at hover
    exact hend hover

/-- An entry that ends nothing. -/
theorem Orderly.snoc_open {active active' : Bool} {e : Entry} (h : Orderly settings log active)
    (hactive : active = true ∨ e = .started) (hopen : e.isEnd = false) :
    Orderly settings (log ++ [e]) active' := by
  refine h.snoc hactive (fun hcompleted => ?_) fun hend => ?_
  · rw [hcompleted] at hopen
    cases hopen
  · rw [hopen] at hend
    cases hend

theorem Orderly.of_failed {b : Bringup} {slot : CommandSlot} (h : Orderly settings log true)
    (hfailed : b.Failed slot wire step) :
    Orderly settings (log ++ reportOf step.result) step.bringup.isActive := by
  cases hfailed with
  | exhausted _ => exact h.snoc (.inl rfl) nofun fun _ => rfl
  | retry _ _ => exact h.snoc_open (.inl rfl) rfl
  | reset _ hresult =>
    rcases hresult with rfl | ⟨e, rfl⟩
    · exact h.snoc_open (.inl rfl) rfl
    · exact h.snoc_open (.inl rfl) rfl

/-- A sequencer that keeps to the course, with its log. -/
structure OnCourse (settings : RadioSettings) (s : Sequencer) (log : List Entry) : Prop where
  tracks : Tracks s (ledger log)
  settings_eq : s.bringup.settings = settings
  walked : s.bringup.isActive = true → s.bringup.Walked (ledger log).pass
  orderly : Orderly settings log s.bringup.isActive

/-- An answer adds nothing when it is a refusal, or answers nothing that is in flight. -/
theorem pass_note_of_none {l : Ledger} {status : UInt8}
    (h : status ≠ Response.success ∨ l.inFlight = none) (data : Bytes) :
    (l.note (.answered status data)).pass = l.pass := by
  rw [Ledger.note]
  split
  next hstatus =>
    rcases h with hrefused | hnone
    · exact absurd hstatus hrefused
    · rw [hnone]
      exact List.append_nil _
  next => rfl

theorem pass_note_of_some {l : Ledger} {c : Command} (h : l.inFlight = some c) (data : Bytes) :
    (l.note (.answered Response.success data)).pass = l.pass ++ [(c, data)] := by
  rw [Ledger.note, if_pos rfl, h]
  rfl

/-- **Every input keeps to the walk.** -/
theorem Moved.walked (hmoved : Moved s wire input es step) (htracks : Tracks s (ledger log))
    (h : s.bringup.isActive = true → s.bringup.Walked (ledger log).pass)
    (hactive : step.bringup.isActive = true) : step.bringup.Walked (ledger (log ++ es)).pass := by
  rw [ledger_append]
  cases hmoved with
  | started => exact Bringup.walked_first rfl
  | forgot => exact h hactive
  | rested _ => exact h hactive
  | stray _ => exact h hactive
  | settled hphase => exact h (by simp only [Bringup.isActive, hphase])
  | waited hphase => exact h (by simp only [Bringup.isActive, hphase])
  | expired hphase hfailed =>
    exact (h (by simp only [Bringup.isActive, hphase])).of_failed hfailed
  | issued hdue _ => exact (h (Bringup.isActive_of_due hdue)).pastSettled
  | @unwritten c _ _ _ hdue _ hfailed =>
    have hwalked : s.bringup.pastSettled.issued.Walked ((ledger log).note (.issued c false)).pass :=
      (h (Bringup.isActive_of_due hdue)).pastSettled
    exact hwalked.of_failed hfailed
  | ignored houtstanding hignored =>
    -- what is answered was issued before the start, and the ledger does not count it
    obtain ⟨-, hactive', hnone⟩ := htracks.of_ignored houtstanding hignored
    rw [List.foldl_cons, List.foldl_nil, pass_note_of_none (.inr hnone)]
    exact h hactive'
  | @refused status data _ _ hawaiting hstatus hfailed =>
    have hwalked := h (Bringup.isActive_of_isAwaiting hawaiting)
    rw [← pass_note_of_none (.inl hstatus) data] at hwalked
    exact hwalked.of_failed hfailed
  | @advanced data stage _ hawaiting hnext =>
    obtain ⟨hflight, hopen⟩ := htracks.waits hawaiting
    obtain ⟨replies, hpass, hrecalls⟩ :=
      (h (Bringup.isActive_of_isAwaiting hawaiting)).answered hopen data
    rw [← pass_note_of_some hflight, ← Stage.index_next hnext] at hpass
    rw [← Stage.index_next hnext] at hrecalls
    exact ⟨replies, hpass, hrecalls⟩
  | completed _ _ _ => cases hactive

/-- What has succeeded when bring-up completes. -/
theorem applied_of_completed {l : Ledger} (htracks : Tracks s l)
    (h : s.bringup.Walked l.pass) (hawaiting : s.bringup.isAwaiting = true)
    (hlast : s.bringup.stage.next? = none) (data : Bytes) :
    s.bringup.settings.AppliedBy (l.note (.answered Response.success data)).pass := by
  obtain ⟨hflight, hopen⟩ := htracks.waits hawaiting
  obtain ⟨replies, hpass, -⟩ := h.answered hopen data
  rw [Stage.take_index_last hlast] at hpass
  exact ⟨replies, by rw [pass_note_of_some hflight, hpass]⟩

/-- **Every input keeps the log in order.** -/
theorem Moved.orderly (hmoved : Moved s wire input es step) (h : OnCourse settings s log) :
    Orderly settings (log ++ es) step.bringup.isActive := by
  have horderly := h.orderly
  cases hmoved with
  | started => exact horderly.snoc_open (.inr rfl) rfl
  | forgot => rwa [List.append_nil]
  | rested _ => rwa [List.append_nil]
  | stray _ => rwa [List.append_nil]
  | settled hphase =>
    have hactive : s.bringup.isActive = true := by simp only [Bringup.isActive, hphase]
    rw [hactive] at horderly
    rwa [List.append_nil]
  | waited hphase =>
    have hactive : s.bringup.isActive = true := by simp only [Bringup.isActive, hphase]
    rw [hactive] at horderly
    rwa [List.append_nil]
  | expired hphase hfailed =>
    have hactive : s.bringup.isActive = true := by simp only [Bringup.isActive, hphase]
    rw [hactive] at horderly
    exact horderly.of_failed hfailed
  | issued hdue _ => exact horderly.snoc_open (.inl (Bringup.isActive_of_due hdue)) rfl
  | @unwritten c _ _ _ hdue _ hfailed =>
    rw [List.append_cons]
    have hissued : Orderly settings (log ++ [.issued c false]) true :=
      horderly.snoc_open (.inl (Bringup.isActive_of_due hdue)) rfl
    exact hissued.of_failed hfailed
  | ignored houtstanding hignored =>
    have hactive := (h.tracks.of_ignored houtstanding hignored).2.1
    exact horderly.snoc_open (.inl hactive) rfl
  | @refused status data _ _ hawaiting _ hfailed =>
    rw [List.append_cons]
    have hanswered : Orderly settings (log ++ [.answered status data]) true :=
      horderly.snoc_open (.inl (Bringup.isActive_of_isAwaiting hawaiting)) rfl
    exact hanswered.of_failed hfailed
  | @advanced data _ _ hawaiting _ =>
    rw [List.append_cons]
    have hanswered : Orderly settings (log ++ [.answered Response.success data]) true :=
      horderly.snoc_open (.inl (Bringup.isActive_of_isAwaiting hawaiting)) rfl
    exact hanswered.snoc_open (.inl rfl) rfl
  | @completed data _ hawaiting hlast =>
    rw [List.append_cons]
    have hactive := Bringup.isActive_of_isAwaiting hawaiting
    have hanswered : Orderly settings (log ++ [.answered Response.success data]) true :=
      horderly.snoc_open (.inl hactive) rfl
    refine hanswered.snoc (.inl rfl) (fun _ => ?_) fun _ => rfl
    rw [ledger_append, ← h.settings_eq]
    exact applied_of_completed h.tracks (h.walked hactive) hawaiting hlast data

theorem OnCourse.moved (h : OnCourse settings s log) (hmoved : Moved s wire input es step) :
    OnCourse settings ⟨step.bringup, step.slot⟩ (log ++ es) :=
  ⟨h.tracks.moved hmoved, hmoved.settings_eq.trans h.settings_eq, hmoved.walked h.tracks h.walked,
    hmoved.orderly h⟩

/-! ## Whole runs -/

theorem onCourse_ofConfig (radio : RadioSettings) (timing : TimingSettings) :
    OnCourse radio (ofConfig radio timing) [] := by
  refine ⟨⟨nofun, .inl rfl⟩, rfl, nofun, ⟨fun before e rest h => ?_, nofun⟩⟩
  cases before <;> cases h

/-- **Every run keeps to the course.** -/
theorem onCourse_after (radio : RadioSettings) (timing : TimingSettings)
    (inputs : List (Wire × Input)) :
    OnCourse radio ((ofConfig radio timing).after inputs) ((ofConfig radio timing).log inputs) :=
  kept_during (fun _ log s => OnCourse radio s log) (fun _ => True)
    (fun _ _ s wire input _ h => h.moved (s.moved wire input)) (onCourse_ofConfig radio timing)
    inputs fun _ _ => trivial

/-- **Completed means configured.** Over every run, whatever the module answers and however its wire
fails: when bring-up is reported complete, the commands that have succeeded since the start or the
module reset before it are those that give the module its settings; after a completion, or after the
last attempt, there is nothing but a start, so neither comes twice without one; and each input writes
what the log says. -/
theorem completed_means_configured (radio : RadioSettings) (timing : TimingSettings)
    (inputs : List (Wire × Input)) :
    (∀ before rest, (ofConfig radio timing).log inputs = before ++ .reported .completed :: rest →
      radio.AppliedBy (ledger before).pass) ∧
    (∀ before e rest, (ofConfig radio timing).log inputs = before ++ e :: rest → e.isEnd = true →
      rest = [] ∨ ∃ later, rest = .started :: later) ∧
    ∀ wire input, (((ofConfig radio timing).after inputs).react wire input).wire =
      written wire (((ofConfig radio timing).after inputs).entries wire input) := by
  have hlawful := (onCourse_after radio timing inputs).orderly.lawful
  refine ⟨fun before rest h => (hlawful before _ rest h).1 rfl, fun before e rest h hend => ?_,
    fun wire input => (moved _ wire input).wire_eq⟩
  cases rest with
  | nil => exact .inl rfl
  | cons next later =>
    rw [List.append_cons] at h
    have hnext := (hlawful _ next later h).2 e (by rw [List.getLast?_concat]; rfl) hend
    exact .inr ⟨later, by rw [hnext]⟩

/-- Bring-up does complete, when the module answers every command. -/
example :
    let answered := Stage.all.filter fun s => !s.omits {} fun _ => []
    let inputs : List (Wire × Input) := ({}, .start) :: answered.flatMap fun s =>
      [({}, .tick), ({}, .completion s.opcode Response.success [])]
    ((ofConfig {} { resetSettle := 0 }).log inputs).getLast? = some (.reported .completed) := by
  decide +kernel

end Sequencer

end RoomControl
