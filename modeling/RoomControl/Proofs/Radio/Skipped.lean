import RoomControl.Proofs.Radio.Configured

/-!
# Which writes are left out

Bring-up leaves a write out when it takes the module to have the setting already. It goes by what it
has kept of the module's replies, and of a name or a PIN it keeps no more than fits. So a reply that
goes on after the setting is taken for the setting, when the setting fills what is kept: the module
has another name or PIN, and the write is left out all the same (`longer_pin_left_out`).

`skipped_iff` says that this is the only mistake. The replies are told from the run, and not from what
bring-up has kept: `Informed` ties the two together. That the module was asked and answered is part of
it, so nothing is left out for a reply that never came.
-/

set_option autoImplicit false

namespace RoomControl

theorem PairingMode.ofByte?_eq_some_iff {byte : UInt8} {mode : PairingMode} :
    ofByte? byte = some mode ↔ byte = mode.toByte := by
  constructor
  · intro h
    unfold ofByte? at h
    split at h <;> cases h <;> rfl
  · rintro rfl
    exact ofByte?_toByte mode

namespace Sequencer

/-! ## Replies -/

/-- The successful reply that an input brings, with the opcode of the command that it answers. A
completion that answers nothing in flight is no reply. -/
def replyIn (s : Sequencer) : Input → List (UInt8 × Bytes)
  | .completion command status data =>
    if s.slot.outstanding = some command ∧ status = Response.success then [(command, data)] else []
  | .start | .forget | .tick => []

/-- The successful replies during inputs. -/
def replies (s : Sequencer) : List (Wire × Input) → List (UInt8 × Bytes)
  | [] => []
  | (wire, input) :: rest => s.replyIn input ++ (s.next wire input).replies rest

/-- The data of the last reply to this command. -/
def lastReply (replies : List (UInt8 × Bytes)) (command : UInt8) : Option Bytes :=
  replies.foldl (fun last reply => if reply.1 = command then some reply.2 else last) none

theorem lastReply_snoc_self (replies : List (UInt8 × Bytes)) (command : UInt8) (data : Bytes) :
    lastReply (replies ++ [(command, data)]) command = some data := by
  rw [lastReply, List.foldl_append]
  exact if_pos rfl

theorem lastReply_snoc_of_ne {command other : UInt8} (h : other ≠ command)
    (replies : List (UInt8 × Bytes)) (data : Bytes) :
    lastReply (replies ++ [(command, data)]) other = lastReply replies other := by
  rw [lastReply, List.foldl_append]
  exact if_neg (Ne.symm h)

end Sequencer

open Sequencer (lastReply)

/-! ## What is kept of the replies -/

/-- The stage asks the module for something that is kept. -/
def Stage.reads : Stage → Bool
  | readIdentity | readName | readPairingMode | readPin | readPairedDevices => true
  | _ => false

namespace ModuleInfo

variable {info : ModuleInfo} {replies : List (UInt8 × Bytes)} {stage : Stage}

/-- The stages before this position that read have been answered, and to be told the last answer again
changes nothing. -/
def Reflects (info : ModuleInfo) (replies : List (UInt8 × Bytes)) (reached : Nat) : Prop :=
  ∀ s : Stage, s.index < reached → s.reads = true →
    ∃ data, lastReply replies s.opcode = some data ∧ info.learn s data = info

theorem Reflects.first (h : stage = .readIdentity) : info.Reflects replies stage.index := by
  intro s hs
  rw [h] at hs
  exact absurd hs (Nat.not_lt_zero _)

theorem Reflects.mono {m n : Nat} (h : info.Reflects replies n) (hle : m ≤ n) :
    info.Reflects replies m := by
  intro s hs
  exact h s (Nat.lt_of_lt_of_le hs hle)

/-- Past a stage that reads nothing. -/
theorem Reflects.past (h : info.Reflects replies stage.index) (hreads : stage.reads = false) :
    info.Reflects replies (stage.index + 1) := by
  intro s hs hsreads
  rcases Nat.lt_or_eq_of_le (Nat.le_of_lt_succ hs) with hlt | hindex
  · exact h s hlt hsreads
  · rw [Stage.index_injective hindex, hreads] at hsreads
    cases hsreads

/-- What a reply tells is kept, and with it what was kept before. -/
theorem Reflects.answered (h : info.Reflects replies stage.index) (data : Bytes) :
    (info.learn stage data).Reflects (replies ++ [(stage.opcode, data)]) (stage.index + 1) := by
  intro s hs hreads
  rcases Nat.lt_or_eq_of_le (Nat.le_of_lt_succ hs) with hlt | hindex
  · obtain ⟨earlier, hearlier, hlearn⟩ := h s hlt hreads
    have hne := Stage.ne_of_index_lt hlt
    have hopcode : s.opcode ≠ stage.opcode := fun hsame => hne (Stage.opcode_injective hsame)
    refine ⟨earlier, ?_, ?_⟩
    · rw [Sequencer.lastReply_snoc_of_ne hopcode, hearlier]
    · rw [learn_comm (Ne.symm hne), hlearn]
  · rw [Stage.index_injective hindex]
    exact ⟨data, Sequencer.lastReply_snoc_self .., learn_self ..⟩

end ModuleInfo

theorem Bringup.reads_of_isSettled {b : Bringup} {stage : Stage} (h : b.isSettled stage = true) :
    stage.reads = false := by
  cases stage <;> first | rfl | cases h

/-- Past a settled stage the same is known. -/
theorem Bringup.reflects_pastSettled {b : Bringup} {replies : List (UInt8 × Bytes)}
    (h : b.info.Reflects replies b.stage.index) :
    b.pastSettled.info.Reflects replies b.pastSettled.stage.index := by
  rcases b.pastSettled_cases with ⟨-, hpast⟩ | ⟨stage, hsettled, hnext, hpast⟩
  · rwa [hpast]
  · rw [hpast]
    have hlater := h.past (reads_of_isSettled hsettled)
    rw [← Stage.index_next hnext] at hlater
    exact hlater

namespace Sequencer

/-! ## What every input keeps -/

/-- Bring-up waits for the command of its stage, if for any, and has kept what the last replies told.
A command in flight that is not its own was issued before bring-up was started. -/
structure Informed (s : Sequencer) (replies : List (UInt8 × Bytes)) : Prop where
  own : s.bringup.isAwaiting = true → s.bringup.command = s.bringup.stage.opcode
  slot : s.slot.outstanding = none ∨
    s.bringup.isAwaiting = true ∧ s.slot.outstanding = some s.bringup.command ∨
    s.bringup.isAwaiting = false ∧ s.bringup.stage = .readIdentity
  reflects : s.bringup.info.Reflects replies s.bringup.stage.index

variable {s : Sequencer} {wire : Wire} {input : Input} {es : List Entry} {step : BringupStep}
  {known : List (UInt8 × Bytes)}

theorem Informed.slot_of_not_awaiting (h : Informed s known)
    (hawaiting : s.bringup.isAwaiting = false) :
    s.slot.outstanding = none ∨ s.bringup.stage = .readIdentity := by
  rcases h.slot with hfree | ⟨hyes, -⟩ | ⟨-, hfirst⟩
  · exact .inl hfree
  · rw [hawaiting] at hyes
    cases hyes
  · exact .inr hfirst

/-- While bring-up waits for no command. -/
theorem Informed.of_not_awaiting (hawaiting : s.bringup.isAwaiting = false)
    (hslot : s.slot.outstanding = none ∨ s.bringup.stage = .readIdentity)
    (hreflects : s.bringup.info.Reflects known s.bringup.stage.index) : Informed s known := by
  refine ⟨fun hyes => ?_, hslot.imp id fun hfirst => .inr ⟨hawaiting, hfirst⟩, hreflects⟩
  rw [hawaiting] at hyes
  cases hyes

theorem Informed.of_failed {b : Bringup} {slot : CommandSlot} (hfailed : b.Failed slot wire step)
    (hslot : slot.outstanding = none ∨ b.stage = .readIdentity)
    (hinfo : b.info.Reflects known b.stage.index) : Informed ⟨step.bringup, step.slot⟩ known := by
  cases hfailed with
  | exhausted _ => exact .of_not_awaiting rfl hslot hinfo
  | retry _ _ => exact .of_not_awaiting rfl hslot hinfo
  | reset _ _ => exact .of_not_awaiting rfl (.inl rfl) (.first rfl)

/-- **Every input keeps bring-up informed.** -/
theorem Informed.moved (h : Informed s known) (hmoved : Moved s wire input es step) :
    Informed ⟨step.bringup, step.slot⟩ (known ++ s.replyIn input) := by
  cases hmoved with
  | started => exact .of_not_awaiting rfl (.inr rfl) (.first rfl)
  | forgot =>
    rw [replyIn, List.append_nil]
    exact ⟨h.own, .inl rfl, h.reflects⟩
  | rested _ =>
    rw [replyIn, List.append_nil]
    exact h
  | settled hphase =>
    rw [replyIn, List.append_nil]
    have hslot := h.slot_of_not_awaiting (by simp only [Bringup.isAwaiting, hphase])
    exact .of_not_awaiting rfl hslot h.reflects
  | waited hphase =>
    rw [replyIn, List.append_nil]
    have hawaiting : s.bringup.isAwaiting = true := by simp only [Bringup.isAwaiting, hphase]
    refine ⟨fun _ => h.own hawaiting, ?_, h.reflects⟩
    rcases h.slot with hfree | ⟨-, hsome⟩ | ⟨hnot, -⟩
    · exact .inl hfree
    · exact .inr (.inl ⟨rfl, hsome⟩)
    · rw [hawaiting] at hnot
      cases hnot
  | expired _ hfailed =>
    rw [replyIn, List.append_nil]
    exact .of_failed hfailed (.inl rfl) h.reflects
  | @issued c _ hdue _ =>
    rw [replyIn, List.append_nil]
    refine ⟨fun _ => Stage.opcode_command _ _, .inr (.inl ⟨rfl, ?_⟩),
      Bringup.reflects_pastSettled h.reflects⟩
    rw [← Bringup.command_of_due hdue]
    rfl
  | unwritten hdue _ hfailed =>
    rw [replyIn, List.append_nil]
    have hslot := h.slot_of_not_awaiting (Bringup.isAwaiting_of_due hdue)
    refine .of_failed hfailed (hslot.imp id fun hfirst => ?_) (Bringup.reflects_pastSettled h.reflects)
    -- the first stage is never left out
    rcases s.bringup.pastSettled_cases with ⟨-, hpast⟩ | ⟨_, hsettled, -, -⟩
    · exact (congrArg Bringup.stage hpast).trans hfirst
    · rw [hfirst] at hsettled
      cases hsettled
  | stray hother =>
    rw [replyIn, if_neg fun hreply => hother hreply.1, List.append_nil]
    exact h
  | ignored houtstanding hignored =>
    -- what is answered was issued before the start, and nothing has been read since
    have hfirst : s.bringup.stage = .readIdentity := by
      rcases h.slot with hfree | ⟨hawaiting, hsome⟩ | ⟨-, hfirst⟩
      · rw [houtstanding] at hfree
        cases hfree
      · rw [houtstanding] at hsome
        rcases hignored with hnot | hother
        · rw [hawaiting] at hnot
          cases hnot
        · exact absurd (Option.some.inj hsome) hother
      · exact hfirst
    exact ⟨h.own, .inl rfl, .first hfirst⟩
  | refused _ _ hstatus hfailed =>
    rw [replyIn, if_neg fun hreply => hstatus hreply.2, List.append_nil]
    exact .of_failed hfailed (.inl rfl) h.reflects
  | @advanced data stage houtstanding hawaiting hnext =>
    rw [replyIn, if_pos ⟨houtstanding, rfl⟩, h.own hawaiting]
    refine .of_not_awaiting rfl (.inl rfl) ?_
    show ModuleInfo.Reflects _ _ stage.index
    rw [Stage.index_next hnext]
    exact h.reflects.answered data
  | @completed data houtstanding hawaiting _ =>
    rw [replyIn, if_pos ⟨houtstanding, rfl⟩, h.own hawaiting]
    exact .of_not_awaiting rfl (.inl rfl) ((h.reflects.answered data).mono (Nat.le_succ _))

/-- **A run keeps bring-up informed.** -/
theorem Informed.after (h : Informed s known) (inputs : List (Wire × Input)) :
    Informed (s.after inputs) (known ++ s.replies inputs) := by
  induction inputs generalizing s known with
  | nil =>
    rw [replies, List.append_nil]
    exact h
  | cons x rest ih =>
    have hrest := ih (h.moved (s.moved x.1 x.2))
    rw [List.append_assoc] at hrest
    exact hrest

theorem informed_after (radio : RadioSettings) (timing : TimingSettings)
    (inputs : List (Wire × Input)) :
    Informed ((ofConfig radio timing).after inputs) ((ofConfig radio timing).replies inputs) := by
  have hstart : Informed (ofConfig radio timing) [] :=
    .of_not_awaiting rfl (.inl rfl) (.first rfl)
  exact hstart.after inputs

/-! ## Stages that are left out -/

/-- The next tick issues a command, and bring-up is at this stage. -/
def ComesTo (s : Sequencer) (stage : Stage) : Prop :=
  s.bringup.stage = stage ∧ s.bringup.due?.isSome = true

/-- On a tick at this stage another command is issued than that of the stage. -/
def Skips (s : Sequencer) (wire : Wire) (stage : Stage) : Prop :=
  s.bringup.stage = stage ∧ ∃ c taken, .issued c taken ∈ s.entries wire .tick ∧
    c ≠ stage.command s.bringup.settings

theorem issued_iff (wire : Wire) {c : Command} :
    (∃ taken, .issued c taken ∈ s.entries wire .tick) ↔ s.bringup.due? = some c := by
  have hreport (result : Except BringupError (Option BringupEvent)) (taken : Bool) :
      .issued c taken ∉ reportOf result := by
    unfold reportOf
    split <;> simp
  constructor
  · rintro ⟨taken, hmem⟩
    rcases List.mem_append.mp hmem with hnoticed | hreported
    · obtain ⟨due, hdue, hsame⟩ := List.mem_map.mp hnoticed
      cases hsame
      exact Option.mem_toList.mp hdue
    · exact absurd hreported (hreport _ taken)
  · intro hdue
    refine ⟨(c.write wire).1.isOk, List.mem_append_left _ ?_⟩
    rw [noticed, hdue]
    exact List.mem_singleton_self _

/-- A stage is left out when bring-up takes it for settled. -/
theorem skips_iff_isSettled {stage : Stage} :
    s.Skips wire stage ↔ s.ComesTo stage ∧ s.bringup.isSettled stage = true := by
  constructor
  · rintro ⟨rfl, c, taken, hissued, hother⟩
    have hdue := (issued_iff wire).mp ⟨taken, hissued⟩
    refine ⟨⟨rfl, by rw [hdue]; rfl⟩, ?_⟩
    rcases s.bringup.pastSettled_cases with ⟨-, hpast⟩ | ⟨_, hsettled, -, -⟩
    · have hc := Bringup.command_of_due hdue
      rw [hpast] at hc
      exact absurd hc.symm hother
    · exact hsettled
  · rintro ⟨⟨rfl, hsome⟩, hsettled⟩
    obtain ⟨c, hdue⟩ := Option.isSome_iff_exists.mp hsome
    obtain ⟨taken, hissued⟩ := (issued_iff wire).mpr hdue
    refine ⟨rfl, c, taken, hissued, fun hsame => ?_⟩
    rcases s.bringup.pastSettled_cases with ⟨hopen, -⟩ | ⟨stage, -, hnext, hpast⟩
    · rw [hsettled] at hopen
      cases hopen
    · have hc := Bringup.command_of_due hdue
      rw [hsame, Bringup.settings_pastSettled, hpast] at hc
      have hback : stage = s.bringup.stage := Stage.command_injective hc
      have hindex := Stage.index_next hnext
      rw [hback] at hindex
      omega

end Sequencer

/-! ## What the module has -/

namespace RadioSettings

variable {settings : RadioSettings} {replies : List (UInt8 × Bytes)} {stage : Stage}

/-- The write of this stage is unnecessary: the name is to be kept, or the last reply is the setting,
all of it. -/
def IsMet (settings : RadioSettings) (replies : List (UInt8 × Bytes)) : Stage → Prop
  | .writeName => settings.keepName = true ∨
      lastReply replies Stage.readName.opcode = some settings.name.bytes
  | .writePairingMode => ∃ data, lastReply replies Stage.readPairingMode.opcode = some data ∧
      data.head? = some settings.pairingMode.toByte
  | .writePin => lastReply replies Stage.readPin.opcode = some settings.pin.bytes
  | _ => False

/-- The reply fills what is kept of it with the setting, and goes on. -/
def RunsOver (limit : Nat) (setting : Bytes) (reply : Option Bytes) : Prop :=
  setting.length = limit ∧ ∃ rest, rest ≠ [] ∧ reply = some (setting ++ rest)

/-- The write of this stage is necessary, but the last reply begins with the setting. -/
def IsMistaken (settings : RadioSettings) (replies : List (UInt8 × Bytes)) : Stage → Prop
  | .writeName => settings.keepName = false ∧
      RunsOver Command.maxName settings.name.bytes (lastReply replies Stage.readName.opcode)
  | .writePin => RunsOver Command.maxPin settings.pin.bytes (lastReply replies Stage.readPin.opcode)
  | _ => False

theorem take_eq_iff (data : Bytes) {limit : Nat} {setting : Bytes} (h : setting.length ≤ limit) :
    data.take limit = setting ↔ data = setting ∨ RunsOver limit setting (some data) := by
  constructor
  · rintro rfl
    rcases Nat.lt_or_ge limit data.length with hlong | hshort
    · refine .inr ⟨?_, data.drop limit, ?_, ?_⟩
      · exact List.length_take_of_le (Nat.le_of_lt hlong)
      · intro hnil
        exact Nat.not_le.mpr hlong (List.drop_eq_nil_iff.mp hnil)
      · rw [List.take_append_drop]
    · exact .inl (List.take_of_length_le hshort).symm
  · rintro (rfl | ⟨hfull, rest, -, hdata⟩)
    · exact List.take_of_length_le h
    · rw [Option.some.inj hdata, ← hfull, List.take_left]

theorem not_runsOver_self {limit : Nat} {setting : Bytes} :
    ¬ RunsOver limit setting (some setting) := by
  rintro ⟨-, rest, hrest, hsame⟩
  exact hrest (List.self_eq_append_right.mp (Option.some.inj hsame))

/-- Nothing is both unnecessary and necessary. -/
theorem not_isMistaken (h : settings.IsMet replies stage) : ¬ settings.IsMistaken replies stage := by
  cases stage with
  | writeName =>
    rintro ⟨hkeep, hover⟩
    rcases h with hkept | hsame
    · rw [hkeep] at hkept
      cases hkept
    · rw [hsame] at hover
      exact not_runsOver_self hover
  | writePin =>
    intro hover
    have hsame : lastReply replies Stage.readPin.opcode = some settings.pin.bytes := h
    rw [IsMistaken, hsame] at hover
    exact not_runsOver_self hover
  | _ => exact id

end RadioSettings

/-- **What bring-up takes for settled**, told from the replies: what is, and what a reply that runs
over is mistaken for. -/
theorem Bringup.isSettled_iff {b : Bringup} {replies : List (UInt8 × Bytes)}
    (h : b.info.Reflects replies b.stage.index) :
    b.isSettled b.stage = true ↔
      b.settings.IsMet replies b.stage ∨ b.settings.IsMistaken replies b.stage := by
  cases hstage : b.stage with
  | writeName =>
    obtain ⟨data, hdata, hlearn⟩ := h .readName (by rw [hstage]; decide) rfl
    have hkept : data.take Command.maxName = b.info.name.bytes :=
      congrArg (fun info => info.name.bytes) hlearn
    have hfits : b.settings.name.bytes.length ≤ Command.maxName := b.settings.name.length_bytes_le
    have htake := RadioSettings.take_eq_iff data hfits
    rw [isSettled, RadioSettings.IsMet, RadioSettings.IsMistaken, hdata, ← hkept]
    cases b.settings.keepName with
    | true => simp
    | false => simpa using htake
  | writePairingMode =>
    obtain ⟨data, hdata, hlearn⟩ := h .readPairingMode (by rw [hstage]; decide) rfl
    have hkept : data.head?.bind PairingMode.ofByte? = b.info.pairingMode :=
      congrArg ModuleInfo.pairingMode hlearn
    show decide (b.info.pairingMode = some b.settings.pairingMode) = true ↔ (∃ _, _ ∧ _) ∨ False
    rw [hdata, ← hkept]
    cases data with
    | nil => simp
    | cons byte rest => simp [PairingMode.ofByte?_eq_some_iff]
  | writePin =>
    obtain ⟨data, hdata, hlearn⟩ := h .readPin (by rw [hstage]; decide) rfl
    have hkept : data.take Command.maxPin = b.info.pin.bytes :=
      congrArg (fun info => info.pin.bytes) hlearn
    have hfits : b.settings.pin.bytes.length ≤ Command.maxPin := b.settings.pin.length_bytes_le
    have htake := RadioSettings.take_eq_iff data hfits
    rw [isSettled, RadioSettings.IsMet, RadioSettings.IsMistaken, hdata, ← hkept]
    simpa using htake
  | _ => exact iff_of_false Bool.false_ne_true (not_or.mpr ⟨id, id⟩)

namespace Sequencer

/-- **A write is left out when the module has the setting, or a reply runs over.** On every run,
whatever the module answers and however its wire fails: when bring-up comes to a stage, another
command is issued in its place if and only if the write is unnecessary, or the last reply begins with
the setting, which fills what is kept of it, and goes on. The two exclude each other. -/
theorem skipped_iff (radio : RadioSettings) (timing : TimingSettings)
    (inputs : List (Wire × Input)) (wire : Wire) (stage : Stage) :
    (((ofConfig radio timing).after inputs).Skips wire stage ↔
      ((ofConfig radio timing).after inputs).ComesTo stage ∧
        (radio.IsMet ((ofConfig radio timing).replies inputs) stage ∨
          radio.IsMistaken ((ofConfig radio timing).replies inputs) stage)) ∧
      ¬ (radio.IsMet ((ofConfig radio timing).replies inputs) stage ∧
        radio.IsMistaken ((ofConfig radio timing).replies inputs) stage) := by
  have hinformed := informed_after radio timing inputs
  have hsettings := (onCourse_after radio timing inputs).settings_eq
  refine ⟨?_, fun h => RadioSettings.not_isMistaken h.1 h.2⟩
  rw [skips_iff_isSettled]
  apply and_congr_right
  rintro ⟨rfl, -⟩
  have hsettled := Bringup.isSettled_iff hinformed.reflects
  rwa [hsettings] at hsettled

/-- The module is brought up as far as its PIN, and answers that with a digit more than the PIN that
it is to have. -/
def longerPin : List (Wire × Input) :=
  let answers : List (Stage × Bytes) :=
    [(.readIdentity, []), (.readName, []), (.writeName, []), (.writeAdvertisingData, []),
      (.writeScanResponse, []), (.readPairingMode, []), (.writePairingMode, []),
      (.readPin, utf8 "1234567")]
  ({}, .start) :: answers.flatMap fun (stage, data) =>
    [({}, .tick), ({}, .completion stage.opcode Response.success data)]

/-- **A write that is necessary is left out**: the PIN is to be `123456`, the module says that it is
`1234567`, and it is not written. -/
theorem longer_pin_left_out :
    ((ofConfig {} { resetSettle := 0 }).after longerPin).Skips {} .writePin ∧
      ¬ RadioSettings.IsMet {} ((ofConfig {} { resetSettle := 0 }).replies longerPin) .writePin := by
  constructor
  · refine skips_iff_isSettled.mpr ⟨⟨?_, ?_⟩, ?_⟩ <;> decide +kernel
  · show ¬ lastReply _ Stage.readPin.opcode = some (utf8 "123456")
    decide +kernel

end Sequencer

end RoomControl
