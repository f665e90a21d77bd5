import RoomControl.Proofs.Node.Reports

/-!
# Changes of the board are reported

A station reports what its actions change on the board, and queues no report that repeats one
already queued. `last_report_is_current` says when this loses nothing: if the last action that
changed a part of the board found room for its report, then once the queue is empty the message sent
last about the part shows it as it is. There is one exception. A display that is cleared or reset is
reported as a whole, and this report is dropped for any queued item about the display, even for one
that tells a single other line (`cleared_line_unreported`).

A history is taken apart into stages. In each the channel first has its turn or takes a message, and
then the actions of the stage follow (`staged_react`). That a part is *fresh*, told by the queue or
told last as it is, is kept by both.
-/

set_option autoImplicit false

namespace RoomControl

/-! ## Actions of a history -/

/-- An action, and the station that it finds. -/
structure Deed (β : Type) where
  before : Station β
  device : Device
  value : Bytes

namespace Deed

variable {β : Type}

/-- What the action finds queued on a channel. -/
def queue (d : Deed β) (c : Channel) : Queue := d.before.node.queues.get c

/-- There is no room for its report. -/
def Overflows (d : Deed β) (c : Channel) : Prop :=
  ∃ item, reportItem? d.device d.value = some item ∧ ¬ (d.queue c).Accepts item

/-- Its report, which is for the whole display, is dropped for an item about the display although
nothing in the queue tells this part. -/
def Eclipsed (d : Deed β) (c : Channel) (r : Reported) : Prop :=
  (d.device = .displayClear ∨ d.device = .displayReset) ∧
    (∃ old ∈ (d.queue c).items, old.kind = .displayLine) ∧ ¬ (d.queue c).Covers r

variable [Peripherals β]

/-- The board carries it out, and it changes this part. -/
def Changes (d : Deed β) (r : Reported) : Prop :=
  (Peripherals.execute d.before.board d.device d.value).1 = .ok () ∧
    r.ChangedBy d.before.board d.device d.value

end Deed

namespace Station

variable {β : Type} [Peripherals β]

/-- Actions that are carried out in order. -/
def deeds (s : Station β) (connected : Channel → Bool) : List (Device × Bytes) → List (Deed β)
  | [] => []
  | (device, value) :: rest =>
    ⟨s, device, value⟩ :: (s.execute connected device value).2.deeds connected rest

/-- The action that a message asks for, and the station after the echo. -/
def asked (s : Station β) (c : Channel) (bytes : Bytes) :
    Option (Station β × List (Device × Bytes)) :=
  (Message.action? bytes).map fun call => (s.transmit c (echoOf bytes), [call])

/-- The actions of a stimulus, with the station that the first one finds. -/
def actions (s : Station β) : Stimulus β → Option (Station β × List (Device × Bytes))
  | .tick inputs extensions =>
    let s := s.beforeProgram extensions
    if s.node.machine.IsRunning ∧ s.node.evalInterval ≤ countUp s.node.evalElapsed then
      some (s.checked inputs, (s.node.machine.check s.memory (s.ports inputs)).calls)
    else none
  | stimulus => (s.taking stimulus).bind fun (v, c, bytes) => v.asked c bytes

def deedsBy (s : Station β) (stimulus : Stimulus β) : List (Deed β) :=
  match s.actions stimulus with
  | some (u, calls) => u.deeds u.node.isConnected calls
  | none => []

def deedsDuring (s : Station β) : List (Stimulus β) → List (Deed β)
  | [] => []
  | stimulus :: rest => s.deedsBy stimulus ++ (s.react stimulus).deedsDuring rest

/-- The actions of a stimulus other than a tick are those of its message. -/
theorem actions_eq (s : Station β) {stimulus : Stimulus β}
    (htick : ¬ stimulus.IsTick) :
    s.actions stimulus = (s.taking stimulus).bind fun (v, c, bytes) => v.asked c bytes := by
  cases stimulus with
  | tick inputs extensions => exact absurd trivial htick
  | _ => rfl

/-! ## One action -/

theorem board_execute (s : Station β) (connected : Channel → Bool) (device : Device)
    (value : Bytes) :
    (s.execute connected device value).2.board =
      if device.isPeripheral then (Peripherals.execute s.board device value).2 else s.board := by
  unfold execute
  split
  · rfl
  · split
    · unfold triggerConnection
      dsimp only
      split <;> rfl
    · rfl
  · split
    · unfold drive
      dsimp only
      split
      · rfl
      · split <;> rfl
    · rfl

/-- What changes a part is a peripheral, and it is reported. -/
theorem report_of_changedBy {b : β} {device : Device} {value : Bytes} {r : Reported}
    (h : r.ChangedBy b device value) :
    device.isPeripheral = true ∧ ∃ item, reportItem? device value = some item := by
  cases h <;> exact ⟨rfl, _, rfl⟩

/-- An action that does not change a part keeps it fresh. -/
theorem fresh_execute (faithful : Peripherals.Faithful β) {s : Station β} {c : Channel}
    {device : Device} {value : Bytes} {r : Reported} {log : List (Kind × Bytes)}
    (hsame : ¬ (Deed.mk s device value).Changes r)
    (h : r.Fresh (s.node.queues.get c) s.board log) (connected : Channel → Bool) :
    r.Fresh ((s.execute connected device value).2.node.queues.get c)
      (s.execute connected device value).2.board log := by
  have hgrows := (s.driven_execute connected device value).1.queues c
  have hmessage : r.message (s.execute connected device value).2.board = r.message s.board := by
    rw [board_execute]
    split
    · exact faithful.kept s.board device value r hsame
    · rfl
  refine (hgrows.fresh h).imp_right fun htold => ?_
  rw [hmessage]
  exact htold

/-- **The report of an action covers what it changed.** -/
theorem covers_execute {s : Station β} {c : Channel} {device : Device} {value : Bytes}
    {r : Reported} (hq : (s.node.queues.get c).InOrder)
    (hchanges : (Deed.mk s device value).Changes r)
    (hroom : ¬ (Deed.mk s device value).Overflows c)
    (hclear : ¬ (Deed.mk s device value).Eclipsed c r) {connected : Channel → Bool}
    (hconnected : connected c = true) :
    ((s.execute connected device value).2.node.queues.get c).Covers r := by
  obtain ⟨hok, hchanged⟩ := hchanges
  obtain ⟨hperipheral, item, hitem⟩ := report_of_changedBy hchanged
  have hqueue : (s.execute connected device value).2.node.queues.get c =
      (s.node.queues.get c).enqueue item := by
    have hexecuted : (s.execute connected device value).2 = (s.drive connected device value).2 := by
      cases device <;> first | rfl | cases hperipheral
    rw [hexecuted, drive]
    dsimp only at hok ⊢
    rw [hok, hitem]
    show (s.node.notify connected item).queues.get c = _
    rw [Node.notify_eq, PerChannel.get_ofFn, if_pos hconnected]
  rw [hqueue]
  refine Queue.covers_enqueue hq hchanged hitem ?_ fun hdisplay hold => ?_
  · exact Decidable.not_not.mp fun hrefused => hroom ⟨item, hitem, hrefused⟩
  · -- only a display that is cleared or reset is reported as a whole
    subst hdisplay
    refine Classical.byContradiction fun hnot => hclear ⟨?_, hold, hnot⟩
    cases hchanged with
    | clear => exact .inl rfl
    | reset => exact .inr rfl
    | _ => cases hitem

/-! ## Many actions -/

theorem on_execute (faithful : Peripherals.Faithful β) (s : Station β) (connected : Channel → Bool)
    (device : Device) (value : Bytes) (r : Reported) :
    r.On (s.execute connected device value).2.board ↔ r.On s.board := by
  rw [board_execute]
  split
  · exact faithful.on_iff s.board device value r
  · exact Iff.rfl

theorem on_executeAll (faithful : Peripherals.Faithful β) (s : Station β)
    (connected : Channel → Bool) (calls : List (Device × Bytes)) (r : Reported) :
    r.On (s.executeAll connected calls).2.board ↔ r.On s.board := by
  induction calls generalizing s with
  | nil => exact Iff.rfl
  | cons call rest ih => exact (ih _).trans (on_execute faithful s connected call.1 call.2 r)

theorem fresh_executeAll (faithful : Peripherals.Faithful β) {c : Channel} {r : Reported}
    {log : List (Kind × Bytes)} (connected : Channel → Bool) (calls : List (Device × Bytes))
    {s : Station β} (hsame : ∀ d ∈ s.deeds connected calls, ¬ d.Changes r)
    (h : r.Fresh (s.node.queues.get c) s.board log) :
    r.Fresh ((s.executeAll connected calls).2.node.queues.get c)
      (s.executeAll connected calls).2.board log := by
  induction calls generalizing s with
  | nil => exact h
  | cons call rest ih =>
    have hfirst := fresh_execute faithful (hsame _ List.mem_cons_self) h connected
    exact ih (fun d hd => hsame d (List.mem_cons_of_mem _ hd)) hfirst

/-- **The last action that changes a part leaves it fresh**, whatever the others do. -/
theorem fresh_of_deed (faithful : Peripherals.Faithful β) {c : Channel} {r : Reported}
    (log : List (Kind × Bytes)) {connected : Channel → Bool} (hconnected : connected c = true)
    (calls : List (Device × Bytes)) {s : Station β} (hq : (s.node.queues.get c).InOrder)
    {before later : List (Deed β)} {d : Deed β}
    (hdeeds : s.deeds connected calls = before ++ d :: later) (hchanges : d.Changes r)
    (hlast : ∀ d' ∈ later, ¬ d'.Changes r) (hroom : ¬ d.Overflows c)
    (hclear : ¬ d.Eclipsed c r) :
    r.On (s.executeAll connected calls).2.board ∧
      r.Fresh ((s.executeAll connected calls).2.node.queues.get c)
        (s.executeAll connected calls).2.board log := by
  induction calls generalizing s before with
  | nil => cases before <;> cases hdeeds
  | cons call rest ih =>
    cases before with
    | nil =>
      cases hdeeds
      have hcovers := covers_execute hq hchanges hroom hclear hconnected
      have hon : r.On s.board :=
        faithful.changed s.board call.1 call.2 r hchanges.1 hchanges.2
      exact ⟨(on_executeAll faithful s connected (call :: rest) r).mpr hon,
        fresh_executeAll faithful connected rest hlast (.inl hcovers)⟩
    | cons first before =>
      have hgrows := (s.driven_execute connected call.1 call.2).1.queues c
      exact ih (hgrows.inOrder hq) (List.cons.inj hdeeds).2

/-! ## One stimulus -/

/-- A stimulus taken apart: up to `u` the channel had its turn or took a message, and the actions
`calls` follow. -/
structure Staged (s : Station β) (c : Channel) (stimulus : Stimulus β) (u : Station β)
    (calls : List (Device × Bytes)) : Prop where
  deeds : s.deedsBy stimulus = u.deeds u.node.isConnected calls
  board : u.board = s.board
  connected : u.node.isConnected c = true
  inOrder : (u.node.queues.get c).InOrder
  fresh {r : Reported} {log : List (Kind × Bytes)} : r.On s.board →
    r.Fresh (s.node.queues.get c) s.board log →
    r.Fresh (u.node.queues.get c) s.board (log ++ s.sentBy c stimulus)
  after_board : (s.react stimulus).board = (u.executeAll u.node.isConnected calls).2.board
  after_queue : (s.react stimulus).node.queues.get c =
    (u.executeAll u.node.isConnected calls).2.node.queues.get c

/-- A stimulus without actions and packets that queues items at most. -/
theorem staged_of_grows {s : Station β} {c : Channel} {stimulus : Stimulus β}
    (hactions : s.actions stimulus = none) (hsent : s.sentBy c stimulus = [])
    (hboard : (s.react stimulus).board = s.board)
    (hgrows : (s.node.queues.get c).Grows ((s.react stimulus).node.queues.get c))
    (hafter : (s.react stimulus).node.isConnected c = true)
    (hq : (s.node.queues.get c).InOrder) : Staged s c stimulus (s.react stimulus) [] where
  deeds := by rw [deedsBy, hactions, deeds]
  board := hboard
  connected := hafter
  inOrder := hgrows.inOrder hq
  fresh := fun _ h => by rw [hsent, List.append_nil]; exact hgrows.fresh h
  after_board := rfl
  after_queue := rfl

/-- A stimulus that brings a message. -/
theorem staged_of_message {s v : Station β} {c d : Channel} {stimulus : Stimulus β} {bytes : Bytes}
    (hactions : s.actions stimulus = v.asked d bytes) (hsent : s.sentBy c stimulus = [])
    (hreact : s.react stimulus = (v.receiveMessage d bytes).2) (hboard : v.board = s.board)
    (hqueue : v.node.queues.get c = s.node.queues.get c) (hconnected : v.node.isConnected c = true)
    (hq : (s.node.queues.get c).InOrder) : ∃ u calls, Staged s c stimulus u calls := by
  have hecho : (v.transmit d (echoOf bytes)).node = v.node ∧
      (v.transmit d (echoOf bytes)).board = v.board := by
    obtain ⟨radioWire, usbWire, hwires⟩ := v.transmit_eq d (echoOf bytes)
    rw [hwires]
    exact ⟨rfl, rfl⟩
  -- a message that asks for no action queues items at most
  have hplain : ∀ w : Station β, Message.action? bytes = none → w.board = v.board →
      w.node = v.node → Inside w (s.react stimulus) → ∃ u calls, Staged s c stimulus u calls := by
    intro w hnone hwboard hwnode hinside
    refine ⟨_, [], staged_of_grows ?_ hsent ?_ ?_ ?_ hq⟩
    · rw [hactions, asked, hnone]
      rfl
    · rw [hinside.board, hwboard, hboard]
    · have hgrows := hinside.queues c
      rw [hwnode, hqueue] at hgrows
      exact hgrows
    · rw [hinside.isConnected, hwnode]
      exact hconnected
  have hreceived := v.received_receiveMessage d bytes
  generalize v.receiveMessage d bytes = answer at hreceived hreact
  cases hreceived with
  | unanswered hnone hinside => exact hplain v hnone rfl rfl (hreact ▸ hinside)
  | answered hnone hinside => exact hplain _ hnone hecho.2 hecho.1 (hreact ▸ hinside)
  | @acted device value _ haction hstation _ =>
    rw [hstation] at hreact
    refine ⟨v.transmit d (echoOf bytes), [(device, value)], ?_, ?_, ?_, ?_, ?_, ?_, ?_⟩
    · rw [deedsBy, hactions, asked, haction]
      rfl
    · rw [hecho.2, hboard]
    · rw [hecho.1]
      exact hconnected
    · rw [hecho.1, hqueue]
      exact hq
    · intro r log _ h
      rw [hsent, List.append_nil, hecho.1, hqueue]
      exact h
    · rw [hreact]
      rfl
    · rw [hreact]
      rfl

/-- Between the turns of the channels and the check of the program, every part is fresh. -/
theorem fresh_beforeProgram (faithful : Peripherals.Faithful β) {s : Station β} {c : Channel}
    (inputs : Vector UInt8 3) (extensions : PacketSource) (hbefore : s.node.isConnected c = true)
    (hq : (s.node.queues.get c).InOrder) :
    ((s.beforeProgram extensions).node.queues.get c).InOrder ∧
      (s.beforeProgram extensions).node.isConnected c = true ∧
      ∀ {r : Reported} {log : List (Kind × Bytes)}, r.On s.board →
        r.Fresh (s.node.queues.get c) s.board log →
        r.Fresh ((s.beforeProgram extensions).node.queues.get c) s.board
          (log ++ sentOf ((s.tick inputs extensions).1.dispatched.get c)
            ((s.beforeProgram extensions).node.transport.outstanding c)) := by
  obtain ⟨v, counters, hboard, -, hturned⟩ := s.turned_tick inputs extensions c hbefore
  obtain ⟨t, step, -, -, hdispatch, hdispatched, hlane⟩ := hturned.step
  have hqueue : (s.beforeProgram extensions).node.queues.get c = step.queue :=
    congrArg Lane.queue hlane
  have hslot : (s.beforeProgram extensions).node.transport.outstanding c =
      step.transport.outstanding c := congrArg Lane.outstanding hlane
  rw [hqueue, hslot, hdispatched]
  refine ⟨hq.of_dispatch hdispatch, congrArg Lane.connected hlane, fun hon h => ?_⟩
  rw [← hboard] at hon h ⊢
  exact fresh_of_dispatch faithful hon hq hdispatch h

theorem staged_tick (faithful : Peripherals.Faithful β) {s : Station β} {c : Channel}
    (inputs : Vector UInt8 3) (extensions : PacketSource)
    (hbefore : s.node.isConnected c = true) (hq : (s.node.queues.get c).InOrder) :
    ∃ u calls, Staged s c (.tick inputs extensions) u calls := by
  obtain ⟨horder, hconnected, hfresh⟩ := fresh_beforeProgram faithful inputs extensions hbefore hq
  have hboard := (s.frame_beforeProgram extensions).1
  have hcases := (s.beforeProgram extensions).tickProgram_cases inputs
  have hreact : s.react (.tick inputs extensions) =
      ((s.beforeProgram extensions).tickProgram inputs).2.2 := (tick_eq s inputs extensions).2
  have hactions : s.actions (.tick inputs extensions) =
      if (s.beforeProgram extensions).node.machine.IsRunning ∧
          (s.beforeProgram extensions).node.evalInterval ≤
            countUp (s.beforeProgram extensions).node.evalElapsed then
        some ((s.beforeProgram extensions).checked inputs,
          ((s.beforeProgram extensions).node.machine.check (s.beforeProgram extensions).memory
            ((s.beforeProgram extensions).ports inputs)).calls)
      else none := rfl
  have hsent : s.sentBy c (.tick inputs extensions) =
      sentOf ((s.tick inputs extensions).1.dispatched.get c)
        ((s.react (.tick inputs extensions)).node.transport.outstanding c) := rfl
  generalize s.beforeProgram extensions = w at horder hconnected hfresh hboard hcases hreact hactions
  rcases hcases with ⟨hrunning, hdue, hprogram⟩ | ⟨hidle, evalElapsed, hprogram⟩
  · have hdriven := ((w.checked inputs).driven_executeAll w.node.isConnected
      (w.node.machine.check w.memory (w.ports inputs)).calls).1
    rw [hprogram] at hreact
    refine ⟨w.checked inputs, (w.node.machine.check w.memory (w.ports inputs)).calls, ?_, hboard,
      ?_, horder, fun hon h => ?_, ?_, ?_⟩
    · rw [deedsBy, hactions, if_pos ⟨hrunning, hdue⟩]
    · cases c <;> exact hconnected
    · rw [hsent, hreact, hdriven.transport]
      exact hfresh hon h
    · rw [hreact]
      rfl
    · rw [hreact]
      rfl
  · rw [hprogram] at hreact
    refine ⟨s.react (.tick inputs extensions), [], ?_, ?_, ?_, ?_, fun hon h => ?_, rfl, rfl⟩
    · rw [deedsBy, hactions, if_neg hidle, deeds]
    · rw [hreact]
      exact hboard
    · rw [hreact]
      cases c <;> exact hconnected
    · rw [hreact]
      exact horder
    · rw [hsent, hreact]
      exact hfresh hon h

/-- A stimulus other than a tick is taken apart at the message that it brings. -/
theorem staged_of_took {s : Station β} {c : Channel} {stimulus : Stimulus β}
    (htick : ¬ stimulus.IsTick)
    (hkeeps : stimulus.KeepsBoard) (hbefore : s.node.isConnected c = true)
    (hafter : (s.react stimulus).node.isConnected c = true)
    (hq : (s.node.queues.get c).InOrder) : ∃ u calls, Staged s c stimulus u calls := by
  have hactions := s.actions_eq htick
  have hsent := s.sentBy_eq_nil c htick
  cases took_react htick hbefore hafter with
  | message v d bytes htaking hreact hboard _ hlane =>
    rw [htaking] at hactions
    exact staged_of_message hactions hsent hreact hboard (congrArg Lane.queue hlane)
      ((congrArg Lane.connected hlane).trans hbefore) hq
  | quiet htaking hboard _ _ hlane =>
    rw [htaking] at hactions
    have hqueue : (s.react stimulus).node.queues.get c = s.node.queues.get c :=
      congrArg Lane.queue hlane
    exact ⟨_, [], staged_of_grows hactions hsent (hboard hkeeps) (hqueue ▸ .refl _) hafter hq⟩

/-- **Every stimulus can be taken apart**, while the peer stays. -/
theorem staged_react (faithful : Peripherals.Faithful β) {s : Station β} {c : Channel}
    {stimulus : Stimulus β} (hkeeps : stimulus.KeepsBoard)
    (hbefore : s.node.isConnected c = true)
    (hafter : (s.react stimulus).node.isConnected c = true)
    (hq : (s.node.queues.get c).InOrder) : ∃ u calls, Staged s c stimulus u calls := by
  cases stimulus with
  | tick inputs extensions => exact staged_tick faithful inputs extensions hbefore hq
  | _ => exact staged_of_took id hkeeps hbefore hafter hq

/-! ## Histories -/

/-- A part that no action changes stays fresh over a history. -/
theorem fresh_after (faithful : Peripherals.Faithful β) {c : Channel} {r : Reported}
    (history : List (Stimulus β)) {s : Station β} {log : List (Kind × Bytes)}
    (hkeeps : ∀ stimulus ∈ history, stimulus.KeepsBoard) (hstays : s.StaysConnected c history)
    (hq : (s.node.queues.get c).InOrder) (hon : r.On s.board)
    (hsame : ∀ d ∈ s.deedsDuring history, ¬ d.Changes r)
    (h : r.Fresh (s.node.queues.get c) s.board log) :
    r.On (s.after history).board ∧ r.Fresh ((s.after history).node.queues.get c)
      (s.after history).board (log ++ s.sentDuring c history) := by
  induction history generalizing s log with
  | nil => exact ⟨hon, by rwa [sentDuring, List.append_nil]⟩
  | cons stimulus rest ih =>
    obtain ⟨u, calls, staged⟩ := staged_react faithful (hkeeps _ List.mem_cons_self) hstays.1
      (connected_of_staysConnected hstays.2) hq
    have hgrows := (u.driven_executeAll u.node.isConnected calls).1.queues c
    have hacted := staged.fresh hon h
    rw [← staged.board] at hacted hon
    have hfresh := fresh_executeAll faithful u.node.isConnected calls
      (fun d hd => hsame d (List.mem_append_left _ (staged.deeds ▸ hd))) hacted
    have hon' := (on_executeAll faithful u u.node.isConnected calls r).mpr hon
    rw [← staged.after_board] at hon' hfresh
    rw [← staged.after_queue] at hgrows hfresh
    rw [sentDuring, ← List.append_assoc]
    exact ih (fun _ hmem => hkeeps _ (List.mem_cons_of_mem _ hmem)) hstays.2
      (hgrows.inOrder staged.inOrder) hon' (fun d hd => hsame d (List.mem_append_right _ hd)) hfresh

/-- **After the last action that changed a part, the part is fresh** for the rest of the history. -/
theorem fresh_after_deed (faithful : Peripherals.Faithful β) {c : Channel} {r : Reported}
    (history : List (Stimulus β)) {s : Station β} (log : List (Kind × Bytes))
    (hkeeps : ∀ stimulus ∈ history, stimulus.KeepsBoard) (hstays : s.StaysConnected c history)
    (hq : (s.node.queues.get c).InOrder) {before later : List (Deed β)} {d : Deed β}
    (hdeeds : s.deedsDuring history = before ++ d :: later) (hchanges : d.Changes r)
    (hlast : ∀ d' ∈ later, ¬ d'.Changes r) (hroom : ¬ d.Overflows c)
    (hclear : ¬ d.Eclipsed c r) :
    r.On (s.after history).board ∧ r.Fresh ((s.after history).node.queues.get c)
      (s.after history).board (log ++ s.sentDuring c history) := by
  induction history generalizing s before log with
  | nil => cases before <;> cases hdeeds
  | cons stimulus rest ih =>
    obtain ⟨u, calls, staged⟩ := staged_react faithful (hkeeps _ List.mem_cons_self) hstays.1
      (connected_of_staysConnected hstays.2) hq
    have hrest : ∀ stimulus ∈ rest, stimulus.KeepsBoard :=
      fun _ hmem => hkeeps _ (List.mem_cons_of_mem _ hmem)
    have hgrows := (u.driven_executeAll u.node.isConnected calls).1.queues c
    have horder : ((s.react stimulus).node.queues.get c).InOrder := by
      rw [staged.after_queue]
      exact hgrows.inOrder staged.inOrder
    rw [sentDuring, ← List.append_assoc]
    -- the action belongs to this stimulus or to a later one
    have hlater : ∀ before', (s.react stimulus).deedsDuring rest = before' ++ d :: later →
        r.On ((s.react stimulus).after rest).board ∧
          r.Fresh (((s.react stimulus).after rest).node.queues.get c)
            ((s.react stimulus).after rest).board
            ((log ++ s.sentBy c stimulus) ++ (s.react stimulus).sentDuring c rest) :=
      fun before' hdeeds' => ih _ hrest hstays.2 horder hdeeds'
    rcases List.append_eq_append_iff.mp hdeeds with ⟨between, hbefore, hbetween⟩ |
      ⟨between, hbefore, hbetween⟩
    · exact hlater between hbetween
    · cases between with
      | nil => exact hlater [] hbetween.symm
      | cons first between =>
        cases hbetween
        rw [staged.deeds] at hbefore
        obtain ⟨hon, hfresh⟩ := fresh_of_deed faithful (log ++ s.sentBy c stimulus)
          staged.connected calls staged.inOrder hbefore hchanges
          (fun d' hd' => hlast d' (List.mem_append_left _ hd')) hroom hclear
        rw [← staged.after_board] at hon hfresh
        rw [← staged.after_queue] at hfresh
        exact fresh_after faithful rest hrest hstays.2 horder hon
          (fun d' hd' => hlast d' (List.mem_append_right _ hd')) hfresh

/-! ## Queues in order -/

/-- The cursor of every queue belongs to its head. -/
def QueuesInOrder (s : Station β) : Prop := ∀ c, (s.node.queues.get c).InOrder

omit [Peripherals β] in
theorem QueuesInOrder.of_grows {P : Item → Prop} {s t : Station β} (h : s.QueuesInOrder)
    (hgrows : ∀ c, (s.node.queues.get c).GrowsBy P (t.node.queues.get c)) : t.QueuesInOrder :=
  fun c => (hgrows c).inOrder (h c)

theorem grows_receiveMessage (s : Station β) (d : Channel) (bytes : Bytes) (c : Channel) :
    (s.node.queues.get c).Grows ((s.receiveMessage d bytes).2.node.queues.get c) := by
  have hecho : (s.transmit d (echoOf bytes)).node.queues = s.node.queues := by
    obtain ⟨radioWire, usbWire, hwires⟩ := s.transmit_eq d (echoOf bytes)
    rw [hwires]
  have hreceived := s.received_receiveMessage d bytes
  generalize s.receiveMessage d bytes = answer at hreceived
  cases hreceived with
  | unanswered _ hinside => exact hinside.queues c
  | answered _ hinside =>
    have hgrows := hinside.queues c
    rw [hecho] at hgrows
    exact hgrows
  | @acted device value _ _ hstation =>
    rw [hstation]
    have hgrows := ((s.transmit d (echoOf bytes)).driven_execute
      (s.transmit d (echoOf bytes)).node.isConnected device value).1.queues c
    rw [hecho] at hgrows
    exact hgrows.grows

theorem inOrder_tickChannel {s : Station β} (h : s.QueuesInOrder) (counters : Bytes)
    (extensions : PacketSource) (c : Channel) :
    (s.tickChannel counters extensions c).2.QueuesInOrder := by
  intro d
  by_cases hd : d = c
  · subst hd
    cases hconnected : s.node.isConnected d with
    | true =>
      obtain ⟨t, step, -, -, hdispatch, -, hlane⟩ :=
        (s.turned_tickChannel counters extensions d hconnected).step
      have hqueue : (s.tickChannel counters extensions d).2.node.queues.get d = step.queue :=
        congrArg Lane.queue hlane
      rw [hqueue]
      exact (h d).of_dispatch hdispatch
    | false =>
      obtain ⟨-, radioWire, usbWire, stats, hwait⟩ := s.tickTransport_eq d
      unfold tickChannel
      dsimp only
      rw [hwait, tickDispatch_of_disconnected]
      · exact h d
      · cases d <;> exact hconnected
  · have hqueue := congrArg Lane.queue (s.lane_tickChannel_of_ne counters extensions hd)
    show Queue.InOrder (lane _ d).queue
    rw [hqueue]
    exact h d

theorem inOrder_tick {s : Station β} (h : s.QueuesInOrder) (inputs : Vector UInt8 3)
    (extensions : PacketSource) : (s.tick inputs extensions).2.QueuesInOrder := by
  have hradio : s.tickRadio.2.QueuesInOrder := h
  have hbefore : (s.beforeProgram extensions).QueuesInOrder := by
    unfold beforeProgram
    exact inOrder_tickChannel (inOrder_tickChannel hradio _ extensions .usb) _ extensions .bluetooth
  rw [(tick_eq s inputs extensions).2]
  generalize s.beforeProgram extensions = w at hbefore
  rcases w.tickProgram_cases inputs with ⟨-, -, hprogram⟩ | ⟨-, evalElapsed, hprogram⟩
  · rw [hprogram]
    exact QueuesInOrder.of_grows (s := w.checked inputs) hbefore
      ((w.checked inputs).driven_executeAll _ _).1.queues
  · rw [hprogram]
    exact hbefore

omit [Peripherals β] in
theorem inOrder_dropPeer {s : Station β} (h : s.QueuesInOrder) (d c : Channel) :
    ((s.node.dropPeer d).queues.get c).InOrder := by
  by_cases hc : c = d
  · subst hc
    rw [Node.dropPeer, PerChannel.get_set_self]
    exact ⟨fun _ => rfl, Nat.zero_le _⟩
  · rw [Node.dropPeer, PerChannel.get_set_of_ne _ _ hc]
    exact h c

theorem inOrder_react {s : Station β} (h : s.QueuesInOrder) (stimulus : Stimulus β) :
    (s.react stimulus).QueuesInOrder := by
  cases stimulus with
  | radio byte =>
    unfold react receiveRadio
    dsimp only
    split
    · exact h
    · rename_i event _
      cases event with
      | data bytes => exact QueuesInOrder.of_grows h (grows_receiveMessage _ .bluetooth bytes.bytes)
      | disconnected => exact fun c => inOrder_dropPeer h .bluetooth c
      | _ => exact h
    · exact h
    · exact h
  | usb byte =>
    unfold react receiveUsb
    dsimp only
    split
    · exact h
    · exact h
    · rename_i frame _
      split
      · exact QueuesInOrder.of_grows h (grows_receiveMessage _ .usb frame.payload.bytes)
      · exact h
  | usbActive active =>
    cases active with
    | true => exact h
    | false => exact fun c => inOrder_dropPeer h .usb c
  | tick inputs extensions => exact inOrder_tick h inputs extensions
  | _ => exact h

theorem inOrder_after {s : Station β} (h : s.QueuesInOrder) (history : List (Stimulus β)) :
    (s.after history).QueuesInOrder := by
  induction history generalizing s with
  | nil => exact h
  | cons stimulus rest ih => exact ih (inOrder_react h stimulus)

omit [Peripherals β] in
theorem inOrder_boot (config : NodeConfig) (image : Array UInt8) (board : β)
    (radioWire usbWire : Wire) : (boot config image board radioWire usbWire).QueuesInOrder := by
  intro c
  cases c <;> exact ⟨fun _ => rfl, Nat.zero_le _⟩

/-- **The last report of a part shows it as it is.** Take a history in which the peer on a channel
stays and the board changes by actions alone, and the last of the actions that changed a part. If
its report found room, and was not dropped for an item about the rest of the display, then with the
queue empty in the end the message sent last about the part shows its state of that moment. -/
theorem last_report_is_current (faithful : Peripherals.Faithful β) (config : NodeConfig)
    (image : Array UInt8) (board : β) (radioWire usbWire : Wire)
    (earlier history : List (Stimulus β)) (c : Channel) (r : Reported)
    (before later : List (Deed β)) (d : Deed β) :
    let s := (boot config image board radioWire usbWire).after earlier
    s.StaysConnected c history → (∀ stimulus ∈ history, stimulus.KeepsBoard) →
    s.deedsDuring history = before ++ d :: later → d.Changes r → (∀ d' ∈ later, ¬ d'.Changes r) →
    ¬ d.Overflows c → ¬ d.Eclipsed c r → ((s.after history).node.queues.get c).items = [] →
    ∃ bytes, r.message (s.after history).board = some bytes ∧
      r.lastAbout (s.sentDuring c history) = some bytes := by
  intro s hstays hkeeps hdeeds hchanges hlast hroom hclear hempty
  have hq : (s.node.queues.get c).InOrder :=
    inOrder_after (inOrder_boot config image board radioWire usbWire) earlier c
  obtain ⟨hon, hfresh⟩ := fresh_after_deed faithful history [] hkeeps hstays hq hdeeds hchanges
    hlast hroom hclear
  obtain ⟨bytes, hbytes⟩ := Option.isSome_iff_exists.mp (faithful.present _ r hon)
  refine ⟨bytes, hbytes, ?_⟩
  rcases hfresh with hcovers | htold
  · simp [Queue.Covers, hempty] at hcovers
  · rw [← hbytes, ← htold, List.nil_append]

/-- A peer on the USB wire asks for the display to be cleared. -/
def clearMessage : List (Stimulus Board) := usbMessage .action [0x43]

/-- The clearing that follows when a station receives that message. -/
def clearing (s : Station Board) : Deed Board :=
  let s := s.after clearMessage.dropLast
  ⟨(s.withNode { s.node with usb := .idle }).transmit .usb
    (echoOf (Message.packet .action [0x43])), .displayClear, []⟩

/-- A station that has been asked for line 1. -/
def askedForLine : Station Board :=
  (boot {} #[] ({} : Board) {} {}).after (usbMessage .request [0x12, 1])

/-- The display is cleared while line 1 is queued: the item tells the line once it is empty. -/
theorem last_report_of_queued_line :
    let history := clearMessage ++ [plainTick]
    (askedForLine.StaysConnected .usb history ∧ (∀ stimulus ∈ history, stimulus.KeepsBoard) ∧
      askedForLine.deedsDuring history = [] ++ clearing askedForLine :: [] ∧
      (clearing askedForLine).Changes (.line 1) ∧ ¬ (clearing askedForLine).Overflows .usb ∧
      ¬ (clearing askedForLine).Eclipsed .usb (.line 1) ∧
      ((askedForLine.after history).node.queues.get .usb).items = []) ∧
    ∃ bytes, (Reported.line 1).message (askedForLine.after history).board = some bytes ∧
      (Reported.line 1).lastAbout (askedForLine.sentDuring .usb history) = some bytes := by
  intro history
  have hstays : askedForLine.StaysConnected .usb history := by decide +kernel
  have hkeeps : ∀ stimulus ∈ history, stimulus.KeepsBoard := by decide +kernel
  have hdeeds : askedForLine.deedsDuring history = [] ++ clearing askedForLine :: [] := by rfl
  have hchanges : (clearing askedForLine).Changes (.line 1) := ⟨by rfl, .clear [] (by decide)⟩
  have hroom : ¬ (clearing askedForLine).Overflows .usb := by
    rintro ⟨item, hitem, hrefused⟩
    cases hitem
    exact hrefused (by decide +kernel)
  have hclear : ¬ (clearing askedForLine).Eclipsed .usb (.line 1) := by
    rintro ⟨-, -, hnot⟩
    have hitems : ((clearing askedForLine).queue .usb).items = [⟨.displayLine, some 1⟩] := by
      decide +kernel
    exact hnot ((Queue.covers_of_cons hitems _).mpr (.inl ⟨rfl, fun i hi => .inl hi⟩))
  have hempty : ((askedForLine.after history).node.queues.get .usb).items = [] := by decide +kernel
  exact ⟨⟨hstays, hkeeps, hdeeds, hchanges, hroom, hclear, hempty⟩,
    last_report_is_current faithful_board {} #[] {} {} {} (usbMessage .request [0x12, 1]) history
      .usb (.line 1) [] [] (clearing askedForLine) hstays hkeeps hdeeds hchanges
      (fun _ h => absurd h List.not_mem_nil) hroom hclear hempty⟩

/-- A station on the USB host, with a text on line 1. -/
def showing : Station Board :=
  (boot {} #[] { lines := #v[.empty, ⟨"x", by decide⟩] } {} {}).after [.usbActive true]

/-- The peer asks for line 1, is told and echoes it, and asks for line 0. -/
def asking : List (Stimulus Board) :=
  usbMessage .request [0x12, 1] ++ [plainTick] ++ usbMessage .echo [0x04] ++ [plainTick] ++
    usbMessage .request [0x12, 0]

/-- **A cleared line may stay unreported.** The display is cleared while the item for line 0 is
queued. The clearing is successful, the queue has room and every message is confirmed, yet the last
that the peer hears of line 1 is the text that is no longer there. -/
theorem cleared_line_unreported :
    let history := asking ++ clearMessage ++ [plainTick] ++ usbMessage .echo [0x12] ++ [plainTick]
    let d := clearing (showing.after asking)
    showing.StaysConnected .usb history ∧ (∀ stimulus ∈ history, stimulus.KeepsBoard) ∧
      showing.deedsDuring history = [d] ∧ d.Changes (.line 1) ∧ ¬ d.Overflows .usb ∧
      (showing.after history).lane .usb = ⟨{}, none, {}, true⟩ ∧
      (showing.after history).node.stats.giveUps = 0 ∧
      (Reported.line 1).message (showing.after history).board = some [0x12, 0x01, 0x01] ∧
      (Reported.line 1).lastAbout (showing.sentDuring .usb history) =
        some [0x12, 0x79, 0x01, 0x78] := by
  intro history d
  have hroom : ¬ d.Overflows .usb := by
    rintro ⟨item, hitem, hrefused⟩
    cases hitem
    exact hrefused (by decide +kernel)
  exact ⟨by decide +kernel, by decide +kernel, by rfl, ⟨by rfl, .clear [] (by decide)⟩, hroom,
    by rfl, by rfl, by decide +kernel, by decide +kernel⟩

end Station

end RoomControl
