import RoomControl.Proofs.Radio.Timeouts

/-!
# The commands that the node wants

The radio accepts commands when bring-up is at rest: a change of visibility, a disconnect while a peer
is connected, and a request for the status when a command has failed. An accepted command is written
at once, or it waits behind the one in flight until its turn comes. `Radio.turns` are the commands whose
turn has come. A disconnect whose turn comes while nobody is connected is passed over; until then it
waits like any other, also for a peer that comes meanwhile.

`Passes` is what a step does to the commands, on a wire that delivers: those held back and those
accepted have their turn in this order. `passes_handle` says so of every input that the radio takes
while it serves the node (`Serving`). Data for the peer does not wait for its turn, and is not part of
this.
-/

set_option autoImplicit false

namespace RoomControl

/-! ## Wires that deliver -/

/-- The wire sends whatever is written to it. -/
def Wire.Delivers (w : Wire) : Prop := ∀ n, w.fate n = .delivered

theorem Wire.Delivers.send_eq {w : Wire} (h : w.Delivers) (packet : Bytes) :
    w.send packet = (true, { w with tried := w.tried + 1, sent := w.sent ++ [packet] }) := by
  rw [send, h w.tried]

namespace AppCommand

/-- The command as it stands on the wire. -/
def packet (c : AppCommand) : Bytes := c.toCommand.toBytes.toOption.getD []

theorem toBytes_toCommand (c : AppCommand) : c.toCommand.toBytes = .ok c.packet := by
  obtain ⟨bytes, hbytes⟩ := Command.encodes_app c
  rw [packet, hbytes]
  rfl

end AppCommand

namespace Radio

/-! ## What is seen of an input -/

/-- A failure has the status requested, if there is room for the request: it answers the command in
flight, or fewer commands than can be are held back. -/
def requestsStatus (r : Radio) (wire : Wire) (byte : UInt8) : Bool :=
  match r.event? wire (.byte byte) with
  | some (.commandFailed command _) =>
    command ≠ Command.readStatus.opcode ∧
      (r.slot.outstanding = some command ∨ r.pending.length < maxPending)
  | _ => false

/-- The commands that the radio accepts with an input. -/
def accepts (r : Radio) (wire : Wire) : Input → List AppCommand
  | .setVisible visible => if (r.setVisible wire visible).1.isOk then [.advertise visible] else []
  | .disconnect => if r.isConnected ∧ (r.disconnect wire).1.isOk then [.disconnect] else []
  | .byte byte => if r.requestsStatus wire byte then [.readStatus] else []
  | .start | .tick | .setLineMode _ => []

/-- The turn of a command, with whether a peer is connected when it comes. -/
structure Turn where
  command : AppCommand
  connected : Bool
  deriving DecidableEq, Repr

/-- A disconnect whose turn comes while nobody is connected. -/
def Turn.IsStale (turn : Turn) : Prop := turn.command = .disconnect ∧ turn.connected = false

instance (turn : Turn) : Decidable turn.IsStale := inferInstanceAs (Decidable (_ ∧ _))

/-- The turns that come with an input: those of the commands that have been held back or are accepted,
and are not held back after it. -/
def turns (r : Radio) (wire : Wire) (input : Input) : List Turn :=
  let wanted := r.pending ++ r.accepts wire input
  (wanted.take (wanted.length - (r.handle wire input).1.pending.length)).map (⟨·, r.isConnected⟩)

/-- The packets that are written with an input. -/
def writes (r : Radio) (wire : Wire) (input : Input) : List Bytes :=
  (r.handle wire input).2.sent.drop wire.sent.length

/-- What is seen of each input, over all of them. -/
def during {α : Type} (seen : Radio → Wire → Input → List α) (r : Radio) :
    List (Wire × Input) → List α
  | [] => []
  | (wire, input) :: rest => seen r wire input ++ during seen (r.handle wire input).1 rest

/-- The packets of the commands that are not passed over. -/
def written (turns : List Turn) : List Bytes :=
  (turns.filter fun turn => ¬ turn.IsStale).map fun turn => turn.command.packet

theorem written_append (turns more : List Turn) :
    written (turns ++ more) = written turns ++ written more := by
  rw [written, List.filter_append, List.map_append]
  rfl

theorem written_stale {turns : List Turn} (h : ∀ turn ∈ turns, turn.IsStale) : written turns = [] := by
  have hnone : turns.filter (fun turn => ¬ turn.IsStale) = [] :=
    List.filter_eq_nil_iff.mpr fun turn hturn => by simpa using h turn hturn
  rw [written, hnone]
  rfl

theorem written_singleton {turn : Turn} (h : ¬ turn.IsStale) :
    written [turn] = [turn.command.packet] := by
  simp [written, h]

variable {r r' r'' : Radio} {wire wire' wire'' : Wire}

/-! ## What a step does to the commands -/

/-- The turns of the commands held back and accepted come in order, and what is not passed over is
written. -/
structure Passes (r : Radio) (wire : Wire) (accepted turned : List AppCommand) (r' : Radio)
    (wire' : Wire) : Prop where
  order : r.pending ++ accepted = turned ++ r'.pending
  sent : wire'.sent = wire.sent ++ written (turned.map (⟨·, r.isConnected⟩))
  delivers : wire'.Delivers

theorem Passes.nothing (hwire : wire.Delivers) (hpending : r'.pending = r.pending) :
    Passes r wire [] [] r' wire := by
  refine ⟨?_, ?_, hwire⟩
  · rw [List.append_nil, List.nil_append, hpending]
  · exact (List.append_nil _).symm

theorem Passes.trans {accepted accepted' turned turned' : List AppCommand}
    (first : Passes r wire accepted turned r' wire') (hconnection : r'.connection = r.connection)
    (second : Passes r' wire' accepted' turned' r'' wire'') :
    Passes r wire (accepted ++ accepted') (turned ++ turned') r'' wire'' := by
  have hconnected : r'.isConnected = r.isConnected := by
    rw [isConnected, isConnected, hconnection]
  refine ⟨?_, ?_, second.delivers⟩
  · calc r.pending ++ (accepted ++ accepted')
        = turned ++ (r'.pending ++ accepted') := by
          rw [← List.append_assoc, first.order, List.append_assoc]
      _ = turned ++ turned' ++ r''.pending := by rw [second.order, List.append_assoc]
  · rw [second.sent, first.sent, hconnected, List.map_append, written_append, List.append_assoc]

/-- While the radio serves the node at most `maxPending` commands are held back, and none when no
command is in flight. -/
structure Serving (r : Radio) : Prop where
  rested : r.bringup.isActive = false
  room : r.pending.length ≤ maxPending
  idle : r.slot.isBusy = false → r.pending = []

/-- The command is in flight or held back. -/
def Wants (r : Radio) (c : AppCommand) : Prop :=
  r.slot.outstanding = some c.toCommand.opcode ∨ c ∈ r.pending

instance (r : Radio) (c : AppCommand) : Decidable (r.Wants c) := inferInstanceAs (Decidable (_ ∨ _))

/-! ### Writing and holding back -/

theorem send_of_delivers (hwire : wire.Delivers) (c : AppCommand) :
    r.send wire c = (.ok (), { r with slot := .waiting c.toCommand.opcode 0 },
      { wire with tried := wire.tried + 1, sent := wire.sent ++ [c.packet] }) := by
  simp only [send, CommandSlot.send, Command.write, c.toBytes_toCommand, hwire.send_eq, if_true]

theorem passes_send (hwire : wire.Delivers) {c : AppCommand}
    (hfresh : ¬ Turn.IsStale ⟨c, r.isConnected⟩) (rest : List AppCommand) :
    Passes { r with pending := c :: rest } wire [] [c]
      (({ r with pending := rest } : Radio).send wire c).2.1
      (({ r with pending := rest } : Radio).send wire c).2.2 := by
  rw [send_of_delivers hwire]
  refine ⟨List.append_nil _, ?_, hwire⟩
  exact congrArg _ (written_singleton hfresh).symm

/-- What the next command passes over is stale, and it is not. -/
theorem dropStale_spec (connected : Bool) (pending : List AppCommand) :
    ∃ stale, pending = stale ++ dropStale connected pending ∧
      (∀ c ∈ stale, Turn.IsStale ⟨c, connected⟩) ∧
      ∀ c ∈ (dropStale connected pending).head?, ¬ Turn.IsStale ⟨c, connected⟩ := by
  induction pending with
  | nil => exact ⟨[], rfl, nofun, nofun⟩
  | cons c rest ih =>
    by_cases hstale : Turn.IsStale ⟨c, connected⟩
    · obtain ⟨rfl, rfl⟩ := hstale
      obtain ⟨stale, hsplit, hall, hhead⟩ := ih
      refine ⟨.disconnect :: stale, congrArg _ hsplit, fun c hc => ?_, hhead⟩
      rcases List.mem_cons.mp hc with rfl | hc
      · exact ⟨rfl, rfl⟩
      · exact hall c hc
    · have hkept : dropStale connected (c :: rest) = c :: rest := by
        cases c with
        | disconnect =>
          cases connected with
          | true => rfl
          | false => exact absurd ⟨rfl, rfl⟩ hstale
        | advertise visible => rfl
        | readStatus => rfl
      rw [hkept]
      refine ⟨[], rfl, nofun, fun c' hc' => ?_⟩
      obtain rfl : c = c' := Option.some.inj hc'
      exact hstale

/-- The next command goes out, when none is in flight. -/
theorem passes_sendNext (hrested : r.bringup.isActive = false) (hroom : r.pending.length ≤ maxPending)
    (hwire : wire.Delivers) :
    (r.sendNext wire).1 = .ok () ∧ Serving (r.sendNext wire).2.1 ∧
      (∃ turned, Passes r wire [] turned (r.sendNext wire).2.1 (r.sendNext wire).2.2) ∧
      ((r.sendNext wire).2.1.pending.length < maxPending ↔
        r.slot = .free ∨ r.pending.length < maxPending) := by
  unfold sendNext
  split
  next hbusy =>
    refine ⟨rfl, ⟨hrested, hroom, fun hidle => ?_⟩, ⟨[], .nothing hwire rfl⟩, ⟨.inr, fun h => ?_⟩⟩
    · rw [hidle] at hbusy
      cases hbusy
    · refine h.resolve_left fun hfree => ?_
      rw [hfree] at hbusy
      cases hbusy
  next hidle =>
    rw [Bool.not_eq_true] at hidle
    have hfree : r.slot = .free ∨ r.pending.length < maxPending :=
      .inl (CommandSlot.eq_free_of_idle hidle)
    obtain ⟨stale, hsplit, hstale, hhead⟩ := dropStale_spec r.isConnected r.pending
    have hover : written (stale.map (⟨·, r.isConnected⟩)) = [] := by
      refine written_stale fun turn hturn => ?_
      obtain ⟨c, hc, rfl⟩ := List.mem_map.mp hturn
      exact hstale c hc
    split
    next hnone =>
      rw [hnone, List.append_nil] at hsplit
      refine ⟨rfl, ⟨hrested, Nat.zero_le _, fun _ => rfl⟩, ⟨stale, ?_, ?_, hwire⟩,
        iff_of_true (Nat.zero_lt_succ _) hfree⟩
      · rw [hsplit]
      · rw [hover, List.append_nil]
    next c rest hnext =>
      rw [hnext] at hsplit hhead
      have hsend := passes_send hwire (hhead c rfl) rest
      rw [send_of_delivers hwire] at hsend ⊢
      have hlength : stale.length + (rest.length + 1) ≤ maxPending := by
        rw [hsplit, List.length_append, List.length_cons] at hroom
        exact hroom
      have hless : rest.length < maxPending := by omega
      refine ⟨rfl, ⟨hrested, Nat.le_of_lt hless, nofun⟩, ⟨stale ++ [c], ?_, ?_, hwire⟩,
        iff_of_true hless hfree⟩
      · rw [List.append_nil, hsplit, List.append_assoc]
        rfl
      · rw [List.map_append, written_append, hover, List.nil_append]
        exact hsend.sent

/-- A command is accepted while there is room for one more. -/
theorem passes_request (h : Serving r) (hwire : wire.Delivers) {c : AppCommand}
    (hfresh : ¬ Turn.IsStale ⟨c, r.isConnected⟩) (hroom : r.pending.length < maxPending) :
    (r.request wire c).1 = .ok () ∧ Serving (r.request wire c).2.1 ∧ (r.request wire c).2.1.Wants c ∧
      ∃ turned, Passes r wire [c] turned (r.request wire c).2.1 (r.request wire c).2.2 := by
  unfold request
  rw [h.rested, if_neg Bool.false_ne_true]
  by_cases hbusy : r.slot.isBusy = true
  · rw [if_pos (.inl hbusy), if_pos hroom]
    refine ⟨rfl, ⟨h.rested, ?_, fun hidle => ?_⟩, .inr List.mem_concat_self, ⟨[], rfl, ?_, hwire⟩⟩
    · rw [List.length_append]
      exact hroom
    · cases hbusy.symm.trans hidle
    · exact (List.append_nil _).symm
  · have hpending := h.idle ((Bool.not_eq_true _).mp hbusy)
    have hsend := passes_send hwire hfresh []
    rw [if_neg fun hheld => hheld.elim hbusy fun hsome => hsome hpending]
    rw [send_of_delivers hwire] at hsend ⊢
    refine ⟨rfl, ⟨h.rested, h.room, nofun⟩, .inl rfl, ⟨[c], ?_, hsend.sent, hwire⟩⟩
    show r.pending ++ [c] = c :: r.pending
    rw [hpending]
    rfl

theorem request_of_full (h : Serving r) (hfull : ¬ r.pending.length < maxPending) (wire : Wire)
    (c : AppCommand) : r.request wire c = (.error .busy, r, wire) := by
  have hsome : r.pending ≠ [] := by
    intro hnone
    rw [hnone] at hfull
    exact hfull (Nat.zero_lt_succ _)
  rw [request, h.rested, if_neg Bool.false_ne_true, if_pos (.inr hsome), if_neg hfull]

/-- What is refused because the radio is busy leaves everything as it was. -/
theorem request_of_busy {c : AppCommand} (h : (r.request wire c).1 = .error .busy) :
    (r.request wire c).2 = (r, wire) := by
  unfold request at h ⊢
  split
  · rfl
  next hrested =>
    rw [if_neg hrested] at h
    split
    next hheld =>
      rw [if_pos hheld] at h
      split
      next hroom =>
        rw [if_pos hroom] at h
        cases h
      next => rfl
    next hfree =>
      -- the wire fails in other ways
      rw [if_neg hfree, send, CommandSlot.send, Command.write, c.toBytes_toCommand] at h
      dsimp only at h
      generalize wire.send c.packet = sent at h
      obtain ⟨_ | _, wire'⟩ := sent
      · cases h
      · cases h

/-! ### Completions -/

theorem fresh_readStatus (connected : Bool) : ¬ Turn.IsStale ⟨.readStatus, connected⟩ := by
  rintro ⟨hsame, -⟩
  cases hsame

/-- A completion that reports success. -/
theorem passes_completed (hrested : r.bringup.isActive = false) (hroom : r.pending.length ≤ maxPending)
    (hwire : wire.Delivers) (command : UInt8) (data : Bytes) :
    let step := r.completeRequest wire command Response.success data
    (∀ command' status', step.event? ≠ some (.commandFailed command' status')) ∧
      Serving step.radio ∧ ∃ turned, Passes r wire [] turned step.radio step.wire := by
  obtain ⟨hsent, hserving, hpasses, -⟩ := passes_sendNext hrested hroom hwire
  unfold completeRequest
  generalize r.sendNext wire = asked at hsent hserving hpasses
  obtain ⟨result, r', wire'⟩ := asked
  dsimp only at hsent
  subst hsent
  dsimp only
  rw [if_neg fun h => h rfl]
  split
  · obtain ⟨turned, horder, hwritten, hdelivers⟩ := hpasses
    exact ⟨nofun, ⟨hserving.rested, hserving.room, hserving.idle⟩, turned, horder, hwritten, hdelivers⟩
  · exact ⟨nofun, hserving, hpasses⟩

/-- A completion that reports a failure. -/
theorem passes_failed (hrested : r.bringup.isActive = false) (hroom : r.pending.length ≤ maxPending)
    (hwire : wire.Delivers) {command status : UInt8} (hfailed : status ≠ Response.success)
    (data : Bytes) :
    let step := r.completeRequest wire command status data
    let asks := command ≠ Command.readStatus.opcode ∧
      (r.slot = .free ∨ r.pending.length < maxPending)
    step.event? = some (.commandFailed command status) ∧ Serving step.radio ∧
      (∃ turned, Passes r wire (if asks then [.readStatus] else []) turned step.radio step.wire) ∧
      (asks → step.radio.Wants .readStatus) ∧
      (¬ (r.slot = .free ∨ r.pending.length < maxPending) → step.radio = r) := by
  have hbusy (hfull : ¬ (r.slot = .free ∨ r.pending.length < maxPending)) :
      r.sendNext wire = (.ok (), r, wire) := by
    refine sendNext_of_busy ?_ wire
    rw [not_or] at hfull
    rw [← Bool.not_eq_false]
    exact fun hidle => hfull.1 (CommandSlot.eq_free_of_idle hidle)
  have hconnection := (keeps_sendNext r wire).connection
  obtain ⟨hsent, hserving, ⟨turned, hpasses⟩, hless⟩ := passes_sendNext hrested hroom hwire
  unfold completeRequest
  generalize r.sendNext wire = asked at hsent hserving hpasses hless hconnection hbusy
  obtain ⟨result, r', wire'⟩ := asked
  dsimp only at hsent hless hserving hpasses hconnection
  subst hsent
  dsimp only
  rw [if_pos hfailed]
  by_cases hasks : command ≠ Command.readStatus.opcode ∧ r'.pending.length < maxPending
  · obtain ⟨haccepted, hserving', hwants, turned', hpasses'⟩ :=
      passes_request hserving hpasses.delivers (fresh_readStatus _) hasks.2
    rw [if_pos hasks, if_pos ⟨hasks.1, hless.mp hasks.2⟩]
    generalize r'.request wire' .readStatus = asked at haccepted hserving' hpasses' hwants
    obtain ⟨result, r'', wire''⟩ := asked
    dsimp only at haccepted
    subst haccepted
    exact ⟨rfl, hserving', ⟨_, hpasses.trans hconnection hpasses'⟩, fun _ => hwants,
      fun hfull => absurd (hless.mp hasks.2) hfull⟩
  · have hquiet := fun h : _ ∧ _ => hasks ⟨h.1, hless.mpr h.2⟩
    rw [if_neg hasks, if_neg hquiet]
    refine ⟨rfl, hserving, ⟨turned, hpasses⟩, fun hasks => absurd hasks hquiet, fun hfull => ?_⟩
    exact congrArg (·.2.1) (hbusy hfull)

/-! ### All inputs -/

/-- A completion that the radio hears while it serves the node. -/
theorem receive_of_completion {byte command status : UInt8} {data : Buffer 128} (h : Serving r)
    (hheard : r.heard? byte = some (.commandComplete command status data)) (wire : Wire) :
    r.receive wire byte = completeRequest
      { r with line := (r.line.feed byte).2, slot := (r.slot.complete command).2 } wire command status
      data.bytes := by
  rw [receive_of_some hheard, react, complete]
  exact if_pos h.rested

/-- The byte completes the answer to a command. -/
def HearsCompletion (r : Radio) (byte : UInt8) : Prop :=
  ∃ command status data, r.heard? byte = some (.commandComplete command status data)

/-- Any other byte leaves the commands and the wire alone, and reports no command as failed. -/
theorem receive_of_other {byte : UInt8} (hother : ¬ r.HearsCompletion byte) (wire : Wire) :
    ∃ result status connection, r.receive wire byte =
        ⟨result, { r with line := (r.line.feed byte).2, status, connection }, wire⟩ ∧
      ∀ command status, result.toOption.join ≠ some (.commandFailed command status) := by
  unfold receive
  dsimp only
  split
  · exact ⟨_, r.status, r.connection, rfl, nofun⟩
  · exact ⟨_, r.status, r.connection, rfl, nofun⟩
  · exact ⟨_, r.status, r.connection, rfl, nofun⟩
  next frame hfed =>
    split
    · exact ⟨_, r.status, r.connection, rfl, nofun⟩
    next response hresponse =>
      have hheard : r.heard? byte = some response := by
        unfold heard?
        rw [hfed]
        dsimp only
        rw [hresponse]
        rfl
      unfold react
      cases response with
      | commandComplete command status data => exact absurd ⟨_, _, _, hheard⟩ hother
      | statusReport status => exact ⟨_, status, r.connection, rfl, nofun⟩
      | connectionComplete status handle address =>
        dsimp only
        split
        · exact ⟨_, r.status, some handle, rfl, nofun⟩
        · exact ⟨_, r.status, r.connection, rfl, nofun⟩
      | disconnectionComplete handle reason =>
        refine ⟨_, r.status, none, rfl, fun command status hevent => ?_⟩
        split at hevent
        · cases hevent
        · cases hevent
      | transparentData handle data =>
        refine ⟨_, r.status, r.connection, rfl, fun command status hevent => ?_⟩
        split at hevent
        · cases hevent
        · cases hevent
      | _ => exact ⟨_, r.status, r.connection, rfl, nofun⟩

theorem not_failed_of_other {byte : UInt8} (hother : ¬ r.HearsCompletion byte) (wire : Wire)
    (command status : UInt8) : r.event? wire (.byte byte) ≠ some (.commandFailed command status) := by
  obtain ⟨result, _, _, hstep, hevent⟩ := receive_of_other hother wire
  rw [event?, hstep]
  exact hevent command status

theorem accepts_of_quiet {byte : UInt8}
    (h : ∀ command status, r.event? wire (.byte byte) ≠ some (.commandFailed command status)) :
    r.accepts wire (.byte byte) = [] := by
  rw [accepts, requestsStatus]
  split
  next hfailed => exact absurd hfailed (h _ _)
  next => rfl

theorem accepts_of_failed {byte command status : UInt8}
    (h : r.event? wire (.byte byte) = some (.commandFailed command status)) :
    r.accepts wire (.byte byte) =
      if command ≠ Command.readStatus.opcode ∧
          (r.slot.outstanding = some command ∨ r.pending.length < maxPending) then [.readStatus]
      else [] := by
  simp only [accepts, requestsStatus, h, decide_eq_true_eq]

/-- A completion frees the slot when it answers the command in flight; otherwise nothing is held back
or a command stays in flight. -/
theorem Serving.room_of_completion (h : Serving r) (command : UInt8) :
    (r.slot.complete command).2 = .free ∨ r.pending.length < maxPending ↔
      r.slot.outstanding = some command ∨ r.pending.length < maxPending := by
  rw [CommandSlot.complete]
  split
  next hanswered => exact iff_of_true (.inl rfl) (.inl hanswered)
  next hstray =>
    refine ⟨fun hroom => hroom.elim (fun hfree => .inr ?_) .inr, fun hroom => .inr ?_⟩
    · have hidle : r.slot.isBusy = false := by
        rw [show r.slot = .free from hfree]
        rfl
      rw [h.idle hidle]
      exact Nat.zero_lt_succ _
    · exact hroom.resolve_left hstray

/-- A byte that completes a command. -/
theorem passes_of_succeeded {byte command : UInt8} (h : Serving r) (hwire : wire.Delivers)
    {data : Buffer 128}
    (hheard : r.heard? byte = some (.commandComplete command Response.success data)) :
    let step := r.receive wire byte
    (∀ command' status', step.event? ≠ some (.commandFailed command' status')) ∧
      Serving step.radio ∧ ∃ turned, Passes r wire [] turned step.radio step.wire := by
  have hstep := receive_of_completion h hheard wire
  obtain ⟨hevent, hserving, turned, hpasses⟩ := passes_completed
    (r := { r with line := (r.line.feed byte).2, slot := (r.slot.complete command).2 }) h.rested h.room
    hwire command data.bytes
  rw [← hstep] at hevent hserving hpasses
  exact ⟨hevent, hserving, turned, hpasses.order, hpasses.sent, hpasses.delivers⟩

/-- A byte that reports a failed command. -/
theorem passes_of_failed {byte command status : UInt8} (h : Serving r) (hwire : wire.Delivers)
    {data : Buffer 128} (hheard : r.heard? byte = some (.commandComplete command status data))
    (hfailed : status ≠ Response.success) :
    let step := r.receive wire byte
    let room := r.slot.outstanding = some command ∨ r.pending.length < maxPending
    step.event? = some (.commandFailed command status) ∧ Serving step.radio ∧
      (∃ turned, Passes r wire (r.accepts wire (.byte byte)) turned step.radio step.wire) ∧
      (command ≠ Command.readStatus.opcode ∧ room → step.radio.Wants .readStatus) ∧
      (¬ room → step.radio.slot = r.slot ∧ step.radio.pending = r.pending) := by
  have hstep := receive_of_completion h hheard wire
  obtain ⟨hevent, hserving, ⟨turned, hpasses⟩, hwants, hfull⟩ := passes_failed
    (r := { r with line := (r.line.feed byte).2, slot := (r.slot.complete command).2 }) h.rested h.room
    hwire hfailed data.bytes
  rw [← hstep] at hevent hserving hpasses hwants hfull
  simp only [h.room_of_completion] at hpasses hwants hfull
  refine ⟨hevent, hserving, ⟨turned, ?_⟩, hwants, fun hnone => ?_⟩
  · rw [accepts_of_failed hevent]
    exact ⟨hpasses.order, hpasses.sent, hpasses.delivers⟩
  · rw [hfull hnone, CommandSlot.complete, if_neg fun hanswered => hnone (.inl hanswered)]
    exact ⟨rfl, rfl⟩

/-- Only a completion that reports a failure has a command reported as failed. -/
theorem Serving.completion_of_failed (h : Serving r) (hwire : wire.Delivers)
    {byte command status : UInt8}
    (hfailed : r.event? wire (.byte byte) = some (.commandFailed command status)) :
    ∃ data, r.heard? byte = some (.commandComplete command status data) ∧
      status ≠ Response.success := by
  by_cases hcompletion : r.HearsCompletion byte
  · obtain ⟨command', status', data, hheard⟩ := hcompletion
    by_cases hstatus : status' = Response.success
    · subst hstatus
      exact absurd hfailed ((passes_of_succeeded h hwire hheard).1 _ _)
    · obtain ⟨hevent, -⟩ := passes_of_failed h hwire hheard hstatus
      rw [event?, hevent] at hfailed
      cases hfailed
      exact ⟨data, hheard, hstatus⟩
  · exact absurd hfailed (not_failed_of_other hcompletion wire _ _)

/-- A failed command has the status requested, if there is room. -/
theorem passes_byte (h : Serving r) (hwire : wire.Delivers) (byte : UInt8) :
    Serving (r.receive wire byte).radio ∧
      ∃ turned, Passes r wire (r.accepts wire (.byte byte)) turned (r.receive wire byte).radio
        (r.receive wire byte).wire := by
  by_cases hcompletion : r.HearsCompletion byte
  · obtain ⟨command, status, data, hheard⟩ := hcompletion
    by_cases hfailed : status = Response.success
    · subst hfailed
      obtain ⟨hevent, hserving, hpasses⟩ := passes_of_succeeded h hwire hheard
      rw [accepts_of_quiet hevent]
      exact ⟨hserving, hpasses⟩
    · obtain ⟨-, hserving, hpasses, -, -⟩ := passes_of_failed h hwire hheard hfailed
      exact ⟨hserving, hpasses⟩
  · obtain ⟨_, _, _, hstep, -⟩ := receive_of_other hcompletion wire
    rw [accepts_of_quiet (not_failed_of_other hcompletion wire), hstep]
    exact ⟨⟨h.rested, h.room, h.idle⟩, [], .nothing hwire rfl⟩

theorem passes_tick (h : Serving r) (hwire : wire.Delivers) :
    Serving (r.tick wire).radio ∧
      ∃ turned, Passes r wire [] turned (r.tick wire).radio (r.tick wire).wire := by
  obtain ⟨hsent, hserving, ⟨turned, hpasses⟩, -⟩ := passes_sendNext
    (r := { r with slot := (r.slot.tick r.responseTimeout).2 }) h.rested h.room hwire
  rw [tick, h.rested, if_neg Bool.false_ne_true]
  dsimp only
  generalize sendNext { r with slot := (r.slot.tick r.responseTimeout).2 } wire = asked
    at hsent hserving hpasses
  obtain ⟨result, r', wire'⟩ := asked
  dsimp only at hsent
  subst hsent
  exact ⟨hserving, turned, hpasses.order, hpasses.sent, hpasses.delivers⟩

/-- What the node asks for is accepted while there is room, and otherwise nothing happens. -/
theorem passes_asked (h : Serving r) (hwire : wire.Delivers) {c : AppCommand}
    (hfresh : ¬ Turn.IsStale ⟨c, r.isConnected⟩) :
    Serving (r.request wire c).2.1 ∧
      ∃ turned, Passes r wire (if (r.request wire c).1.isOk then [c] else []) turned
        (r.request wire c).2.1 (r.request wire c).2.2 := by
  by_cases hroom : r.pending.length < maxPending
  · obtain ⟨haccepted, hserving, -, hpasses⟩ := passes_request h hwire hfresh hroom
    rw [haccepted]
    exact ⟨hserving, hpasses⟩
  · rw [request_of_full h hroom]
    exact ⟨h, [], .nothing hwire rfl⟩

/-- **Every input passes the commands on in order**, while the radio serves the node. -/
theorem passes_handle (h : Serving r) (hwire : wire.Delivers) {input : Input}
    (hstart : input ≠ .start) :
    Serving (r.handle wire input).1 ∧
      ∃ turned, Passes r wire (r.accepts wire input) turned (r.handle wire input).1
        (r.handle wire input).2 := by
  cases input with
  | start => exact absurd rfl hstart
  | byte byte => exact passes_byte h hwire byte
  | tick => exact passes_tick h hwire
  | setVisible visible => exact passes_asked h hwire fun hstale => nomatch hstale.1
  | disconnect =>
    rw [handle, accepts, Radio.disconnect]
    cases hconnected : r.isConnected with
    | false => exact ⟨h, [], .nothing hwire rfl⟩
    | true =>
      have hfresh : ¬ Turn.IsStale ⟨.disconnect, r.isConnected⟩ := by
        rw [hconnected]
        rintro ⟨-, hnobody⟩
        cases hnobody
      simpa using passes_asked h hwire hfresh
  | setLineMode mode => exact ⟨⟨h.rested, h.room, h.idle⟩, [], .nothing hwire rfl⟩

/-- The turns that come with an input are those that `Passes` speaks of. -/
theorem Passes.turns_eq {input : Input} {turned : List AppCommand}
    (h : Passes r wire (r.accepts wire input) turned (r.handle wire input).1 wire') :
    r.turns wire input = turned.map (⟨·, r.isConnected⟩) := by
  have hlength : (turned ++ (r.handle wire input).1.pending).length -
      (r.handle wire input).1.pending.length = turned.length := by
    rw [List.length_append, Nat.add_sub_cancel_right]
  rw [turns, h.order, hlength, List.take_left]

theorem Passes.writes_eq {input : Input} {accepted turned : List AppCommand}
    (h : Passes r wire accepted turned r' (r.handle wire input).2) :
    r.writes wire input = written (turned.map (⟨·, r.isConnected⟩)) := by
  rw [writes, h.sent, List.drop_left]

end Radio

end RoomControl
