import RoomControl.Proofs.Radio.InFlight

/-!
# The connected peer

A peer comes when the module reports a connection that succeeded, and goes when the module reports
its end or when the radio is started. `Radio.peerChange?` is what an input says of the peer, and the
connection that the radio keeps is settled by the last change alone (`connection_after`).

A module reset is no change (`peerChange?_of_reset`). It starts bring-up over as a start does, but the
peer of the module that was reset stays, and can be sent data again as soon as bring-up is complete
(`reset_keeps_peer`).
-/

set_option autoImplicit false

namespace RoomControl

/-- What may become of the peer. -/
inductive PeerChange where
  /-- A peer has connected. -/
  | came (handle : UInt8)
  | went
  deriving DecidableEq, Repr

/-- The peer after the change. -/
def PeerChange.peer : PeerChange → Option UInt8
  | came handle => some handle
  | went => none

/-- What an event says of the peer. -/
def Response.peerChange? : Response → Option PeerChange
  | .connectionComplete status handle _ => if status = success then some (.came handle) else none
  | .disconnectionComplete _ _ => some .went
  | _ => none

namespace Radio

/-- What an input says of the peer. -/
def peerChange? (r : Radio) : Input → Option PeerChange
  | .start => some .went
  | .byte byte => (r.heard? byte).bind Response.peerChange?
  | .tick | .setVisible _ | .disconnect | .setLineMode _ => none

/-- What inputs say of the peer, one after the other. -/
def peerChanges (r : Radio) : List (Wire × Input) → List PeerChange
  | [] => []
  | (wire, input) :: rest =>
    (r.peerChange? input).toList ++ (r.handle wire input).1.peerChanges rest

/-- What the rest of the node learns from a step. -/
def Step.event? (step : Step) : Option RadioEvent := step.result.toOption.join

/-- What the rest of the node learns from an input. -/
def event? (r : Radio) (wire : Wire) : Input → Option RadioEvent
  | .byte byte => (r.receive wire byte).event?
  | .tick => (r.tick wire).event?
  | .start | .setVisible _ | .disconnect | .setLineMode _ => none

/-! ## The last change decides -/

theorem connection_complete (r : Radio) (wire : Wire) (command status : UInt8) (data : Bytes) :
    (r.complete wire command status data).radio.connection = r.connection := by
  unfold complete
  dsimp only
  split
  · exact (keeps_completeRequest ..).connection
  · split
    · rfl
    · rfl

theorem connection_react (r : Radio) (wire : Wire) (response : Response) :
    (r.react wire response).radio.connection =
      (response.peerChange?.map PeerChange.peer).getD r.connection := by
  cases response with
  | commandComplete command status data => exact connection_complete ..
  | connectionComplete status handle address =>
    unfold react Response.peerChange?
    dsimp only
    split
    · rfl
    · rfl
  | statusReport status => rfl
  | disconnectionComplete handle reason => rfl
  | transparentData handle data => rfl
  | pairingComplete handle result => rfl
  | unknown opcode => rfl

/-- What an input says of the peer is all that it does to the connection. -/
theorem connection_handle (r : Radio) (wire : Wire) (input : Input) :
    (r.handle wire input).1.connection =
      ((r.peerChange? input).map PeerChange.peer).getD r.connection := by
  cases input with
  | start => rfl
  | byte byte =>
    cases hheard : r.heard? byte with
    | none =>
      simp only [handle, peerChange?, hheard, (receive_of_none hheard wire).1]
      rfl
    | some response =>
      simp only [handle, peerChange?, hheard, receive_of_some hheard wire, connection_react]
      rfl
  | tick => exact (quiet_tick r wire).1.connection
  | setVisible visible => exact (quiet_request ..).1.connection
  | disconnect => exact (quiet_disconnect ..).1.connection
  | setLineMode mode => rfl

/-- **The last change of a run decides** who is connected after it. -/
theorem connection_after (r : Radio) (inputs : List (Wire × Input)) :
    (r.after inputs).connection =
      ((r.peerChanges inputs).getLast?.map PeerChange.peer).getD r.connection := by
  induction inputs generalizing r with
  | nil => rfl
  | cons x rest ih =>
    obtain ⟨wire, input⟩ := x
    show ((r.handle wire input).1.after rest).connection = _
    rw [ih, connection_handle, peerChanges, List.getLast?_append]
    cases (r.peerChange? input) with
    | none => simp
    | some change => cases ((r.handle wire input).1.peerChanges rest).getLast? <;> rfl

/-! ## What a byte reports of the peer -/

theorem plain_afterBringup {r : Radio} {step : BringupStep} {event? : Option RadioEvent}
    (h : (r.afterBringup step).result = .ok event?) : Plain event? := by
  unfold afterBringup at h
  rcases step with ⟨_ | _ | _, _, _, _⟩
  · cases h
  · cases h
    exact ⟨nofun, nofun⟩
  · cases h
    exact ⟨nofun, nofun⟩

theorem plain_completeRequest {r : Radio} {wire : Wire} {command status : UInt8} {data : Bytes}
    {event? : Option RadioEvent}
    (h : (r.completeRequest wire command status data).result = .ok event?) : Plain event? := by
  unfold completeRequest at h
  generalize r.sendNext wire = asked at h
  obtain ⟨result, r', wire'⟩ := asked
  cases result with
  | error e => cases h
  | ok _ =>
    dsimp only at h
    split at h
    · split at h
      · generalize r'.request wire' .readStatus = asked at h
        obtain ⟨result, r'', wire''⟩ := asked
        cases result with
        | error e => cases h
        | ok _ =>
          cases h
          exact ⟨nofun, nofun⟩
      · cases h
        exact ⟨nofun, nofun⟩
    · split at h
      · cases h
        exact ⟨nofun, nofun⟩
      · cases h
        exact ⟨nofun, nofun⟩

theorem plain_complete {r : Radio} {wire : Wire} {command status : UInt8} {data : Bytes}
    {event? : Option RadioEvent}
    (h : (r.complete wire command status data).result = .ok event?) : Plain event? := by
  unfold complete at h
  dsimp only at h
  split at h
  · exact plain_completeRequest h
  · split at h
    · cases h
      exact ⟨nofun, nofun⟩
    · exact plain_afterBringup h

/-- **While nobody is connected** there are neither data nor a disconnection to report. -/
theorem plain_receive {r : Radio} {wire : Wire} {byte : UInt8} {event? : Option RadioEvent}
    (halone : r.connection = none) (h : (r.receive wire byte).result = .ok event?) :
    Plain event? := by
  have hidle (line : LineReader) : ({ r with line } : Radio).isConnected = false := by
    rw [isConnected, halone]
    rfl
  unfold receive at h
  dsimp only at h
  split at h
  · cases h
  · cases h
    exact ⟨nofun, nofun⟩
  · cases h
    exact ⟨nofun, nofun⟩
  · split at h
    · cases h
    · rename_i response _
      unfold react at h
      cases response with
      | commandComplete command status data => exact plain_complete h
      | connectionComplete status handle address =>
        dsimp only at h
        split at h
        · cases h
          exact ⟨nofun, nofun⟩
        · cases h
          exact ⟨nofun, nofun⟩
      | disconnectionComplete handle reason =>
        dsimp only at h
        rw [hidle, if_neg Bool.false_ne_true] at h
        cases h
        exact ⟨nofun, nofun⟩
      | transparentData handle data =>
        dsimp only at h
        rw [hidle, if_neg Bool.false_ne_true] at h
        cases h
        exact ⟨nofun, nofun⟩
      | _ =>
        cases h
        exact ⟨nofun, nofun⟩

/-- The event behind a change that a byte brings. -/
theorem heard_of_change {r : Radio} {byte : UInt8} {change : PeerChange}
    (h : r.peerChange? (.byte byte) = some change) :
    ∃ response, r.heard? byte = some response ∧ response.peerChange? = some change :=
  Option.bind_eq_some_iff.mp h

theorem receive_of_came {r : Radio} {byte handle : UInt8}
    (h : r.peerChange? (.byte byte) = some (.came handle)) (wire : Wire) :
    r.receive wire byte = ⟨.ok (some (.connected handle)),
      { r with line := (r.line.feed byte).2, connection := some handle }, wire⟩ := by
  obtain ⟨response, hheard, hchange⟩ := heard_of_change h
  rw [receive_of_some hheard]
  cases response with
  | connectionComplete status handle' address =>
    unfold Response.peerChange? at hchange
    dsimp only at hchange
    split at hchange
    · rename_i hsuccess
      cases hchange
      simp only [react, if_pos hsuccess]
    · cases hchange
  | _ => cases hchange

theorem receive_of_went {r : Radio} {byte : UInt8}
    (h : r.peerChange? (.byte byte) = some .went) (wire : Wire) :
    r.receive wire byte = ⟨.ok (if r.isConnected then some .disconnected else none),
      { r with line := (r.line.feed byte).2, connection := none }, wire⟩ := by
  obtain ⟨response, hheard, hchange⟩ := heard_of_change h
  rw [receive_of_some hheard]
  cases response with
  | disconnectionComplete handle reason => rfl
  | connectionComplete status handle address =>
    unfold Response.peerChange? at hchange
    dsimp only at hchange
    split at hchange
    · cases hchange
    · cases hchange
  | _ => cases hchange

/-! ## A module reset -/

/-- What bring-up reports says nothing of the peer. -/
theorem peerChange?_of_bringup {r : Radio} {wire : Wire} {input : Input} {event : BringupEvent}
    (h : r.event? wire input = some (.bringup event)) : r.peerChange? input = none := by
  cases input with
  | byte byte =>
    cases hchange : r.peerChange? (.byte byte) with
    | none => rfl
    | some change =>
      rw [event?] at h
      cases change with
      | came handle =>
        rw [receive_of_came hchange] at h
        cases h
      | went =>
        rw [receive_of_went hchange] at h
        unfold Step.event? at h
        split at h
        · cases h
        · cases h
  | start => cases h
  | _ => rfl

/-- **A module reset keeps the peer.** When bring-up reports a reset, whatever inputs led to it and
whatever the wires did, the connection is the one from before, and later changes of the peer alone
replace it. So nobody counts as connected until the next peer comes if and only if nobody was
connected before the reset; and once bring-up is complete, data goes to whoever was. -/
theorem reset_keeps_peer (config : NodeConfig) (before : List (Wire × Input)) {wire : Wire}
    {input : Input} {attempts : Nat}
    (hreset : ((ofConfig config).after before).event? wire input =
      some (.bringup (.moduleReset attempts))) :
    let r := (ofConfig config).after before
    let r' := (r.handle wire input).1
    (∀ rest, (r'.after rest).connection =
      ((r'.peerChanges rest).getLast?.map PeerChange.peer).getD r.connection) ∧
    ((∀ rest, (∀ handle, .came handle ∉ r'.peerChanges rest) →
      (r'.after rest).isConnected = false) ↔ r.isConnected = false) ∧
    ∀ rest, r'.peerChanges rest = [] → (r'.after rest).isReady = true →
      (r'.after rest).peer? = r.connection := by
  intro r r'
  have hkept : r'.connection = r.connection := by
    rw [connection_handle, peerChange?_of_bringup hreset]
    rfl
  have hlast (rest : List (Wire × Input)) : (r'.after rest).connection =
      ((r'.peerChanges rest).getLast?.map PeerChange.peer).getD r.connection := by
    rw [connection_after, hkept]
  refine ⟨hlast, ⟨fun h => ?_, fun h rest hnobody => ?_⟩, fun rest hquiet hready => ?_⟩
  · have hnow := h [] fun _ => List.not_mem_nil
    rwa [isConnected, hlast [], peerChanges] at hnow
  · have hnone : r.connection = none := by simpa [isConnected] using h
    rw [isConnected, hlast rest, hnone]
    cases hchange : (r'.peerChanges rest).getLast? with
    | none => rfl
    | some change =>
      cases change with
      | came handle => exact absurd (List.mem_of_getLast? hchange) (hnobody handle)
      | went => rfl
  · rw [peer?, if_pos hready, hlast rest, hquiet]
    rfl

/-- The bytes of an event on the line, on a wire that delivers everything. -/
def reported (response : Response) : List (Wire × Input) :=
  match response.toFrame with
  | .ok frame => frame.toBytes.map fun byte => ({}, .byte byte)
  | .error _ => []

/-- Ticks that issue the command of a stage, and the events that answer it with a status. -/
def answered (status : UInt8) (stages : List Stage) : List (Wire × Input) :=
  stages.flatMap fun stage =>
    ({}, .tick) :: reported (.commandComplete stage.opcode status .empty)

/-- A configuration whose module settles at once. -/
def hasty : NodeConfig := { timing := { resetSettle := 0 } }

/-- The module reports a peer and refuses the first stage three times; the last byte is to come. -/
def refusing : List (Wire × Input) :=
  (({}, .start) :: reported (.connectionComplete Response.success 0x20 (.replicate 6 0)) ++
    answered 1 [.readIdentity, .readIdentity, .readIdentity]).dropLast

/-- With its last byte the third refusal resets the module, and then every stage succeeds. -/
theorem refusing_keeps_peer :
    let r := (ofConfig hasty).after refusing
    let r' := (r.handle {} (.byte 0x7B)).1
    let rest := answered Response.success Stage.all
    r.event? {} (.byte 0x7B) = some (.bringup (.moduleReset 3)) ∧ r'.peerChanges rest = [] ∧
      (r'.after rest).isReady = true ∧ (r'.after rest).peer? = r.connection := by
  intro r r' rest
  have hreset : r.event? {} (.byte 0x7B) = some (.bringup (.moduleReset 3)) := by decide +kernel
  have hquiet : r'.peerChanges rest = [] := by decide +kernel
  have hready : (r'.after rest).isReady = true := by decide +kernel
  exact ⟨hreset, hquiet, hready, (reset_keeps_peer hasty refusing hreset).2.2 rest hquiet hready⟩

/-- **A peer from before the reset counts as connected after it.** No connection is reported
meanwhile, and when bring-up is complete, data goes to that peer. -/
theorem peer_survives_reset :
    let r := (ofConfig hasty).after refusing
    let r' := (r.handle {} (.byte 0x7B)).1
    r.event? {} (.byte 0x7B) = some (.bringup (.moduleReset 3)) ∧ r'.isConnected = true ∧
      r'.peerChanges (answered Response.success Stage.all) = [] ∧
      (r'.after (answered Response.success Stage.all)).isReady = true ∧
      (r'.after (answered Response.success Stage.all)).peer? = some 0x20 := by
  decide +kernel

end Radio

end RoomControl
