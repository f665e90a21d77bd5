import RoomControl.Proofs.Radio.Peer

/-!
# The line of the radio module

The line carries frames as long as nobody sets another mode, and only then does it read one
(`feed_eq_event`). Bytes move it; of everything else that the radio does, only a start resets it
(`line_react`, `line_tick`). What a frame brings of a peer is handed on when the peer is connected
(`data_of_react`).
-/

set_option autoImplicit false

namespace RoomControl

namespace LineReader

/-- On a line that carries frames the reader of frames moves. -/
theorem feed_of_event {line : LineReader} (h : line.mode = .event) (byte : UInt8) :
    line.feed byte = ((line.frames.feed byte).1.map (Option.map Received.event),
      { line with frames := (line.frames.feed byte).2 }) := by
  rw [feed, h]

/-- Only such a line reads a frame. -/
theorem feed_eq_event {line next : LineReader} {byte : UInt8} {f : Frame}
    (h : line.feed byte = (.ok (some (.event f)), next)) :
    line.mode = .event ∧ line.frames.feed byte = (.ok (some f), .idle) ∧
      next = { line with frames := .idle } := by
  cases hmode : line.mode with
  | event =>
    rw [feed_of_event hmode] at h
    generalize hfed : line.frames.feed byte = fed at h
    obtain ⟨answer, frames⟩ := fed
    rcases answer with e | _ | g
    · cases h
    · cases h
    · cases h
      rw [hmode, FrameReader.feed_frame hfed]
      exact ⟨rfl, rfl, rfl⟩
  | testMode =>
    rw [feed, hmode] at h
    generalize line.packets.feed byte = fed at h
    obtain ⟨answer, packets⟩ := fed
    rcases answer with e | _ | packet
    · cases h
    · cases h
    · cases h

theorem mode_feed (line : LineReader) (byte : UInt8) : (line.feed byte).2.mode = line.mode := by
  unfold feed
  split
  · rfl
  · rfl

end LineReader

namespace Radio

/-! ## What leaves the line alone -/

/-- An event leaves the line as the bytes have left it. -/
theorem line_react (r : Radio) (wire : Wire) (response : Response) :
    (r.react wire response).radio.line = r.line := by
  cases response with
  | commandComplete command status data =>
    unfold react complete
    dsimp only
    split
    · exact (keeps_completeRequest ..).line
    · split
      · rfl
      · rfl
  | connectionComplete status handle address =>
    unfold react
    dsimp only
    split
    · rfl
    · rfl
  | _ => rfl

theorem line_receive (r : Radio) (wire : Wire) (byte : UInt8) :
    (r.receive wire byte).radio.line = (r.line.feed byte).2 := by
  cases hheard : r.heard? byte with
  | none => rw [(receive_of_none hheard wire).1]
  | some response => rw [receive_of_some hheard wire, line_react]

theorem line_tick (r : Radio) (wire : Wire) : (r.tick wire).radio.line = r.line := by
  cases hactive : r.bringup.isActive with
  | true =>
    rw [tick, if_pos hactive]
    rfl
  | false => exact (keeps_tick hactive wire).line

/-! ## Data -/

/-- **Data are what a connected peer sends.** -/
theorem data_of_react {r : Radio} {wire : Wire} {response : Response} {bytes : Buffer 128}
    (h : (r.react wire response).result = .ok (some (.data bytes))) :
    ∃ handle, response = .transparentData handle bytes ∧ r.isConnected = true := by
  cases response with
  | commandComplete command status data => exact absurd rfl ((plain_complete h).1 bytes)
  | connectionComplete status handle address =>
    simp only [react] at h
    split at h
    · cases h
    · cases h
  | disconnectionComplete handle reason =>
    simp only [react] at h
    split at h
    · cases h
    · cases h
  | transparentData handle data =>
    simp only [react] at h
    split at h
    · rename_i hconnected
      cases h
      exact ⟨handle, rfl, hconnected⟩
    · cases h
  | _ => cases h

/-- A byte that brings data completes a frame with them, and moves the line alone. -/
theorem receive_of_data {r : Radio} {wire : Wire} {byte : UInt8} {bytes : Buffer 128}
    (h : (r.receive wire byte).result = .ok (some (.data bytes))) :
    r.line.mode = .event ∧ r.isConnected = true ∧
      (∃ f handle, r.line.frames.feed byte = (.ok (some f), .idle) ∧
        Response.ofFrame f = .ok (.transparentData handle bytes)) ∧
      r.receive wire byte = ⟨.ok (some (.data bytes)),
        { r with line := { r.line with frames := .idle } }, wire⟩ := by
  generalize hfed : r.line.feed byte = fed
  obtain ⟨received, line⟩ := fed
  simp only [receive, hfed] at h ⊢
  rcases received with e | _ | f | packet
  · cases h
  · cases h
  · obtain ⟨hmode, hframe, rfl⟩ := LineReader.feed_eq_event hfed
    dsimp only at h ⊢
    cases hresponse : Response.ofFrame f with
    | error e =>
      rw [hresponse] at h
      cases h
    | ok response =>
      rw [hresponse] at h
      obtain ⟨handle, rfl, hconnected⟩ := data_of_react h
      refine ⟨hmode, hconnected, ⟨f, handle, hframe, hresponse⟩, ?_⟩
      simp only [react, hconnected, if_true]
  · cases h

end Radio

end RoomControl
