import RoomControl.Proofs.Frame.Reading
import RoomControl.Proofs.Node.Lanes
import RoomControl.Proofs.Program.Machine

/-!
# What a channel sees of a history

Of a history a peer sees messages and the ends of their deliveries; the station hears messages of
the peers. The functions here list both, stimulus by stimulus.

While the peer of a channel stays, a stimulus that is not a tick brings a message or leaves the
channel alone (`took_react`). On a tick the channel has its turn, and the program is checked when it
is time (`tickProgram_cases`). -/

set_option autoImplicit false

namespace RoomControl

/-- The board does not change by itself. -/
def Stimulus.KeepsBoard {β : Type} : Stimulus β → Prop
  | .board _ => False
  | _ => True

instance {β : Type} : DecidablePred (Stimulus.KeepsBoard (β := β))
  | .board _ => .isFalse id
  | .start | .radio _ | .usb _ | .usbActive _ | .tick _ _ | .wires _ _ | .writes _ | .saved =>
    .isTrue trivial

def Stimulus.IsTick {β : Type} : Stimulus β → Prop
  | .tick _ _ => True
  | _ => False

namespace Station

variable {β : Type} [Peripherals β]

/-! ## What is sent and heard -/

/-- What a stimulus has sent on a channel, echoes and repetitions apart. -/
def sentBy (s : Station β) (c : Channel) : Stimulus β → List (Kind × Bytes)
  | .tick inputs extensions =>
    let (report, after) := s.tick inputs extensions
    sentOf (report.dispatched.get c) (after.node.transport.outstanding c)
  | _ => []

def sentDuring (s : Station β) (c : Channel) : List (Stimulus β) → List (Kind × Bytes)
  | [] => []
  | stimulus :: rest => s.sentBy c stimulus ++ (s.react stimulus).sentDuring c rest

/-- How a message on a channel ended with a stimulus. -/
def deliveriesBy (s : Station β) (c : Channel) : Stimulus β → List Delivery
  | .tick inputs extensions => ((s.tick inputs extensions).1.deliveries.get c).toList
  | _ => []

def deliveriesDuring (s : Station β) (c : Channel) : List (Stimulus β) → List Delivery
  | [] => []
  | stimulus :: rest => s.deliveriesBy c stimulus ++ (s.react stimulus).deliveriesDuring c rest

/-- The message that a stimulus completes, with the station that takes it and the channel. -/
def taking (s : Station β) : Stimulus β → Option (Station β × Channel × Bytes)
  | .radio byte =>
    let step := s.node.radio.receive s.radioWire byte
    match step.result with
    | .ok (some (.data bytes)) =>
      some ({ s with node := { s.node with radio := step.radio }, radioWire := step.wire },
        .bluetooth, bytes.bytes)
    | _ => none
  | .usb byte =>
    let (received, usb) := s.node.usb.feed byte
    match received with
    | .ok (some frame) =>
      if frame.opcode = Response.dataOpcode then
        some (s.withNode { s.node with usb, usbActive := true }, .usb, frame.payload.bytes)
      else none
    | _ => none
  | _ => none

/-- The message that a stimulus completes, of whatever channel. -/
def heardBy (s : Station β) (stimulus : Stimulus β) : List Bytes :=
  ((s.taking stimulus).map fun (_, _, bytes) => bytes).toList

def heardDuring (s : Station β) : List (Stimulus β) → List Bytes
  | [] => []
  | stimulus :: rest => s.heardBy stimulus ++ (s.react stimulus).heardDuring rest

/-- Every stimulus of a history comes in a state in which `allowed` holds of it. -/
def Throughout (allowed : Station β → Stimulus β → Prop) (s : Station β) :
    List (Stimulus β) → Prop
  | [] => True
  | stimulus :: rest => allowed s stimulus ∧ (s.react stimulus).Throughout allowed rest

instance decidableThroughout (allowed : Station β → Stimulus β → Prop)
    [∀ s stimulus, Decidable (allowed s stimulus)] (s : Station β) :
    ∀ history : List (Stimulus β), Decidable (s.Throughout allowed history)
  | [] => inferInstanceAs (Decidable True)
  | stimulus :: rest =>
    have := decidableThroughout allowed (s.react stimulus) rest
    inferInstanceAs (Decidable (_ ∧ _))

/-- What every allowed stimulus keeps, such a history keeps. -/
theorem Throughout.kept {allowed : Station β → Stimulus β → Prop} {P : Station β → Prop}
    {s : Station β} {history : List (Stimulus β)} (h : s.Throughout allowed history)
    (keeps : ∀ t stimulus, allowed t stimulus → P t → P (t.react stimulus)) (start : P s) :
    P (s.after history) := by
  induction history generalizing s with
  | nil => exact start
  | cons stimulus rest ih => exact ih h.2 (keeps s stimulus h.1 start)

/-- A history is allowed throughout when both its parts are. -/
theorem throughout_append {allowed : Station β → Stimulus β → Prop} {s : Station β}
    {first second : List (Stimulus β)} :
    s.Throughout allowed (first ++ second) ↔
      s.Throughout allowed first ∧ (s.after first).Throughout allowed second := by
  induction first generalizing s with
  | nil => exact ⟨fun h => ⟨trivial, h⟩, fun h => h.2⟩
  | cons stimulus rest ih =>
    refine ⟨fun h => ?_, fun h => ?_⟩
    · obtain ⟨hrest, hsecond⟩ := ih.mp h.2
      exact ⟨⟨h.1, hrest⟩, hsecond⟩
    · exact ⟨h.1.1, ih.mpr ⟨h.1.2, h.2⟩⟩

/-- The peer on a channel can be reached all the time. -/
def StaysConnected (s : Station β) (c : Channel) : List (Stimulus β) → Prop
  | [] => s.node.isConnected c = true
  | stimulus :: rest =>
    s.node.isConnected c = true ∧ (s.react stimulus).StaysConnected c rest

instance decidableStaysConnected (s : Station β) (c : Channel) :
    ∀ history : List (Stimulus β), Decidable (s.StaysConnected c history)
  | [] => inferInstanceAs (Decidable (_ = true))
  | stimulus :: rest =>
    have := decidableStaysConnected (s.react stimulus) c rest
    inferInstanceAs (Decidable (_ ∧ _))

theorem connected_of_staysConnected {s : Station β} {c : Channel} {history : List (Stimulus β)}
    (h : s.StaysConnected c history) : s.node.isConnected c = true := by
  cases history with
  | nil => exact h
  | cons stimulus rest => exact h.1

theorem after_append (s : Station β) (first second : List (Stimulus β)) :
    s.after (first ++ second) = (s.after first).after second := List.foldl_append

theorem deliveriesDuring_append (s : Station β) (c : Channel) (first second : List (Stimulus β)) :
    s.deliveriesDuring c (first ++ second) =
      s.deliveriesDuring c first ++ (s.after first).deliveriesDuring c second := by
  induction first generalizing s with
  | nil => rfl
  | cons stimulus rest ih =>
    rw [List.cons_append, deliveriesDuring, deliveriesDuring, ih, List.append_assoc]
    rfl

theorem heardDuring_append (s : Station β) (first second : List (Stimulus β)) :
    s.heardDuring (first ++ second) =
      s.heardDuring first ++ (s.after first).heardDuring second := by
  induction first generalizing s with
  | nil => rfl
  | cons stimulus rest ih =>
    rw [List.cons_append, heardDuring, heardDuring, ih, List.append_assoc]
    rfl

theorem staysConnected_append {s : Station β} {c : Channel} {first second : List (Stimulus β)}
    (hfirst : s.StaysConnected c first) (hsecond : (s.after first).StaysConnected c second) :
    s.StaysConnected c (first ++ second) := by
  induction first generalizing s with
  | nil => exact hsecond
  | cons stimulus rest ih => exact ⟨hfirst.1, ih hfirst.2 hsecond⟩

/-! ## Between the ticks -/

theorem sentBy_eq_nil (s : Station β) (c : Channel) {stimulus : Stimulus β}
    (htick : ¬ stimulus.IsTick) : s.sentBy c stimulus = [] := by
  cases stimulus with
  | tick inputs extensions => exact absurd trivial htick
  | _ => rfl

theorem deliveriesBy_eq_nil (s : Station β) (c : Channel) {stimulus : Stimulus β}
    (htick : ¬ stimulus.IsTick) : s.deliveriesBy c stimulus = [] := by
  cases stimulus with
  | tick inputs extensions => exact absurd trivial htick
  | _ => rfl

/-- What a stimulus other than a tick does, seen from a channel whose peer stays. -/
inductive Took (s : Station β) (c : Channel) (stimulus : Stimulus β) : Prop
  /-- It completes a message. -/
  | message (v : Station β) (d : Channel) (bytes : Bytes) :
      s.taking stimulus = some (v, d, bytes) →
      s.react stimulus = (v.receiveMessage d bytes).2 → v.board = s.board → v.memory = s.memory →
      v.lane c = s.lane c → Took s c stimulus
  /-- It concerns neither the channel nor the program. -/
  | quiet : s.taking stimulus = none →
      (stimulus.KeepsBoard → (s.react stimulus).board = s.board) →
      (s.react stimulus).memory.image = s.memory.image →
      (s.react stimulus).memory.refusesRead = s.memory.refusesRead →
      (s.react stimulus).lane c = s.lane c → Took s c stimulus

/-- Work on the node and the wire of the radio that leaves the channel alone. -/
theorem took_of_quiet {s : Station β} {c : Channel} {stimulus : Stimulus β} (node : Node)
    (radioWire : Wire) (htaking : s.taking stimulus = none)
    (hreact : s.react stimulus = { s with node, radioWire })
    (hqueue : node.queues.get c = s.node.queues.get c)
    (hslot : node.transport.outstanding c = s.node.transport.outstanding c)
    (hsettings : node.transport.settings = s.node.transport.settings)
    (hbefore : s.node.isConnected c = true)
    (hafter : (s.react stimulus).node.isConnected c = true) : Took s c stimulus := by
  rw [hreact] at hafter
  refine .quiet htaking (fun _ => ?_) ?_ ?_ ?_
  all_goals rw [hreact]
  have hconnected : node.isConnected c = s.node.isConnected c := Eq.trans hafter hbefore.symm
  simp only [lane, hqueue, hslot, hsettings, hconnected]

theorem took_radio {s : Station β} {c : Channel} (byte : UInt8)
    (hbefore : s.node.isConnected c = true)
    (hafter : (s.react (.radio byte)).node.isConnected c = true) : Took s c (.radio byte) := by
  have hheard := s.node.radio.heard_receive s.radioWire byte
  generalize hstep : s.node.radio.receive s.radioWire byte = step at hheard
  cases hheard with
  | @data bytes line =>
    refine .message { s with node := { s.node with radio := { s.node.radio with line } } }
      .bluetooth bytes.bytes ?_ ?_ rfl rfl ?_
    · simp only [taking, hstep]
    · simp only [react, receiveRadio, hstep, takeRadioEvent]
    · cases c <;> rfl
  | other hnodata hgone =>
    obtain ⟨result, radio, wire⟩ := step
    have htaking : s.taking (.radio byte) = none := by
      simp only [taking, hstep]
    have hreact : s.react (.radio byte) = (s.receiveRadio byte).2 := rfl
    unfold receiveRadio at hreact
    simp only [hstep] at hreact
    match result with
    | .ok none =>
      exact took_of_quiet { s.node with radio } wire htaking hreact rfl rfl rfl hbefore hafter
    | .ok (some event) =>
      cases event with
      | data bytes => exact absurd rfl (hnodata bytes)
      | disconnected =>
        -- what the peer leaves behind is dropped, but the peer of this channel is there
        cases c with
        | usb =>
          exact took_of_quiet (Node.dropPeer { s.node with radio } .bluetooth) wire htaking hreact
            rfl rfl rfl hbefore hafter
        | bluetooth =>
          have hnone : radio.connection = none := hgone rfl
          rw [hreact] at hafter
          simp [takeRadioEvent, withNode, Node.dropPeer, Node.isConnected, Radio.peer?, hnone]
            at hafter
      | _ =>
        exact took_of_quiet { s.node with radio } wire htaking hreact rfl rfl rfl hbefore hafter
    | .error e =>
      cases e with
      | frame e =>
        let stats := { s.node.stats with framerErrors := countUp s.node.stats.framerErrors }
        exact took_of_quiet { s.node with radio, stats } wire htaking hreact rfl rfl rfl hbefore
          hafter
      | _ =>
        exact took_of_quiet { s.node with radio } wire htaking hreact rfl rfl rfl hbefore hafter

theorem took_usb {s : Station β} {c : Channel} (byte : UInt8)
    (hbefore : s.node.isConnected c = true)
    (hafter : (s.react (.usb byte)).node.isConnected c = true) : Took s c (.usb byte) := by
  generalize hfed : s.node.usb.feed byte = fed
  obtain ⟨received, usb⟩ := fed
  have hreact : s.react (.usb byte) = (s.receiveUsb byte).2 := rfl
  unfold receiveUsb at hreact
  simp only [hfed] at hreact
  match received with
  | .ok none =>
    exact took_of_quiet { s.node with usb } s.radioWire (by simp only [taking, hfed]) hreact rfl rfl
      rfl hbefore hafter
  | .error e =>
    let stats := { s.node.stats with framerErrors := countUp s.node.stats.framerErrors }
    exact took_of_quiet { s.node with usb, stats } s.radioWire (by simp only [taking, hfed]) hreact
      rfl rfl rfl hbefore hafter
  | .ok (some frame) =>
    dsimp only at hreact
    by_cases hopcode : frame.opcode = Response.dataOpcode
    · rw [if_pos hopcode] at hreact
      refine .message (s.withNode { s.node with usb, usbActive := true }) .usb
        frame.payload.bytes ?_ hreact rfl rfl ?_
      · simp only [taking, hfed, if_pos hopcode]
      · cases c with
        | usb => exact congrArg (Lane.mk _ _ _) hbefore.symm
        | bluetooth => rfl
    · rw [if_neg hopcode] at hreact
      exact took_of_quiet { s.node with usb } s.radioWire
        (by simp only [taking, hfed, if_neg hopcode]) hreact rfl rfl rfl hbefore hafter

theorem took_usbActive {s : Station β} {c : Channel} (active : Bool)
    (hbefore : s.node.isConnected c = true)
    (hafter : (s.react (.usbActive active)).node.isConnected c = true) :
    Took s c (.usbActive active) := by
  cases active with
  | true =>
    exact took_of_quiet (s.node.setUsbActive true) s.radioWire rfl rfl rfl rfl rfl hbefore hafter
  | false =>
    cases c with
    | usb => cases hafter
    | bluetooth =>
      exact took_of_quiet (s.node.setUsbActive false) s.radioWire rfl rfl rfl rfl rfl hbefore hafter

/-- **Whatever is not a tick brings a message or leaves the channel alone.** -/
theorem took_react {s : Station β} {c : Channel} {stimulus : Stimulus β}
    (htick : ¬ stimulus.IsTick)
    (hbefore : s.node.isConnected c = true)
    (hafter : (s.react stimulus).node.isConnected c = true) : Took s c stimulus := by
  cases stimulus with
  | start =>
    exact took_of_quiet s.start.2.node s.radioWire rfl rfl rfl rfl rfl hbefore hafter
  | radio byte => exact took_radio byte hbefore hafter
  | usb byte => exact took_usb byte hbefore hafter
  | usbActive active => exact took_usbActive active hbefore hafter
  | tick inputs extensions => exact absurd trivial htick
  | board board => exact .quiet rfl False.elim rfl rfl rfl
  | wires radioWire usbWire => exact .quiet rfl (fun _ => rfl) rfl rfl rfl
  | writes left => exact .quiet rfl (fun _ => rfl) rfl rfl rfl
  | saved => exact .quiet rfl (fun _ => rfl) rfl rfl rfl

/-! ## Messages on the USB wire -/

/-- The bytes of a message on the USB wire. -/
def usbMessage (kind : Kind) (body : Bytes) : List (Stimulus β) :=
  (Frame.mk Response.dataOpcode (.ofPrefix (Message.packet kind body))).toBytes.map .usb

/-- The bytes of a frame up to its checksum bring no message. -/
theorem after_feeds {s : Station β} {reader : FrameReader} {bytes : Bytes}
    (h : s.node.usb.Feeds bytes reader) :
    s.after (bytes.map .usb) = s.withNode { s.node with usb := reader } ∧
      s.heardDuring (bytes.map .usb) = [] ∧
      (s.node.usbActive = true → s.StaysConnected .usb (bytes.map .usb)) := by
  generalize hreader : s.node.usb = first at h
  induction h generalizing s with
  | nil reader =>
    subst hreader
    exact ⟨rfl, rfl, id⟩
  | @cons reader next last byte rest hfeed _ ih =>
    subst hreader
    have hreact : s.react (.usb byte) = s.withNode { s.node with usb := next } := by
      simp only [react, receiveUsb, hfeed]
    have hquiet : s.heardBy (.usb byte) = [] := by
      simp only [heardBy, taking, hfeed, Option.map_none, Option.toList_none]
    obtain ⟨hafter, hheard, hstays⟩ := ih (s := s.withNode { s.node with usb := next }) rfl
    refine ⟨?_, ?_, fun hactive => ⟨hactive, ?_⟩⟩
    · rw [List.map_cons, after, List.foldl_cons, hreact]
      exact hafter
    · rw [List.map_cons, heardDuring, hreact, hquiet]
      exact hheard
    · rw [hreact]
      exact hstays hactive

/-- **A message on the USB wire is taken** by a station that is between frames. -/
theorem after_usbMessage {s : Station β} (hidle : s.node.usb = .idle) (kind : Kind) (body : Bytes)
    (hbody : body.length ≤ Message.maxBody) :
    let v := s.withNode { s.node with usb := .idle, usbActive := true }
    s.after (usbMessage kind body) = (v.receiveMessage .usb (Message.packet kind body)).2 ∧
      s.heardDuring (usbMessage kind body) = [Message.packet kind body] ∧
      (s.node.usbActive = true →
        (v.receiveMessage .usb (Message.packet kind body)).2.node.usbActive = true →
        s.StaysConnected .usb (usbMessage kind body)) := by
  intro v
  generalize hframe : Frame.mk Response.dataOpcode (.ofPrefix (Message.packet kind body)) = f
  have hpayload : f.payload.bytes = Message.packet kind body := by
    subst hframe
    refine List.take_of_length_le ?_
    unfold Message.maxBody at hbody
    simp only [Message.packet, List.length_cons]
    omega
  have hfeeds := FrameReader.feeds_frame f
  rw [← hidle] at hfeeds
  obtain ⟨hafter, hheard, hstays⟩ := after_feeds hfeeds
  -- the checksum is the byte that completes the message
  generalize hu : s.withNode
    { s.node with usb := .checksum f.lengthField f.opcode f.payload } = u at hafter
  have hfeed : u.node.usb.feed f.checksum = (.ok (some f), .idle) := by
    subst hu
    exact FrameReader.feed_checksum f
  have hopcode : f.opcode = Response.dataOpcode := by
    subst hframe
    rfl
  have hreact : u.react (.usb f.checksum) =
      (v.receiveMessage .usb (Message.packet kind body)).2 := by
    rw [← hpayload]
    simp only [react, receiveUsb, hfeed, if_pos hopcode]
    subst hu
    rfl
  have htaken : u.heardBy (.usb f.checksum) = [Message.packet kind body] := by
    simp only [heardBy, taking, hfeed, if_pos hopcode, hpayload, Option.map_some,
      Option.toList_some]
  have hmessage : (usbMessage kind body : List (Stimulus β)) =
      (Frame.sync :: (wordBytes f.lengthField ++ f.opcode :: f.payload.bytes)).map .usb ++
        [.usb f.checksum] := by
    rw [usbMessage, hframe, Frame.toBytes, List.map_append, List.map_singleton]
  rw [hmessage]
  refine ⟨?_, ?_, fun hactive hlast => staysConnected_append (hstays hactive) ?_⟩
  · rw [after_append, hafter]
    exact hreact
  · rw [heardDuring_append, hheard, hafter, List.nil_append, heardDuring, htaken]
    rfl
  · rw [hafter]
    refine ⟨?_, ?_⟩
    · subst hu
      exact hactive
    · rw [StaysConnected, hreact]
      exact hlast

theorem deliveriesDuring_usbMessage (s : Station β) (c : Channel) (kind : Kind) (body : Bytes) :
    s.deliveriesDuring c (usbMessage kind body) = [] := by
  unfold usbMessage
  generalize Frame.toBytes _ = bytes
  induction bytes generalizing s with
  | nil => rfl
  | cons byte rest ih => exact ih (s.react (.usb byte))

/-! ## On a tick -/

/-- A tick on which the program sees no input. -/
def plainTick : Stimulus β := .tick #v[0, 0, 0] .none

/-- The station between a check of the program and the actions that the check calls for. -/
def checked (s : Station β) (inputs : Vector UInt8 3) : Station β :=
  let checked := s.node.machine.check s.memory (s.ports inputs)
  let loops :=
    match checked.outcome with
    | .error (.loopDetected _ _) => countUp s.node.stats.loops
    | _ => s.node.stats.loops
  let stats := { s.node.stats with loops }
  { s with
    node := { s.node with machine := checked.machine, evalElapsed := 0, stats }
    memory := checked.memory }

/-- The program on a tick: the actions of a check that is due, and nothing else that concerns the
board, the channels or the peers. -/
theorem tickProgram_cases (s : Station β) (inputs : Vector UInt8 3) :
    (s.node.machine.IsRunning ∧ s.node.evalInterval ≤ countUp s.node.evalElapsed ∧
      (s.tickProgram inputs).2.2 = ((s.checked inputs).executeAll s.node.isConnected
        (s.node.machine.check s.memory (s.ports inputs)).calls).2) ∨
    (¬ (s.node.machine.IsRunning ∧ s.node.evalInterval ≤ countUp s.node.evalElapsed) ∧
      ∃ evalElapsed, (s.tickProgram inputs).2.2 = s.withNode { s.node with evalElapsed }) := by
  unfold tickProgram
  split
  · rename_i hrunning
    dsimp only
    split
    · rename_i hearly
      exact .inr ⟨fun h => absurd hearly (Nat.not_lt.mpr h.2), _, rfl⟩
    · rename_i hdue
      exact .inl ⟨hrunning, Nat.not_lt.mp hdue, rfl⟩
  · rename_i hstop
    exact .inr ⟨fun h => hstop h.1, _, rfl⟩

/-- **A tick seen from a channel whose peer stays**: the channel has its turn, and then the program
is checked at most, which may have the board reported. -/
theorem turned_react (s : Station β) (inputs : Vector UInt8 3) (extensions : PacketSource)
    (c : Channel) (hconnected : s.node.isConnected c = true) :
    ∃ (u : Station β) (counters : Bytes) (l : Lane), u.memory = s.memory ∧
      Turned (s.lane c) c ((u.packet counters).orElse extensions)
        ((s.tick inputs extensions).1.deliveries.get c)
        ((s.tick inputs extensions).1.dispatched.get c) l ∧
      l.queue.GrowsBy (fun item => item.kind ≠ .chunk)
        ((s.tick inputs extensions).2.node.queues.get c) ∧
      (s.tick inputs extensions).2.node.transport.outstanding c = l.outstanding ∧
      ProgramMemory.AgreesFrom 1 s.memory (s.tick inputs extensions).2.memory := by
  obtain ⟨u, counters, -, humemory, hturned⟩ := s.turned_tick inputs extensions c hconnected
  have hmemory : (s.beforeProgram extensions).memory = s.memory :=
    congrArg Programming.memory (programming_beforeProgram s extensions)
  refine ⟨u, counters, _, humemory, hturned, ?_⟩
  rw [(tick_eq s inputs extensions).2, ← hmemory]
  generalize s.beforeProgram extensions = w
  rcases w.tickProgram_cases inputs with ⟨-, -, hprogram⟩ | ⟨-, evalElapsed, hprogram⟩
  · have hdriven := ((w.checked inputs).driven_executeAll w.node.isConnected
      (w.node.machine.check w.memory (w.ports inputs)).calls).1
    have hkept : ((w.checked inputs).executeAll w.node.isConnected
        (w.node.machine.check w.memory (w.ports inputs)).calls).2.memory =
          (w.checked inputs).memory :=
      congrArg Programming.memory (programming_executeAll ..)
    rw [hprogram, hkept, hdriven.transport]
    exact ⟨hdriven.queues c, rfl, Machine.agreesFrom_check ..⟩
  · rw [hprogram]
    exact ⟨.refl _, rfl, .refl 1 _⟩

theorem deliveriesBy_tick (s : Station β) (inputs : Vector UInt8 3) (extensions : PacketSource)
    {c : Channel} (hconnected : s.node.isConnected c = true) :
    s.deliveriesBy c (.tick inputs extensions) = (s.lane c).turn.delivery.toList := by
  obtain ⟨u, counters, -, -, hturned⟩ := s.turned_tick inputs extensions c hconnected
  exact congrArg Option.toList hturned.delivery_eq

/-- A tick does not concern the USB reader. -/
theorem usb_tick (s : Station β) (inputs : Vector UInt8 3) (extensions : PacketSource) :
    (s.tick inputs extensions).2.node.usb = s.node.usb ∧
      (s.tick inputs extensions).2.node.usbActive = s.node.usbActive := by
  obtain ⟨-, husb, hactive⟩ := s.frame_beforeProgram extensions
  rw [(tick_eq s inputs extensions).2, ← husb, ← hactive]
  generalize s.beforeProgram extensions = w
  rcases w.tickProgram_cases inputs with ⟨-, -, hprogram⟩ | ⟨-, evalElapsed, hprogram⟩
  · have hdriven := ((w.checked inputs).driven_executeAll w.node.isConnected
      (w.node.machine.check w.memory (w.ports inputs)).calls).1
    rw [hprogram]
    exact ⟨hdriven.usb, hdriven.usbActive⟩
  · rw [hprogram]
    exact ⟨rfl, rfl⟩

end Station

end RoomControl
