import RoomControl.Peripherals.Board
import RoomControl.Proofs.Node.History
import RoomControl.Proofs.Program.Pieces

/-!
# A download returns the stored program

A peer that asks for the program gets it in chunks, one for each confirmed chunk before it. The item
that stands for the program stays at the head of the queue until its last chunk is sent, and the
cursor of the queue counts the chunks. The cursor stops at 255. So a program of at most 256 chunks
is sent once and as a whole (`download_returns_program`), but of a longer one the chunk at 255 is
sent again and again, and the download does not end (`download_never_ends`).

`Download` is the invariant: how many chunks are sent, as a matter of how many messages were
confirmed. A turn of the channel keeps it (`Download.turned`) and so does everything else that may
happen while the peer only echoes. -/

set_option autoImplicit false

namespace RoomControl

open ProgramMemory (AgreesFrom chunkData erasedByte)

/-- An echo, or no message at all. -/
def Message.IsQuiet (bytes : Bytes) : Prop :=
  ∀ m, Message.decode bytes = .ok m → m.kind = .echo

/-- The chunk messages among what was sent, as their receiver reads them. -/
def pulled (log : List (Kind × Bytes)) : List (Option (Nat × Bytes)) :=
  (log.filter fun sent => sent.1 = .chunk).map fun sent => Message.chunk? sent.2

theorem pulled_append (log log' : List (Kind × Bytes)) :
    pulled (log ++ log') = pulled log ++ pulled log' := by
  simp [pulled]

theorem pulled_sentOf_of_ne {dispatched : Dispatched} (h : dispatched ≠ .sent .chunk)
    (slot : Option Outstanding) : pulled (sentOf dispatched slot) = [] := by
  cases dispatched with
  | sent kind =>
    have hkind : kind ≠ .chunk := fun heq => h (by rw [heq])
    cases slot <;> simp [sentOf, pulled, hkind]
  | _ => rfl

/-- What a download sends when so many chunks have been sent. -/
def ProgramMemory.served (m : ProgramMemory) (sent : Nat) : Option (Nat × Bytes) :=
  some (min sent Queue.maxCursor * chunkData, m.piece (min sent Queue.maxCursor))

/-! ## Packets -/

namespace Station

variable {β : Type} [Peripherals β]

/-- The packet of a chunk that the program has. -/
theorem packet_chunk (s : Station β) (answers : ∀ addr n, s.memory.refusesRead addr n = false)
    (counters : Bytes) (extensions : PacketSource) {cursor : Nat}
    (h : cursor < s.memory.chunkCount) :
    ∃ bytes, ((s.packet counters).orElse extensions) ⟨.chunk, none⟩ cursor =
        .packet bytes (cursor + 1 ≥ s.memory.chunkCount) ∧ bytes.length ≤ Message.maxSize ∧
      Message.chunk? bytes = some (cursor * chunkData, s.memory.piece cursor) := by
  have hread := ProgramMemory.readChunk_of_lt answers h
  have hchunk := ProgramMemory.chunk?_piece h
  have hpiece : (s.memory.piece cursor).length ≤ 24 := by
    rw [ProgramMemory.length_piece]
    exact Nat.min_le_right ..
  generalize hbody : wordBytes (UInt16.ofNat (cursor * chunkData)) ++
    UInt8.ofNat (s.memory.piece cursor).length :: s.memory.piece cursor = body at hread hchunk
  have hlength : body.length ≤ Message.maxBody := by
    subst hbody
    simp only [wordBytes, List.length_append, List.length_cons, List.length_nil, Message.maxBody]
    omega
  have hpacket : s.packet counters ⟨.chunk, none⟩ cursor =
      .packet (Message.packet .chunk body) (cursor + 1 ≥ s.memory.chunkCount) := by
    simp only [packet, Option.map_none, Option.getD_none, hread]
    exact ofBody_of_le hlength _
  refine ⟨_, ?_, ?_, hchunk⟩
  · simp only [PacketSource.orElse, hpacket]
  · unfold Message.maxBody at hlength
    simp only [Message.packet, List.length_cons, Message.maxSize]
    omega

end Station

/-- A message that waits is confirmed, given up or goes on waiting, while the peer is there. -/
theorem Lane.turn_cases (l : Lane) (hconnected : l.connected = true)
    (hwaits : l.outstanding.isSome) :
    (l.turn.delivery = some .confirmed ∧ l.turn.slot = none) ∨ l.turn.delivery = some .gaveUp ∨
      (l.turn.delivery = none ∧ l.turn.slot.isSome) := by
  obtain ⟨o, ho⟩ := Option.isSome_iff_exists.mp hwaits
  simp only [turn, ho, Outstanding.turn, hconnected]
  repeat' split
  · contradiction
  · exact .inl ⟨rfl, rfl⟩
  · exact .inr (.inr ⟨rfl, rfl⟩)
  · exact .inr (.inl rfl)
  · exact .inr (.inr ⟨rfl, rfl⟩)

/-! ## The invariant -/

/-- A download of the program in `m`, seen from a channel: so many messages were confirmed, and so
many chunks sent. By now the memory is `m'`. -/
inductive Download (m m' : ProgramMemory) (l : Lane) : (confirmed sent : Nat) → Prop
  /-- The item is queued, and no chunk is sent. -/
  | queued {rest : List Item} : AgreesFrom 0 m m' → l.queue.items = ⟨.chunk, none⟩ :: rest →
      (∀ item ∈ rest, item.kind ≠ .chunk) → l.queue.cursor = 0 → l.outstanding = none →
      Download m m' l 0 0
  /-- A chunk awaits its echo, and more are to come. -/
  | going {rest : List Item} {confirmed : Nat} : AgreesFrom 1 m m' →
      l.queue.items = ⟨.chunk, none⟩ :: rest → (∀ item ∈ rest, item.kind ≠ .chunk) →
      l.queue.cursor = min (confirmed + 1) Queue.maxCursor → l.outstanding.isSome →
      (confirmed + 1 < m.chunkCount ∨ Queue.maxCursor + 1 < m.chunkCount) →
      Download m m' l confirmed (confirmed + 1)
  /-- The last chunk is sent. -/
  | ended {confirmed : Nat} : (∀ item ∈ l.queue.items, item.kind ≠ .chunk) →
      m.chunkCount ≤ Queue.maxCursor + 1 → m.chunkCount ≤ confirmed + 1 →
      Download m m' l confirmed m.chunkCount

namespace Download

variable {m m' m'' : ProgramMemory} {l l' : Lane} {confirmed sent : Nat}

/-- Reports that are queued behind, and echoes that are noted, make no difference. -/
theorem frame (h : Download m m' l confirmed sent)
    (hmemory : AgreesFrom 0 m' m'' ∨ (0 < sent ∧ AgreesFrom 1 m' m''))
    (hqueue : l.queue.GrowsBy (fun item => item.kind ≠ .chunk) l'.queue)
    (hslot : l'.outstanding.isSome = l.outstanding.isSome) :
    Download m m'' l' confirmed sent := by
  obtain ⟨hcursor, more, hmore, hkinds⟩ := hqueue
  have hrest : ∀ {rest : List Item}, (∀ item ∈ rest, item.kind ≠ .chunk) →
      ∀ item ∈ rest ++ more, item.kind ≠ .chunk := fun hall item hmem =>
    (List.mem_append.mp hmem).elim (hall item) (hkinds item)
  cases h with
  | queued hagrees hitems hall hzero hnone =>
    have hagrees' : AgreesFrom 0 m' m'' :=
      hmemory.elim id fun h => absurd h.1 (Nat.lt_irrefl 0)
    refine .queued (hagrees.trans hagrees') ?_ (hrest hall) (hcursor.trans hzero) ?_
    · rw [hmore, hitems]
      rfl
    · rw [hnone] at hslot
      exact Option.isNone_iff_eq_none.mp (by simpa using hslot)
  | going hagrees hitems hall hcount hwaits hmany =>
    have hagrees' : AgreesFrom 1 m' m'' :=
      hmemory.elim (fun h => h.mono (Nat.zero_le 1)) And.right
    refine .going (hagrees.trans hagrees') ?_ (hrest hall) (hcursor.trans hcount)
      (hslot.trans hwaits) hmany
    rw [hmore, hitems]
    rfl
  | ended hall hshort hdone =>
    refine .ended ?_ hshort hdone
    rw [hmore]
    exact hrest hall

/-- **The next chunk is sent** when a channel is free. -/
theorem send {β : Type} [Peripherals β] {s : Station β} {counters : Bytes}
    {extensions : PacketSource} {c : Channel} {q : Queue} {rest : List Item} {t : Transport}
    {step : DispatchStep} {low : Nat} (settings : RetrySettings)
    (answers : ∀ addr n, m.refusesRead addr n = false) (hagrees : AgreesFrom low m s.memory)
    (hlow : low ≤ 1) (hsent : low ≤ sent) (hitems : q.items = ⟨.chunk, none⟩ :: rest)
    (hall : ∀ item ∈ rest, item.kind ≠ .chunk) (hcursor : q.cursor = min sent Queue.maxCursor)
    (hmany : sent < m.chunkCount ∨ Queue.maxCursor + 1 < m.chunkCount)
    (hfree : t.outstanding c = none)
    (hstep : DispatchCase ((s.packet counters).orElse extensions) c q t step) :
    Download m s.memory ⟨step.queue, step.transport.outstanding c, settings, true⟩ sent (sent + 1) ∧
      pulled (sentOf step.dispatched (step.transport.outstanding c)) = [m.served sent] := by
  have hmax : Queue.maxCursor = 255 := rfl
  have hcount := (hagrees.mono hlow).chunkCount_eq
  have hlt : q.cursor < s.memory.chunkCount := by omega
  have hanswers : ∀ addr n, s.memory.refusesRead addr n = false := by
    rw [hagrees.refusesRead_eq]
    exact answers
  obtain ⟨bytes, hpacket, hlength, hchunk⟩ := s.packet_chunk hanswers counters extensions hlt
  have hpos : 1 ≤ bytes.length := by
    refine List.length_pos_iff.mpr ?_
    rintro rfl
    cases hchunk
  obtain ⟨held, hheld, hdispatched, hqueue, htransport, -⟩ :=
    hstep.sends_packet hfree hitems hpacket hpos hlength
  rw [htransport, Transport.outstanding_withSlot_self, hdispatched, hqueue]
  refine ⟨?_, ?_⟩
  · by_cases hlast : q.cursor + 1 ≥ s.memory.chunkCount
    · have hdone : m.chunkCount = sent + 1 := by omega
      have hpop : q.afterPacket ⟨.chunk, none⟩ (q.cursor + 1 ≥ s.memory.chunkCount) = q.pop := by
        simp [Queue.afterPacket, hlast]
      rw [hpop, ← hdone]
      refine .ended ?_ (by omega) (Nat.le_of_eq hdone)
      simp only [Queue.pop, hitems, List.tail_cons]
      exact hall
    · have hadvance : q.afterPacket ⟨.chunk, none⟩ (q.cursor + 1 ≥ s.memory.chunkCount) =
          q.advance := by
        simp [Queue.afterPacket, hlast]
      rw [hadvance]
      refine .going (hagrees.mono hlow) hitems hall ?_ rfl (by omega)
      show min (q.cursor + 1) Queue.maxCursor = _
      omega
  · have hpiece : s.memory.piece q.cursor = m.piece q.cursor :=
      hagrees.piece_eq hlow (by omega)
    rw [ProgramMemory.served, ← hcursor, ← hpiece, ← hchunk, ← hheld]
    rfl

/-- **A turn of the channel keeps the invariant**: what waits is confirmed or goes on waiting, and
what is confirmed makes room for the next chunk. -/
theorem turned {β : Type} [Peripherals β] {s : Station β} {counters : Bytes}
    {extensions : PacketSource} {c : Channel} {delivery : Option Delivery} {dispatched : Dispatched}
    (answers : ∀ addr n, m.refusesRead addr n = false) (hprogram : 0 < m.chunkCount)
    (h : Download m s.memory l confirmed sent) (hconnected : l.connected = true)
    (hturned : Station.Turned l c ((s.packet counters).orElse extensions) delivery dispatched l')
    (hconfirmed : ∀ d ∈ delivery.toList, d = .confirmed) :
    ∃ sent', 0 < sent' ∧ sent ≤ sent' ∧
      Download m s.memory l' (confirmed + delivery.toList.length) sent' ∧
      (List.range sent).map m.served ++ pulled (sentOf dispatched l'.outstanding) =
        (List.range sent').map m.served := by
  obtain ⟨rfl, t, step, hslot, -, hstep, rfl, rfl⟩ := hturned
  have hlog : ∀ n : Nat, (List.range n).map m.served ++ [m.served n] =
      (List.range (n + 1)).map m.served := fun n => by
    rw [List.range_succ, List.map_append, List.map_singleton]
  cases h with
  | queued hagrees hitems hall hcursor hnone =>
    have hturn : l.turn = {} := by simp only [Lane.turn, hnone]
    rw [hturn] at hslot ⊢
    obtain ⟨hnext, hsent⟩ := send l.settings answers hagrees (Nat.zero_le 1)
      (Nat.le_refl 0) hitems hall hcursor (.inl hprogram) hslot hstep
    exact ⟨1, Nat.one_pos, Nat.zero_le 1, hnext, by rw [hsent, hlog]⟩
  | going hagrees hitems hall hcursor hwaits hmany =>
    rcases l.turn_cases hconnected hwaits with ⟨hdelivery, hfree⟩ | hgaveUp | ⟨hdelivery, hbusy⟩
    · rw [hfree] at hslot
      rw [hdelivery]
      obtain ⟨hnext, hsent⟩ := send l.settings answers hagrees (Nat.le_refl 1)
        (Nat.succ_pos _) hitems hall hcursor hmany hslot hstep
      exact ⟨confirmed + 2, Nat.succ_pos _, Nat.le_succ _, hnext, by rw [hsent, hlog]⟩
    · rw [hgaveUp] at hconfirmed
      cases hconfirmed .gaveUp List.mem_cons_self
    · have hidle := hstep.eq_of_busy (by rw [hslot]; exact hbusy)
      subst hidle
      rw [hdelivery]
      refine ⟨confirmed + 1, Nat.succ_pos _, Nat.le_refl _, ?_, List.append_nil _⟩
      exact .going hagrees hitems hall hcursor (by rw [hslot]; exact hbusy) hmany
  | ended hall hshort hdone =>
    have hnone : step.dispatched ≠ .sent .chunk := fun hsent => by
      obtain ⟨item, hmem, hkind⟩ := hstep.exists_of_sent hsent
      exact hall item hmem hkind
    refine ⟨m.chunkCount, hprogram, Nat.le_refl _, .ended ?_ hshort (by omega), ?_⟩
    · exact fun item hmem => hall item (hstep.mem_items hmem)
    · rw [pulled_sentOf_of_ne hnone, List.append_nil]

end Download

namespace Station

variable {β : Type} [Peripherals β] {m : ProgramMemory} {confirmed sent : Nat}

/-! ## Stimuli -/

/-- An echo concerns the message that waits for it, and bytes that are no message nothing. -/
theorem quiet_receiveMessage (s : Station β) (d c : Channel) {bytes : Bytes}
    (h : Message.IsQuiet bytes) :
    (s.receiveMessage d bytes).2.memory = s.memory ∧
      (s.receiveMessage d bytes).2.node.queues = s.node.queues ∧
      ((s.receiveMessage d bytes).2.node.transport.outstanding c).isSome =
        (s.node.transport.outstanding c).isSome := by
  unfold receiveMessage
  split
  · exact ⟨rfl, rfl, rfl⟩
  · rename_i kind body hdecode
    have hecho : kind = .echo := h _ hdecode
    rw [if_pos hecho]
    refine ⟨rfl, rfl, ?_⟩
    simp only [takeEcho, accept, withNode]
    split
    · by_cases hc : c = d
      · subst hc
        simp [Transport.acknowledge, Transport.outstanding_withSlot_self]
      · rw [Transport.acknowledge, Transport.outstanding_withSlot_of_ne _ _ hc]
    · rfl

/-- **Every stimulus keeps the invariant**, while the peers only echo. -/
theorem download_react (answers : ∀ addr n, m.refusesRead addr n = false)
    (hprogram : 0 < m.chunkCount) {s : Station β} {c : Channel} {stimulus : Stimulus β}
    (h : Download m s.memory (s.lane c) confirmed sent) (hbefore : s.node.isConnected c = true)
    (hafter : (s.react stimulus).node.isConnected c = true)
    (hheard : ∀ bytes ∈ s.heardBy stimulus, Message.IsQuiet bytes)
    (hconfirmed : ∀ d ∈ s.deliveriesBy c stimulus, d = .confirmed) :
    ∃ sent', (stimulus.IsTick → 0 < sent') ∧ sent ≤ sent' ∧
      Download m (s.react stimulus).memory ((s.react stimulus).lane c)
        (confirmed + (s.deliveriesBy c stimulus).length) sent' ∧
      (List.range sent).map m.served ++ pulled (s.sentBy c stimulus) =
        (List.range sent').map m.served := by
  by_cases htick : stimulus.IsTick
  · cases stimulus with
    | tick inputs extensions =>
      obtain ⟨u, counters, l, hmemory, hturned, hqueue, hslot, hagrees⟩ :=
        s.turned_react inputs extensions c hbefore
      rw [← hmemory] at h
      obtain ⟨sent', hpos, hle, hnext, hlog⟩ :=
        h.turned answers hprogram hbefore hturned hconfirmed
      rw [← hmemory] at hagrees
      refine ⟨sent', fun _ => hpos, hle, ?_, ?_⟩
      · exact hnext.frame (.inr ⟨hpos, hagrees⟩) hqueue (congrArg Option.isSome hslot)
      · rw [← hlog, ← hslot]
        rfl
    | _ => exact htick.elim
  · rw [s.sentBy_eq_nil c htick, s.deliveriesBy_eq_nil c htick]
    refine ⟨sent, fun h => absurd h htick, Nat.le_refl _, ?_, List.append_nil _⟩
    cases took_react htick hbefore hafter with
    | message v d bytes htaking hreact _ hmemory hlane =>
      have hquiet := v.quiet_receiveMessage d c (hheard bytes (by simp [heardBy, htaking]))
      rw [← hlane] at h
      rw [hreact]
      refine h.frame (.inl ?_) ?_ hquiet.2.2
      · rw [hquiet.1, hmemory]
        exact .refl 0 _
      · rw [lane, lane, hquiet.2.1]
        exact .refl _
    | quiet _ _ himage hrefuses hlane =>
      rw [hlane]
      exact h.frame (.inl (ProgramMemory.agreesFrom_of_image himage hrefuses 0)) (.refl _) rfl

/-! ## Histories -/

theorem download_after (answers : ∀ addr n, m.refusesRead addr n = false)
    (hprogram : 0 < m.chunkCount) {c : Channel} (history : List (Stimulus β)) {s : Station β}
    (h : Download m s.memory (s.lane c) confirmed sent) (hstays : s.StaysConnected c history)
    (hheard : ∀ bytes ∈ s.heardDuring history, Message.IsQuiet bytes)
    (hconfirmed : ∀ d ∈ s.deliveriesDuring c history, d = .confirmed) :
    ∃ sent', ((∃ stimulus ∈ history, stimulus.IsTick) → 0 < sent') ∧ sent ≤ sent' ∧
      Download m (s.after history).memory ((s.after history).lane c)
        (confirmed + (s.deliveriesDuring c history).length) sent' ∧
      (List.range sent).map m.served ++ pulled (s.sentDuring c history) =
        (List.range sent').map m.served := by
  induction history generalizing s confirmed sent with
  | nil => exact ⟨sent, nofun, Nat.le_refl _, h, List.append_nil _⟩
  | cons stimulus rest ih =>
    obtain ⟨sent', htick, hle, hnext, hlog⟩ := download_react answers hprogram h hstays.1
      (connected_of_staysConnected hstays.2)
      (fun bytes hmem => hheard bytes (List.mem_append_left _ hmem))
      (fun d hmem => hconfirmed d (List.mem_append_left _ hmem))
    obtain ⟨sent'', htick', hle', hlast, hlog'⟩ := ih hnext hstays.2
      (fun bytes hmem => hheard bytes (List.mem_append_right _ hmem))
      (fun d hmem => hconfirmed d (List.mem_append_right _ hmem))
    refine ⟨sent'', ?_, Nat.le_trans hle hle', ?_, ?_⟩
    · rintro ⟨other, hmem, hother⟩
      rcases List.mem_cons.mp hmem with rfl | hmem
      · exact Nat.lt_of_lt_of_le (htick hother) hle'
      · exact htick' ⟨other, hmem, hother⟩
    · rw [deliveriesDuring, List.length_append, ← Nat.add_assoc]
      exact hlast
    · rw [sentDuring, pulled_append, ← List.append_assoc, hlog, hlog']

/-- A history in which a peer downloads the program: its item is queued on a channel that is empty
otherwise, the peer stays, only echoes come in, and every message is confirmed. -/
structure Downloads (s : Station β) (c : Channel) (history : List (Stimulus β)) : Prop where
  answers : ∀ addr n, s.memory.refusesRead addr n = false
  items : (s.node.queues.get c).items = [⟨.chunk, none⟩]
  cursor : (s.node.queues.get c).cursor = 0
  free : s.node.transport.outstanding c = none
  stays : s.StaysConnected c history
  heard : ∀ bytes ∈ s.heardDuring history, Message.IsQuiet bytes
  confirmed : ∀ d ∈ s.deliveriesDuring c history, d = .confirmed
  ticks : ∃ stimulus ∈ history, stimulus.IsTick

namespace Downloads

variable {s : Station β} {c : Channel} {history : List (Stimulus β)}

theorem start (h : s.Downloads c history) : Download s.memory s.memory (s.lane c) 0 0 :=
  .queued (.refl 0 _) h.items nofun h.cursor h.free

/-- The invariant at the end of a download. -/
theorem finish (h : s.Downloads c history) (hprogram : 0 < s.memory.chunkCount) :
    ∃ sent, 0 < sent ∧
      Download s.memory (s.after history).memory ((s.after history).lane c)
        (s.deliveriesDuring c history).length sent ∧
      pulled (s.sentDuring c history) = (List.range sent).map s.memory.served := by
  obtain ⟨sent, htick, -, hlast, hlog⟩ :=
    download_after h.answers hprogram history h.start h.stays h.heard h.confirmed
  rw [Nat.zero_add] at hlast
  exact ⟨sent, htick h.ticks, hlast, hlog⟩

end Downloads

/-! ## A peer that echoes everything -/

/-- The peer on the USB wire echoes the message that waits for it, and a tick follows. -/
def echoed (s : Station β) : List (Stimulus β) :=
  match s.node.transport.outstanding .usb with
  | some o => usbMessage .echo [o.expected] ++ [plainTick]
  | none => [plainTick]

/-- So many times over. -/
def rounds (s : Station β) : (n : Nat) → List (Stimulus β)
  | 0 => []
  | n + 1 => s.echoed ++ (s.after s.echoed).rounds n

/-- The station is between frames on the USB wire, and the host is there. -/
def UsbReady (s : Station β) : Prop := s.node.usb = .idle ∧ s.node.usbActive = true

/-- What such a round does. -/
structure Round (s : Station β) : Prop where
  ready : (s.after s.echoed).UsbReady
  stays : s.StaysConnected .usb s.echoed
  heard : ∀ bytes ∈ s.heardDuring s.echoed, Message.IsQuiet bytes
  deliveries : s.deliveriesDuring .usb s.echoed =
    (s.node.transport.outstanding .usb).toList.map fun _ => .confirmed
  ticks : ∃ stimulus ∈ s.echoed, stimulus.IsTick

theorem decode_echo (sum : UInt8) :
    Message.decode (Message.packet .echo [sum]) = .ok ⟨.echo, ⟨[sum], Nat.le_add_left 1 29⟩⟩ :=
  Message.decode_toBytes ⟨.echo, ⟨[sum], Nat.le_add_left 1 29⟩⟩ rfl

theorem quiet_echo (sum : UInt8) : Message.IsQuiet (Message.packet .echo [sum]) := by
  intro m hdecode
  cases (decode_echo sum).symm.trans hdecode
  rfl

theorem receiveMessage_echo (s : Station β) (c : Channel) (sum : UInt8) :
    (s.receiveMessage c (Message.packet .echo [sum])).2 =
      s.withNode { s.node with transport := s.node.transport.acknowledge c sum } := by
  simp only [receiveMessage, decode_echo, if_true]
  rfl

theorem ready_tick {s : Station β} (hready : s.UsbReady) : (s.react plainTick).UsbReady := by
  obtain ⟨husb, hactive⟩ := s.usb_tick #v[0, 0, 0] .none
  exact ⟨husb.trans hready.1, hactive.trans hready.2⟩

theorem Round.all_confirmed {s : Station β} (h : s.Round) :
    ∀ d ∈ s.deliveriesDuring .usb s.echoed, d = .confirmed := by
  rw [h.deliveries]
  intro d hmem
  obtain ⟨o, -, rfl⟩ := List.mem_map.mp hmem
  rfl

/-- **What waits is confirmed**, round by round. -/
theorem round (s : Station β) (hready : s.UsbReady) : s.Round := by
  cases hslot : s.node.transport.outstanding .usb with
  | none =>
    have hechoed : s.echoed = [plainTick] := by simp only [echoed, hslot]
    have hlane : (s.lane .usb).turn.delivery = none := by
      simp only [Lane.turn, lane, hslot]
    refine ⟨?_, ?_, ?_, ?_, ?_⟩
    all_goals rw [hechoed]
    · exact ready_tick hready
    · exact ⟨hready.2, (ready_tick hready).2⟩
    · exact fun _ h => absurd h List.not_mem_nil
    · rw [hslot, deliveriesDuring, deliveriesDuring, plainTick,
        s.deliveriesBy_tick (c := .usb) _ _ hready.2, hlane]
      rfl
    · exact ⟨plainTick, List.mem_singleton_self _, trivial⟩
  | some o =>
    have hechoed : s.echoed = usbMessage .echo [o.expected] ++ [plainTick] := by
      simp only [echoed, hslot]
    obtain ⟨hafter, hheard, hstays⟩ := after_usbMessage hready.1 .echo [o.expected]
      (show 1 ≤ 30 by decide)
    rw [receiveMessage_echo] at hafter hstays
    generalize hu : withNode _ _ = u at hafter hstays
    have hu' : u.UsbReady := by
      subst hu
      exact ⟨rfl, rfl⟩
    have hlane : (u.lane .usb).turn.delivery = some .confirmed := by
      have hslot' : (u.lane .usb).outstanding = some { o with echoed := some o.expected } := by
        subst hu
        show (s.node.transport.acknowledge .usb o.expected).outstanding .usb = _
        rw [Transport.acknowledge, Transport.outstanding_withSlot_self, hslot]
        rfl
      have hthere : (u.lane .usb).connected = true := hu'.2
      have hechoed' : Outstanding.IsEchoed { o with echoed := some o.expected } := rfl
      simp only [Lane.turn, hslot', Outstanding.turn, hthere, if_pos hechoed']
      rfl
    refine ⟨?_, ?_, ?_, ?_, ?_⟩
    all_goals rw [hechoed]
    · rw [after_append, hafter]
      exact ready_tick hu'
    · refine staysConnected_append (hstays hready.2 hu'.2) ?_
      rw [hafter]
      exact ⟨hu'.2, (ready_tick hu').2⟩
    · rw [heardDuring_append, hheard, hafter]
      intro bytes hmem
      cases List.mem_singleton.mp hmem
      exact quiet_echo _
    · rw [deliveriesDuring_append, deliveriesDuring_usbMessage, hafter, hslot, List.nil_append,
        deliveriesDuring, deliveriesDuring, plainTick,
        u.deliveriesBy_tick (c := .usb) _ _ hu'.2, hlane]
      rfl
    · exact ⟨plainTick, List.mem_append_right _ (List.mem_singleton_self _), trivial⟩

theorem rounds_keep (n : Nat) {s : Station β} (hready : s.UsbReady) :
    s.StaysConnected .usb (s.rounds n) ∧
      (∀ bytes ∈ s.heardDuring (s.rounds n), Message.IsQuiet bytes) ∧
      ∀ d ∈ s.deliveriesDuring .usb (s.rounds n), d = .confirmed := by
  induction n generalizing s with
  | zero => exact ⟨hready.2, nofun, nofun⟩
  | succ n ih =>
    have hround := s.round hready
    obtain ⟨hstays, hheard, hconfirmed⟩ := ih hround.ready
    rw [rounds, heardDuring_append, deliveriesDuring_append]
    refine ⟨staysConnected_append hround.stays hstays, fun bytes hmem => ?_, fun d hmem => ?_⟩
    · exact (List.mem_append.mp hmem).elim (hround.heard bytes) (hheard bytes)
    · exact (List.mem_append.mp hmem).elim (hround.all_confirmed d) (hconfirmed d)

/-- While the download of a long program goes on, there is a message to confirm in every round. -/
theorem length_rounds (answers : ∀ addr n, m.refusesRead addr n = false)
    (hlong : Queue.maxCursor + 1 < m.chunkCount) (n : Nat) {s : Station β} (hready : s.UsbReady)
    (h : Download m s.memory (s.lane .usb) confirmed sent) (hsent : 0 < sent) :
    (s.deliveriesDuring .usb (s.rounds n)).length = n := by
  induction n generalizing s confirmed sent with
  | zero => rfl
  | succ n ih =>
    have hround := s.round hready
    have hone : (s.deliveriesDuring .usb s.echoed).length = 1 := by
      have hwaits : (s.node.transport.outstanding .usb).isSome := by
        cases h with
        | queued => omega
        | going _ _ _ _ hwaits => exact hwaits
        | ended _ hshort => omega
      obtain ⟨o, ho⟩ := Option.isSome_iff_exists.mp hwaits
      rw [hround.deliveries, ho]
      rfl
    obtain ⟨sent', -, hle, hnext, -⟩ := download_after answers (Nat.zero_lt_of_lt hlong) s.echoed h
      hround.stays hround.heard hround.all_confirmed
    rw [rounds, deliveriesDuring_append, List.length_append, hone,
      ih hround.ready hnext (Nat.lt_of_lt_of_le hsent hle), Nat.add_comm]

/-- A station over this image that a peer on the USB wire has asked for the program. -/
def askedForProgram (image : Array UInt8) : Station Board :=
  (boot {} image {} {} {}).after (usbMessage .request [0x03])

theorem ready_askedForProgram (image : Array UInt8) : (askedForProgram image).UsbReady :=
  ⟨rfl, rfl⟩

/-- The peer downloads the program that it asked for by echoing every chunk. -/
theorem downloads_rounds (image : Array UInt8) (n : Nat) :
    (askedForProgram image).Downloads .usb ((askedForProgram image).rounds (n + 1)) := by
  have hready := ready_askedForProgram image
  obtain ⟨hstays, hheard, hconfirmed⟩ := (askedForProgram image).rounds_keep (n + 1) hready
  obtain ⟨stimulus, hmem, htick⟩ := ((askedForProgram image).round hready).ticks
  exact ⟨fun _ _ => rfl, rfl, rfl, rfl, hstays, hheard, hconfirmed,
    ⟨stimulus, List.mem_append_left _ hmem, htick⟩⟩

/-- A long program has a message to confirm in every round but the first. -/
theorem length_download {image : Array UInt8}
    (hlong : Queue.maxCursor + 1 < (askedForProgram image).memory.chunkCount) (n : Nat) :
    ((askedForProgram image).deliveriesDuring .usb
      ((askedForProgram image).rounds (n + 1))).length = n := by
  have hready := ready_askedForProgram image
  have hfirst := (downloads_rounds image 0).start
  generalize hs : askedForProgram image = s at hlong hready hfirst
  have hround := s.round hready
  have hfree : s.node.transport.outstanding .usb = none := by
    subst hs
    rfl
  obtain ⟨sent, htick, -, hnext, -⟩ := download_after (fun _ _ => by subst hs; rfl)
    (Nat.zero_lt_of_lt hlong) s.echoed hfirst hround.stays hround.heard hround.all_confirmed
  rw [rounds, deliveriesDuring_append, hround.deliveries, hfree]
  exact length_rounds (fun _ _ => by subst hs; rfl) hlong n hround.ready hnext (htick hround.ticks)

/-- The image of an enabled program without states and actions, its table at this address. -/
def emptyProgram (table : UInt16) : Array UInt8 :=
  #[statusEnabled, 0, highByte table, lowByte table] ++ Array.replicate (table.toNat - 3) 0

theorem programLength_emptyProgram (table : UInt16) (hheader : 4 ≤ table.toNat)
    (hsize : table.toNat < 65535) :
    ProgramMemory.programLength { image := emptyProgram table } = table.toNat + 1 := by
  generalize hm : ({ image := emptyProgram table } : ProgramMemory) = m
  have hcapacity : m.capacity = table.toNat + 1 := by
    subst hm
    simp [ProgramMemory.capacity, emptyProgram]
    omega
  have hhead : ∀ a, a < 4 →
      m.byteAt a = #[statusEnabled, 0, highByte table, lowByte table].getD a erasedByte := by
    subst hm
    intro a ha
    have hleft : a < #[statusEnabled, 0, highByte table, lowByte table].size := ha
    simp only [ProgramMemory.byteAt, emptyProgram, Array.getD_eq_getD_getElem?,
      Array.getElem?_append_left hleft]
  have hlast : m.byteAt table.toNat = 0 := by
    subst hm
    have hright : #[statusEnabled, 0, highByte table, lowByte table].size ≤ table.toNat := hheader
    have hin : table.toNat - 4 < table.toNat - 3 := by omega
    simp only [ProgramMemory.byteAt, emptyProgram, Array.getD_eq_getD_getElem?,
      Array.getElem?_append_right hright]
    simp [hin]
  have hsize' : m.size = table.toNat + 1 := by
    rw [ProgramMemory.size, hcapacity]
    omega
  have hcount : m.byteAt 1 = 0 := hhead 1 (by decide)
  have htable : wordIn m.byteAt 2 = table := by
    rw [wordIn, hhead 2 (by decide), hhead 3 (by decide)]
    exact word_highByte_lowByte table
  have wf : Layout.WellFormed m.byteAt m.size ⟨0, table.toNat, table.toNat + 1⟩ := by
    refine ⟨?_, ?_, hheader, ?_, ?_, ?_, fun state h => absurd h (Nat.not_lt_zero state)⟩
    · rw [hcount]
      rfl
    · exact (congrArg UInt16.toNat htable).symm
    · rw [hsize']
      exact Nat.lt_succ_self _
    · rw [hlast]
      trivial
    · rw [hlast]
      rfl
  have serves : m.Serves m.byteAt 1 m.size := by
    have hfits : m.size ≤ m.capacity := Nat.min_le_left ..
    refine ProgramMemory.serves_of_answers (fun _ _ _ _ => ?_) hfits (by omega)
    subst hm
    rfl
  rw [ProgramMemory.programLength, Layout.read_of_wellFormed wf serves]

/-! ## Downloads -/

/-- **A download returns the program and ends.** Of a program of at most 6144 bytes the first chunk
is sent at once and each further one when the one before it is confirmed. Their addresses are 0, 24,
48 and so on, their bytes make up the program, and the item is gone when the last is sent. -/
theorem download_returns_program (s : Station β) (c : Channel) (history : List (Stimulus β))
    (h : s.Downloads c history) (hprogram : 0 < s.memory.programLength)
    (hshort : s.memory.programLength ≤ 6144) :
    let confirmed := (s.deliveriesDuring c history).length
    pulled (s.sentDuring c history) =
        (List.range (min s.memory.chunkCount (confirmed + 1))).map
          (fun i => some (i * 24, s.memory.piece i)) ∧
      ((List.range s.memory.chunkCount).map s.memory.piece).flatten =
        s.memory.slice 0 s.memory.programLength ∧
      ((∀ item ∈ ((s.after history).node.queues.get c).items, item.kind ≠ .chunk) ↔
        s.memory.chunkCount ≤ confirmed + 1) := by
  have hcount : s.memory.chunkCount ≤ Queue.maxCursor + 1 := by
    unfold ProgramMemory.chunkCount chunkData Queue.maxCursor
    omega
  have hpos : 0 < s.memory.chunkCount := ProgramMemory.lt_chunkCount.mpr (by rwa [Nat.zero_mul])
  obtain ⟨sent, hsent, hlast, hlog⟩ := h.finish hpos
  generalize (s.deliveriesDuring c history).length = confirmed at hlast
  dsimp only
  have hserved : ∀ n, n ≤ s.memory.chunkCount → (List.range n).map s.memory.served =
      (List.range n).map fun i => some (i * 24, s.memory.piece i) := by
    intro n hn
    refine List.map_congr_left fun i hi => ?_
    have hlt := List.mem_range.mp hi
    rw [ProgramMemory.served, Nat.min_eq_left (by omega)]
    rfl
  refine ⟨?_, ProgramMemory.flatten_pieces hprogram, ?_⟩
  · have hmin : sent = min s.memory.chunkCount (confirmed + 1) := by
      cases hlast with
      | queued => omega
      | going _ _ _ _ _ hmany => omega
      | ended _ _ hdone => omega
    rw [hlog, hserved sent (by omega), hmin]
  · cases hlast with
    | queued => omega
    | going _ hitems _ _ _ hmany =>
      refine iff_of_false (fun hall => ?_) (by omega)
      exact hall ⟨.chunk, none⟩ (hitems ▸ List.mem_cons_self) rfl
    | ended hall _ hdone => exact iff_of_true hall hdone

/-- A program of 30 bytes comes in two chunks. -/
theorem download_of_two_chunks :
    let s := askedForProgram (emptyProgram 29)
    let history := s.rounds 2
    (s.Downloads .usb history ∧ s.memory.programLength = 30) ∧
      pulled (s.sentDuring .usb history) =
        [some (0, s.memory.slice 0 24), some (24, s.memory.slice 24 6)] ∧
      ∀ item ∈ ((s.after history).node.queues.get .usb).items, item.kind ≠ .chunk := by
  intro s history
  have hlength : s.memory.programLength = 30 :=
    programLength_emptyProgram 29 (by decide) (by decide)
  have hcount : s.memory.chunkCount = 2 := by
    rw [ProgramMemory.chunkCount, hlength]
    rfl
  have hdownloads : s.Downloads .usb history := downloads_rounds (emptyProgram 29) 1
  have hconfirmed : (s.deliveriesDuring .usb history).length = 1 := by decide +kernel
  obtain ⟨hsent, -, hgone⟩ :=
    download_returns_program s .usb history hdownloads (by omega) (by omega)
  have hfirst : s.memory.piece 0 = s.memory.slice 0 24 := by decide +kernel
  have hsecond : s.memory.piece 1 = s.memory.slice 24 6 := by decide +kernel
  refine ⟨⟨hdownloads, hlength⟩, ?_, hgone.mpr (by omega)⟩
  rw [hsent, hconfirmed, hcount, ← hfirst, ← hsecond]
  rfl

/-- **The download of a longer program does not end.** The chunk at 255 is sent again for each
message that is confirmed, and the item stays at the head of the queue. -/
theorem download_never_ends (s : Station β) (c : Channel) (history : List (Stimulus β))
    (h : s.Downloads c history) (hlong : 6144 < s.memory.programLength) :
    pulled (s.sentDuring c history) =
        (List.range ((s.deliveriesDuring c history).length + 1)).map
          (fun i => some (min i 255 * 24, s.memory.piece (min i 255))) ∧
      ((s.after history).node.queues.get c).head? = some ⟨.chunk, none⟩ := by
  have hcount : Queue.maxCursor + 1 < s.memory.chunkCount := by
    unfold ProgramMemory.chunkCount chunkData Queue.maxCursor
    omega
  obtain ⟨sent, hsent, hlast, hlog⟩ := h.finish (Nat.zero_lt_of_lt hcount)
  generalize (s.deliveriesDuring c history).length = confirmed at hlast
  cases hlast with
  | queued => omega
  | going _ hitems =>
    refine ⟨hlog, ?_⟩
    rw [Queue.head?]
    exact (congrArg List.head? hitems).trans rfl
  | ended _ hshort => omega

/-- **A program of 6145 bytes is not returned.** All of the 257 messages that it should come in are
confirmed, but the last is the chunk at 6120 again and not the one at 6144, and the item is still
queued. -/
theorem long_program_not_returned :
    let s := askedForProgram (emptyProgram 6144)
    let history := s.rounds 258
    s.memory.programLength = 6145 ∧ s.memory.chunkCount = 257 ∧ s.Downloads .usb history ∧
      (s.deliveriesDuring .usb history).length = 257 ∧
      (pulled (s.sentDuring .usb history))[256]? = some (some (6120, s.memory.piece 255)) ∧
      ((s.after history).node.queues.get .usb).head? = some ⟨.chunk, none⟩ := by
  intro s history
  have hlength : s.memory.programLength = 6145 :=
    programLength_emptyProgram 6144 (by decide) (by decide)
  have hcount : s.memory.chunkCount = 257 := by
    rw [ProgramMemory.chunkCount, hlength]
    rfl
  have hconfirmed : (s.deliveriesDuring .usb history).length = 257 :=
    length_download (by rw [hcount]; decide) 257
  have hdownloads : s.Downloads .usb history := downloads_rounds (emptyProgram 6144) 257
  obtain ⟨hsent, hqueued⟩ := download_never_ends s .usb history hdownloads (by omega)
  refine ⟨hlength, hcount, hdownloads, hconfirmed, ?_, hqueued⟩
  rw [hsent, hconfirmed, List.getElem?_map, List.getElem?_range (by decide)]
  rfl

end Station

end RoomControl
