import RoomControl.Proofs.Outbound.Lives

/-!
# What a confirmation says about the peer

An `Exchange` is a channel of a transport together with the link under it and the peer behind it.
The link keeps the order in both directions, and may lose or hold back whatever is on it. The peer
answers every message with the additive sum of the whole message; an answer that arrives is noted.

A transport confirms a message when the sum echoed last is the message's own. Since an echo names
nothing but a sum, this may be the echo of an earlier message: one that was still under way when the
message was committed, or the echo of a copy that was. `confirmed_received_or_confused` says that
nothing else can deceive it. Whenever a message is confirmed, the peer has received it since its
commit, or something with its sum was under way by then; and whenever something is, the transport
can be deceived. `late_echo_confirms` is the shortest run in which it is.

Whether a message is confirmed at all is not the subject here: the link may lose everything.
-/

set_option autoImplicit false

namespace RoomControl

/-- What is under way on a link in its two directions, the oldest first. -/
structure InFlight where
  messages : List Bytes := []
  echoes : List UInt8 := []
  deriving DecidableEq

/-- A message with this payload can be taken for received on account of what is under way: an echo
with its sum, or another message that the peer will answer with its sum. -/
def InFlight.Confuses (l : InFlight) (payload : Bytes) : Prop :=
  additiveSum payload ∈ l.echoes ∨
    ∃ m ∈ l.messages, m ≠ payload ∧ additiveSum m = additiveSum payload

instance (l : InFlight) (payload : Bytes) : Decidable (l.Confuses payload) :=
  inferInstanceAs (Decidable (_ ∨ _))

namespace Exchange

inductive Event where
  /-- A message is accepted, with this under way before it. -/
  | committed (payload : Bytes) (flight : InFlight)
  /-- The peer receives a message. -/
  | received (payload : Bytes)
  /-- The outstanding message leaves the transport. -/
  | ended (how : Delivery)
  deriving DecidableEq

/-- What can happen next. Where a packet is handed to the link, `taken` says whether the link takes
it. -/
inductive Act where
  | commit (payload : Bytes) (taken : Bool)
  | tick (connected taken : Bool)
  | cancel
  /-- The oldest message arrives, and the peer answers it. -/
  | arrive
  /-- The oldest echo arrives. -/
  | echo
  | loseMessage (index : Nat)
  | loseEcho (index : Nat)
  deriving DecidableEq

end Exchange

/-- A transport, the link under one of its channels, and what has happened on the channel. -/
structure Exchange where
  transport : Transport
  link : InFlight := {}
  log : List Exchange.Event := []

namespace Exchange

/-- The link after a packet was handed to it. -/
def carry (link : InFlight) (payload : Bytes) (taken : Bool) : InFlight :=
  if taken then { link with messages := link.messages ++ [payload] } else link

theorem mem_messages_carry {link : InFlight} {payload m : Bytes} {taken : Bool}
    (h : m ∈ (carry link payload taken).messages) : m ∈ link.messages ∨ m = payload := by
  cases taken with
  | false => exact .inl h
  | true => exact (List.mem_append.mp h).imp_right List.mem_singleton.mp

theorem echoes_carry (link : InFlight) (payload : Bytes) (taken : Bool) :
    (carry link payload taken).echoes = link.echoes := by
  cases taken <;> rfl

def step (c : Channel) (x : Exchange) : Act → Exchange
  | .commit payload taken =>
    match x.transport.commit c payload with
    | .ok transport =>
      ⟨transport, carry x.link payload taken, x.log ++ [.committed payload x.link]⟩
    | .error _ => x
  | .tick connected taken =>
    let turn := x.transport.turn c connected
    { transport := x.transport.afterTurn c connected
      link := turn.resend.elim x.link (carry x.link · taken)
      log := x.log ++ turn.delivery.toList.map .ended }
  | .cancel => { x with transport := x.transport.cancel c }
  | .arrive =>
    match x.link.messages with
    | [] => x
    | m :: rest =>
      { x with
        link := ⟨rest, x.link.echoes ++ [additiveSum m]⟩
        log := x.log ++ [.received m] }
  | .echo =>
    match x.link.echoes with
    | [] => x
    | sum :: rest =>
      { x with transport := x.transport.acknowledge c sum, link := { x.link with echoes := rest } }
  | .loseMessage index =>
    { x with link := { x.link with messages := x.link.messages.eraseIdx index } }
  | .loseEcho index => { x with link := { x.link with echoes := x.link.echoes.eraseIdx index } }

def after (c : Channel) (x : Exchange) (acts : List Act) : Exchange := acts.foldl (step c) x

theorem after_cons (c : Channel) (x : Exchange) (act : Act) (rest : List Act) :
    x.after c (act :: rest) = (x.step c act).after c rest := rfl

theorem after_append (c : Channel) (x : Exchange) (first second : List Act) :
    x.after c (first ++ second) = (x.after c first).after c second :=
  List.foldl_append

/-! ## The claim on a log -/

/-- Everything under way belongs to a message that was committed in `log`. -/
structure CommittedIn (log : List Event) (link : InFlight) : Prop where
  messages : ∀ m ∈ link.messages, ∃ flight, .committed m flight ∈ log
  echoes : ∀ sum ∈ link.echoes, ∃ m flight, .committed m flight ∈ log ∧ additiveSum m = sum

/-- The last message committed in `log` is `payload`. It was committed after `before`, with `flight`
under way, and `since` has happened after it. -/
structure LastCommit (log before : List Event) (payload : Bytes) (flight : InFlight)
    (since : List Event) : Prop where
  log_eq : log = before ++ .committed payload flight :: since
  last : ∀ q l, .committed q l ∉ since

/-- The message committed last in `log` has been received since, or may have been taken for it. -/
def Justified (log : List Event) : Prop :=
  ∃ before payload flight since, LastCommit log before payload flight since ∧
    CommittedIn before flight ∧ (.received payload ∈ since ∨ flight.Confuses payload)

/-- Whenever a message is confirmed in `log`, `P` holds of what happened before. -/
def AtConfirmations (P : List Event → Prop) (log : List Event) : Prop :=
  ∀ earlier later, log = earlier ++ .ended .confirmed :: later → P earlier

theorem LastCommit.snoc {log before since : List Event} {payload : Bytes} {flight : InFlight}
    (h : LastCommit log before payload flight since) {e : Event} (he : ∀ q l, e ≠ .committed q l) :
    LastCommit (log ++ [e]) before payload flight (since ++ [e]) := by
  constructor
  · simp [h.log_eq]
  · intro q l hmem
    rcases List.mem_append.mp hmem with hmem | hmem
    · exact h.last q l hmem
    · exact he q l (List.mem_singleton.mp hmem).symm

/-- A log has one last commit. -/
theorem LastCommit.since_eq {log before before' since since' : List Event}
    {payload payload' : Bytes} {flight flight' : InFlight}
    (h : LastCommit log before payload flight since)
    (h' : LastCommit log before' payload' flight' since') :
    payload = payload' ∧ since = since' := by
  have heq := h.log_eq.symm.trans h'.log_eq
  rcases List.append_eq_append_iff.mp heq with ⟨gap, -, htail⟩ | ⟨gap, -, htail⟩
  · cases gap with
    | nil =>
      simp only [List.nil_append, List.cons.injEq, Event.committed.injEq] at htail
      exact ⟨htail.1.1, htail.2⟩
    | cons e gap =>
      simp only [List.cons_append, List.cons.injEq] at htail
      exact absurd (htail.2 ▸ List.mem_append_right gap List.mem_cons_self)
        (h.last payload' flight')
  · cases gap with
    | nil =>
      simp only [List.nil_append, List.cons.injEq, Event.committed.injEq] at htail
      exact ⟨htail.1.1.symm, htail.2.symm⟩
    | cons e gap =>
      simp only [List.cons_append, List.cons.injEq] at htail
      exact absurd (htail.2 ▸ List.mem_append_right gap List.mem_cons_self) (h'.last payload flight)

theorem AtConfirmations.snoc {P : List Event → Prop} {log : List Event}
    (h : AtConfirmations P log) {e : Event} (he : e = .ended .confirmed → P log) :
    AtConfirmations P (log ++ [e]) := by
  intro earlier later heq
  rcases List.eq_nil_or_concat later with rfl | ⟨later, e', rfl⟩
  · obtain ⟨rfl, hlast⟩ := List.append_inj' heq rfl
    exact he (List.cons.inj hlast).1
  · rw [List.concat_eq_append, ← List.cons_append, ← List.append_assoc] at heq
    exact h earlier later (List.append_inj' heq rfl).1

/-! ## What every step keeps -/

/-- Where a sum that the peer echoed comes from: it was under way already, or it answers a message
that has been received since. -/
def Accounted (flight : InFlight) (since : List Event) (sum : UInt8) : Prop :=
  sum ∈ flight.echoes ∨ ∃ m, .received m ∈ since ∧ additiveSum m = sum

theorem Accounted.snoc {flight : InFlight} {since : List Event} {sum : UInt8}
    (h : Accounted flight since sum) (e : Event) : Accounted flight (since ++ [e]) sum := by
  rcases h with h | ⟨m, hm, hsum⟩
  · exact .inl h
  · exact .inr ⟨m, List.mem_append_left _ hm, hsum⟩

/-- What is known of the outstanding message `o`, which was committed with `flight` under way. -/
structure Traced (x : Exchange) (o : Outstanding) (before : List Event) (flight : InFlight)
    (since : List Event) : Prop where
  commit : LastCommit x.log before o.payload.bytes flight since
  committed : CommittedIn before flight
  received : ∀ m, .received m ∈ since → m = o.payload.bytes ∨ m ∈ flight.messages
  messages : ∀ m ∈ x.link.messages, m = o.payload.bytes ∨ m ∈ flight.messages
  echoes : ∀ sum ∈ x.link.echoes, Accounted flight since sum
  echoed : ∀ sum, o.echoed = some sum → Accounted flight since sum

/-- The invariant of an exchange. -/
structure Sound (c : Channel) (x : Exchange) : Prop where
  traced : ∀ o, x.transport.outstanding c = some o →
    ∃ before flight since, Traced x o before flight since
  committed : CommittedIn x.log x.link
  justified : AtConfirmations Justified x.log

theorem CommittedIn.snoc {log : List Event} {link : InFlight} (h : CommittedIn log link)
    (e : Event) : CommittedIn (log ++ [e]) link := by
  constructor
  · intro m hm
    obtain ⟨flight, hlog⟩ := h.messages m hm
    exact ⟨flight, List.mem_append_left _ hlog⟩
  · intro sum hsum
    obtain ⟨m, flight, hlog, heq⟩ := h.echoes sum hsum
    exact ⟨m, flight, List.mem_append_left _ hlog, heq⟩

/-- What is lost was under way. -/
theorem CommittedIn.sublist {log : List Event} {link : InFlight} (h : CommittedIn log link)
    {messages : List Bytes} {echoes : List UInt8} (hm : messages ⊆ link.messages)
    (he : echoes ⊆ link.echoes) : CommittedIn log ⟨messages, echoes⟩ :=
  ⟨fun m h' => h.messages m (hm h'), fun sum h' => h.echoes sum (he h')⟩

theorem CommittedIn.carry {log : List Event} {link : InFlight} (h : CommittedIn log link)
    {payload : Bytes} {flight : InFlight} (hlog : .committed payload flight ∈ log) (taken : Bool) :
    CommittedIn log (Exchange.carry link payload taken) := by
  refine ⟨fun m hm => ?_, ?_⟩
  · rcases mem_messages_carry hm with hm | rfl
    · exact h.messages m hm
    · exact ⟨flight, hlog⟩
  · rw [echoes_carry]
    exact h.echoes

section Step

variable {c : Channel} {x : Exchange}

theorem Traced.mem_log {o : Outstanding} {before since : List Event} {flight : InFlight}
    (h : Traced x o before flight since) : .committed o.payload.bytes flight ∈ x.log := by
  rw [h.commit.log_eq]
  exact List.mem_append_right _ List.mem_cons_self

/-- A message that is confirmed has been received, or the transport was deceived. -/
theorem Traced.justified {o : Outstanding} {before since : List Event} {flight : InFlight}
    (h : Traced x o before flight since) (hechoed : o.IsEchoed) : Justified x.log := by
  refine ⟨before, o.payload.bytes, flight, since, h.commit, h.committed, ?_⟩
  rcases h.echoed _ hechoed with hstale | ⟨m, hm, hsum⟩
  · exact .inr (.inl hstale)
  · by_cases heq : m = o.payload.bytes
    · exact .inl (heq ▸ hm)
    · rcases h.received m hm with hm | hm
      · exact absurd hm heq
      · exact .inr (.inr ⟨m, hm, heq, hsum⟩)

theorem Sound.commit (h : Sound c x) (payload : Bytes) (taken : Bool) :
    Sound c (x.step c (.commit payload taken)) := by
  cases hcommit : x.transport.commit c payload with
  | error e =>
    simp only [step, hcommit]
    exact h
  | ok transport =>
    obtain ⟨-, -, held, rfl, rfl⟩ := Transport.eq_of_commit hcommit
    simp only [step, hcommit]
    have hlog : Event.committed held.bytes x.link ∈ x.log ++ [.committed held.bytes x.link] :=
      List.mem_append_right _ List.mem_cons_self
    refine ⟨?_, (h.committed.snoc _).carry hlog taken, h.justified.snoc nofun⟩
    intro o ho
    rw [Transport.outstanding_withSlot_self] at ho
    cases ho
    refine ⟨x.log, x.link, [], ⟨rfl, nofun⟩, h.committed, nofun, fun m hm => ?_, ?_, nofun⟩
    · exact (mem_messages_carry hm).symm
    · rw [echoes_carry]
      exact fun sum hsum => .inl hsum

/-- Losing some of what is under way, with nothing else changed. -/
theorem Sound.lose (h : Sound c x) {messages : List Bytes} {echoes : List UInt8}
    (hm : messages ⊆ x.link.messages) (he : echoes ⊆ x.link.echoes) :
    Sound c { x with link := ⟨messages, echoes⟩ } := by
  refine ⟨fun o ho => ?_, h.committed.sublist hm he, h.justified⟩
  obtain ⟨before, flight, since, t⟩ := h.traced o ho
  exact ⟨before, flight, since, t.commit, t.committed, t.received,
    fun m h' => t.messages m (hm h'), fun sum h' => t.echoes sum (he h'), t.echoed⟩

theorem Sound.arrive (h : Sound c x) : Sound c (x.step c .arrive) := by
  cases hlink : x.link.messages with
  | nil =>
    simp only [step, hlink]
    exact h
  | cons m rest =>
    simp only [step, hlink]
    have hm : m ∈ x.link.messages := hlink ▸ List.mem_cons_self
    have hrest : ∀ m' ∈ rest, m' ∈ x.link.messages := fun _ hmem =>
      hlink ▸ List.mem_cons_of_mem m hmem
    refine ⟨?_, ⟨?_, ?_⟩, h.justified.snoc nofun⟩
    · intro o ho
      obtain ⟨before, flight, since, t⟩ := h.traced o ho
      have hcommit := t.commit.snoc (e := .received m) nofun
      refine ⟨before, flight, since ++ [.received m], hcommit, t.committed, ?_,
        fun m' hm' => t.messages m' (hrest m' hm'), ?_, fun sum hsum => (t.echoed sum hsum).snoc _⟩
      · intro m' hm'
        rcases List.mem_append.mp hm' with hm' | hm'
        · exact t.received m' hm'
        · cases List.mem_singleton.mp hm'
          exact t.messages m hm
      · intro sum hsum
        rcases List.mem_append.mp hsum with hsum | hsum
        · exact (t.echoes sum hsum).snoc _
        · refine .inr ⟨m, List.mem_append_right _ List.mem_cons_self, ?_⟩
          exact (List.mem_singleton.mp hsum).symm
    · exact fun m' hm' => (h.committed.snoc _).messages m' (hrest m' hm')
    · intro sum hsum
      rcases List.mem_append.mp hsum with hsum | hsum
      · exact (h.committed.snoc _).echoes sum hsum
      · obtain ⟨flight, hlog⟩ := (h.committed.snoc (.received m)).messages m hm
        exact ⟨m, flight, hlog, (List.mem_singleton.mp hsum).symm⟩

theorem Sound.echo (h : Sound c x) : Sound c (x.step c .echo) := by
  cases hlink : x.link.echoes with
  | nil =>
    simp only [step, hlink]
    exact h
  | cons sum rest =>
    simp only [step, hlink]
    have hrest : rest ⊆ x.link.echoes := fun _ hmem => hlink ▸ List.mem_cons_of_mem sum hmem
    refine ⟨?_, h.committed.sublist (List.Subset.refl _) hrest, h.justified⟩
    intro o ho
    dsimp only [Transport.acknowledge] at ho
    rw [Transport.outstanding_withSlot_self] at ho
    obtain ⟨o', ho', rfl⟩ := Option.map_eq_some_iff.mp ho
    obtain ⟨before, flight, since, t⟩ := h.traced o' ho'
    refine ⟨before, flight, since, t.commit, t.committed, t.received, t.messages,
      fun sum' hsum' => t.echoes sum' (hrest hsum'), ?_⟩
    intro sum' hsum'
    cases hsum'
    exact t.echoes sum (hlink ▸ List.mem_cons_self)

/-- The outstanding message leaves the transport. -/
theorem Sound.leave (h : Sound c x) {o : Outstanding} (hslot : x.transport.outstanding c = some o)
    {how : Delivery} (hhow : how = .confirmed → o.IsEchoed) :
    Sound c ⟨x.transport.withSlot c none, x.link, x.log ++ [.ended how]⟩ := by
  obtain ⟨before, flight, since, t⟩ := h.traced o hslot
  refine ⟨fun o' ho' => ?_, h.committed.snoc _, h.justified.snoc fun he => ?_⟩
  · rw [Transport.outstanding_withSlot_self] at ho'
    cases ho'
  · cases he
    exact t.justified (hhow rfl)

/-- The outstanding message stays, and another copy of it may be sent. -/
theorem Sound.stay (h : Sound c x) {o : Outstanding} (hslot : x.transport.outstanding c = some o)
    (wait retries : Nat) (taken : Bool) :
    Sound c ⟨x.transport.withSlot c (some { o with wait, retries }),
      carry x.link o.payload.bytes taken, x.log⟩ := by
  obtain ⟨before, flight, since, t⟩ := h.traced o hslot
  refine ⟨fun o' ho' => ?_, h.committed.carry t.mem_log taken, h.justified⟩
  rw [Transport.outstanding_withSlot_self] at ho'
  cases ho'
  refine ⟨before, flight, since, t.commit, t.committed, t.received, fun m hm => ?_, ?_, t.echoed⟩
  · rcases mem_messages_carry hm with hm | rfl
    · exact t.messages m hm
    · exact .inl rfl
  · rw [echoes_carry]
    exact t.echoes

theorem Sound.tick (h : Sound c x) (connected taken : Bool) :
    Sound c (x.step c (.tick connected taken)) := by
  simp only [step, Transport.afterTurn, Transport.turn]
  cases hslot : x.transport.outstanding c with
  | none =>
    dsimp only
    rw [Option.elim_none, Option.toList_none, List.map_nil, List.append_nil]
    refine ⟨fun o ho => ?_, h.committed, h.justified⟩
    rw [Transport.outstanding_withSlot_self] at ho
    cases ho
  | some o =>
    dsimp only
    unfold Outstanding.turn
    by_cases hlost : connected = false
    · rw [if_pos hlost]
      exact h.leave hslot Delivery.noConfusion
    · rw [if_neg hlost]
      by_cases hechoed : o.IsEchoed
      · rw [if_pos hechoed]
        exact h.leave hslot fun _ => hechoed
      · rw [if_neg hechoed]
        split
        · dsimp only
          rw [Option.elim_none, Option.toList_none, List.map_nil, List.append_nil]
          exact h.stay hslot _ _ false
        · split
          · exact h.leave hslot Delivery.noConfusion
          · dsimp only
            rw [Option.elim_some, Option.toList_none, List.map_nil, List.append_nil]
            exact h.stay hslot _ _ taken

/-- **Every step keeps the invariant.** -/
theorem Sound.step (h : Sound c x) (act : Act) : Sound c (x.step c act) := by
  cases act with
  | commit payload taken => exact h.commit payload taken
  | tick connected taken => exact h.tick connected taken
  | cancel =>
    refine ⟨fun o ho => ?_, h.committed, h.justified⟩
    dsimp only [Exchange.step, Transport.cancel] at ho
    rw [Transport.outstanding_withSlot_self] at ho
    cases ho
  | arrive => exact h.arrive
  | echo => exact h.echo
  | loseMessage index => exact h.lose (List.eraseIdx_sublist _ _).subset (List.Subset.refl _)
  | loseEcho index => exact h.lose (List.Subset.refl _) (List.eraseIdx_sublist _ _).subset

theorem Sound.after (h : Sound c x) (acts : List Act) : Sound c (x.after c acts) := by
  induction acts generalizing x with
  | nil => exact h
  | cons act rest ih => exact ih (h.step act)

end Step

/-! ## Deceiving the transport -/

theorem after_loseMessages (c : Channel) (x : Exchange) (n : Nat) :
    x.after c (List.replicate n (.loseMessage 0)) =
      { x with link := { x.link with messages := x.link.messages.drop n } } := by
  induction n generalizing x with
  | zero => rfl
  | succ n ih =>
    rw [List.replicate_succ, after_cons, ih]
    simp only [step, List.eraseIdx_zero, ← List.drop_one, List.drop_drop, Nat.add_comm 1 n]

theorem after_loseEchoes (c : Channel) (x : Exchange) (n : Nat) :
    x.after c (List.replicate n (.loseEcho 0)) =
      { x with link := { x.link with echoes := x.link.echoes.drop n } } := by
  induction n generalizing x with
  | zero => rfl
  | succ n ih =>
    rw [List.replicate_succ, after_cons, ih]
    simp only [step, List.eraseIdx_zero, ← List.drop_one, List.drop_drop, Nat.add_comm 1 n]

section Deceive

variable {c : Channel} {x : Exchange}

/-- An echo of the right sum that is under way can arrive next, and then confirms the message. -/
theorem confirmed_of_echo {o : Outstanding} (hslot : x.transport.outstanding c = some o)
    (hecho : o.expected ∈ x.link.echoes) :
    ∃ acts, (x.after c acts).log = x.log ++ [.ended .confirmed] := by
  obtain ⟨stale, rest, hechoes⟩ := List.append_of_mem hecho
  refine ⟨List.replicate stale.length (.loseEcho 0) ++ [.echo, .tick true true], ?_⟩
  have hdrop : x.link.echoes.drop stale.length = o.expected :: rest := by
    rw [hechoes, List.drop_left]
  have hturn : ({ o with echoed := some o.expected } : Outstanding).turn x.transport.settings true =
      { delivery := some .confirmed } := by
    simp [Outstanding.turn, Outstanding.IsEchoed, Outstanding.expected]
  rw [after_append, after_loseEchoes, hdrop]
  simp only [after, List.foldl_cons, List.foldl_nil, step, Transport.acknowledge, hslot,
    Option.map_some, Transport.turn, Transport.outstanding_withSlot_self]
  rw [show (x.transport.withSlot c (some { o with echoed := some o.expected })).settings =
    x.transport.settings from rfl, hturn]
  rfl

/-- **What confuses a message can confirm it** without the peer's having received it. -/
theorem confirmed_of_confuses {payload : Bytes} (hfree : x.transport.outstanding c = none)
    (hpos : 1 ≤ payload.length) (hmax : payload.length ≤ 32) (h : x.link.Confuses payload) :
    ∃ acts since, (x.after c acts).log =
      x.log ++ .committed payload x.link :: since ++ [.ended .confirmed] ∧
        .received payload ∉ since ∧ ∀ q l, .committed q l ∉ since := by
  let o : Outstanding :=
    ⟨⟨payload, hmax⟩, none, x.transport.settings.timeout, x.transport.settings.retries⟩
  -- the first copy of the new message is lost
  let y : Exchange :=
    ⟨x.transport.withSlot c (some o), x.link, x.log ++ [.committed payload x.link]⟩
  have hcommit : x.step c (.commit payload false) = y := by
    simp only [step, Transport.commit_of_free hfree hpos hmax]
    rfl
  rcases h with hecho | ⟨m, hm, hne, hsum⟩
  · obtain ⟨acts, hlog⟩ := confirmed_of_echo (x := y) (Transport.outstanding_withSlot_self ..) hecho
    refine ⟨.commit payload false :: acts, [], ?_, List.not_mem_nil, fun _ _ => List.not_mem_nil⟩
    rw [after_cons, hcommit]
    exact hlog
  · obtain ⟨ahead, rest, hmessages⟩ := List.append_of_mem hm
    -- what is ahead of the other message is lost, and the peer answers that
    let z : Exchange :=
      ⟨y.transport, ⟨rest, y.link.echoes ++ [additiveSum m]⟩, y.log ++ [.received m]⟩
    have hreceived : y.after c (List.replicate ahead.length (.loseMessage 0) ++ [.arrive]) = z := by
      have hdrop : y.link.messages.drop ahead.length = m :: rest := by
        show x.link.messages.drop ahead.length = _
        rw [hmessages, List.drop_left]
      rw [after_append, after_loseMessages, hdrop]
      rfl
    have hecho : o.expected ∈ z.link.echoes :=
      List.mem_append_right _ (List.mem_singleton.mpr hsum.symm)
    obtain ⟨acts, hlog⟩ := confirmed_of_echo (x := z) (Transport.outstanding_withSlot_self ..) hecho
    refine ⟨.commit payload false ::
      (List.replicate ahead.length (.loseMessage 0) ++ [.arrive]) ++ acts, [.received m], ?_, ?_, ?_⟩
    · rw [List.cons_append, after_cons, hcommit, after_append, hreceived, hlog]
      simp [z, y]
    · intro hmem
      exact hne (Event.received.inj (List.mem_singleton.mp hmem)).symm
    · intro q l hmem
      cases List.mem_singleton.mp hmem

end Deceive

/-! ## The law -/

def start (settings : RetrySettings) : Exchange := { transport := { settings } }

/-- **What a confirmation says.** Whatever is asked of a transport on a channel, and whatever the
link loses or holds back: whenever a message is confirmed, the peer has received it since it was
committed, or something that was under way at that moment confuses it, and everything under way then
belongs to messages committed before. Conversely a message that is confused by what is under way may
be confirmed although the peer never receives it. -/
theorem confirmed_received_or_confused (settings : RetrySettings) (c : Channel) (acts : List Act) :
    let x := (start settings).after c acts
    (∀ earlier later, x.log = earlier ++ .ended .confirmed :: later →
      ∃ before payload flight since,
        (earlier = before ++ .committed payload flight :: since ∧ ∀ q l, .committed q l ∉ since) ∧
        (.received payload ∈ since ∨ flight.Confuses payload) ∧
        (∀ m ∈ flight.messages, ∃ l, .committed m l ∈ before) ∧
        (∀ sum ∈ flight.echoes, ∃ m l, .committed m l ∈ before ∧ additiveSum m = sum)) ∧
    ∀ payload, x.transport.outstanding c = none → 1 ≤ payload.length → payload.length ≤ 32 →
      x.link.Confuses payload →
        ∃ more since, (x.after c more).log =
          x.log ++ .committed payload x.link :: since ++ [.ended .confirmed] ∧
            .received payload ∉ since ∧ ∀ q l, .committed q l ∉ since := by
  intro x
  have fresh : Sound c (start settings) := by
    refine ⟨fun o ho => ?_, ⟨nofun, nofun⟩, fun earlier later h => ?_⟩
    · cases c with
      | usb => cases ho
      | bluetooth => cases ho
    · exact absurd h.symm (List.append_ne_nil_of_right_ne_nil _ nofun)
  have sound : Sound c x := fresh.after acts
  constructor
  · intro earlier later hlog
    obtain ⟨before, payload, flight, since, hcommit, hflight, hor⟩ :=
      sound.justified earlier later hlog
    exact ⟨before, payload, flight, since, ⟨hcommit.log_eq, hcommit.last⟩, hor,
      hflight.messages, hflight.echoes⟩
  · intro payload hfree hpos hmax hconfuses
    exact confirmed_of_confuses hfree hpos hmax hconfuses

/-- **A late echo confirms a message that the peer never receives**: `[1]` is sent twice and
answered twice, and the second answer is taken for that to `[0, 1]`, whose only copy is lost. -/
theorem late_echo_confirms :
    let x := (start ⟨0, 3⟩).after .usb
      [.commit [1] true, .tick true true, .arrive, .arrive, .echo, .tick true true,
        .commit [0, 1] false, .echo, .tick true true]
    (∃ earlier, x.log = earlier ++ [.ended .confirmed] ∧
      ∃ before flight since, earlier = before ++ .committed [0, 1] flight :: since ∧
        (∀ q l, .committed q l ∉ since) ∧ .received [0, 1] ∉ since) ∧
    ¬ ∀ earlier later, x.log = earlier ++ .ended .confirmed :: later →
      ∃ before payload flight since, earlier = before ++ .committed payload flight :: since ∧
        (∀ q l, .committed q l ∉ since) ∧ .received payload ∈ since := by
  intro x
  let before : List Event :=
    [.committed [1] {}, .received [1], .received [1], .ended .confirmed]
  have hlog : x.log = (before ++ .committed [0, 1] ⟨[], [1]⟩ :: []) ++ [.ended .confirmed] := by
    decide
  refine ⟨⟨_, hlog, before, ⟨[], [1]⟩, [], rfl, nofun, nofun⟩, fun claim => ?_⟩
  obtain ⟨before', payload, flight, since, heq, hlast, hreceived⟩ := claim _ [] hlog
  have hcommit : LastCommit _ before [0, 1] ⟨[], [1]⟩ [] := ⟨rfl, nofun⟩
  obtain ⟨-, rfl⟩ := hcommit.since_eq ⟨heq, hlast⟩
  cases hreceived

end Exchange

end RoomControl
