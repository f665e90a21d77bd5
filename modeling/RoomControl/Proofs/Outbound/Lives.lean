import RoomControl.Outbound.Transport
import RoomControl.Run

/-!
# The life of a message

A transport serves requests on its two channels in any order, over links that come and go and that
take or refuse what is sent. Its log says what was committed on each channel, what was sent and how
a message ended.

`log_eq_lives` is the law of the log. The commits in it are those of the calls that succeeded
(`committed_serveAll`). On each channel the log is cut into lives: a message is committed, copies of
it are sent and it ends, all before the next one is committed. So nothing of a
message is sent after its end, and it ends once at most; only the last life may still be open, and
then its message is the one outstanding. The law does not say when an echo arrives, nor whether the
peer has received what it confirms.
-/

set_option autoImplicit false

namespace RoomControl.Transport

/-! ## Requests and their log -/

/-- What is asked of a transport on one channel, and what the link under the channel does at that
moment: whether it is connected, and whether it takes a packet. -/
inductive Request where
  | commit (payload : Bytes) (taken : Bool)
  | acknowledge (sum : UInt8)
  | tick (connected taken : Bool)
  | cancel
  deriving DecidableEq, Repr

/-- How a message leaves a channel. -/
inductive Ending where
  | delivery (how : Delivery)
  /-- It was outstanding and has been cancelled. -/
  | withdrawn
  deriving DecidableEq, Repr

inductive Event where
  | committed (payload : Bytes)
  /-- The packet is handed to the link, which takes it or refuses it. -/
  | sent (payload : Bytes) (taken : Bool)
  | ended (how : Ending)
  deriving DecidableEq, Repr

/-- Serves a request on a channel: the events on it, and the transport after them. -/
def serve (t : Transport) (c : Channel) : Request → List Event × Transport
  | .commit payload taken =>
    match t.commit c payload with
    | .ok next => ([.committed payload, .sent payload taken], next)
    | .error _ => ([], t)
  | .acknowledge sum => ([], t.acknowledge c sum)
  | .tick connected taken =>
    let turn := t.turn c connected
    let resent := turn.resend.toList.map fun payload => Event.sent payload taken
    let ended := turn.delivery.toList.map fun how => Event.ended (.delivery how)
    (resent ++ ended, t.afterTurn c connected)
  | .cancel => ((t.outstanding c).toList.map fun _ => .ended .withdrawn, t.cancel c)

/-- What happened, with the channel that it happened on. -/
abbrev Log := List (Channel × Event)

/-- The events on one channel. -/
def Log.on (log : Log) (c : Channel) : List Event :=
  log.filterMap fun (d, e) => if d = c then some e else none

/-- Serves requests on both channels one after the other: the log, and the transport after it. -/
def serveAll (t : Transport) (calls : List (Channel × Request)) : Log × Transport :=
  let step := fun (t : Transport) (call : Channel × Request) =>
    let (events, next) := t.serve call.1 call.2
    (events.map (call.1, ·), next)
  let (logs, final) := runAll step t calls
  (logs.flatten, final)

/-- The transport after a request. -/
def Request.apply (t : Transport) (c : Channel) : Request → Transport
  | .commit payload _ => (t.commit c payload).toOption.getD t
  | .acknowledge sum => t.acknowledge c sum
  | .tick connected _ => t.afterTurn c connected
  | .cancel => t.cancel c

/-- The message that a request gets accepted: the one it commits, if the transport answers with
success. -/
def Request.accepted? (t : Transport) (c : Channel) : Request → Option Bytes
  | .commit payload _ => (t.commit c payload).toOption.map fun _ => payload
  | _ => none

/-- The messages that the calls on one channel get accepted, in order. -/
def accepted (t : Transport) (c : Channel) : List (Channel × Request) → List Bytes
  | [] => []
  | (d, request) :: rest =>
    (if d = c then (request.accepted? t c).toList else []) ++ accepted (request.apply t d) c rest

/-- The payloads that were committed, in order. -/
def committed (events : List Event) : List Bytes :=
  events.filterMap fun
    | .committed payload => some payload
    | _ => none

/-- The payloads that were handed to the link, in order. -/
def sent (events : List Event) : List Bytes :=
  events.filterMap fun
    | .sent payload _ => some payload
    | _ => none

/-! ## Lives -/

/-- A message from its commit on. -/
structure Life where
  payload : Bytes
  /-- What the link made of each copy. -/
  copies : List Bool
  /-- How the message ended, if it did. -/
  ending : Option Ending

/-- The events of a life, in order. -/
def Life.events (l : Life) : List Event :=
  .committed l.payload :: (l.copies.map (.sent l.payload) ++ l.ending.toList.map .ended)

theorem sent_lives (lives : List Life) :
    sent (lives.flatMap Life.events) =
      lives.flatMap fun l => List.replicate l.copies.length l.payload := by
  have hcopies (payload : Bytes) (copies : List Bool) :
      sent (copies.map (.sent payload)) = List.replicate copies.length payload := by
    induction copies with
    | nil => rfl
    | cons taken rest ih => exact congrArg (payload :: ·) ih
  have hended (ending : Option Ending) : sent (ending.toList.map .ended) = [] := by
    cases ending with
    | none => rfl
    | some how => rfl
  induction lives with
  | nil => rfl
  | cons l rest ih =>
    calc sent ((l :: rest).flatMap Life.events)
        = sent (l.copies.map (.sent l.payload)) ++ sent (l.ending.toList.map .ended) ++
            sent (rest.flatMap Life.events) := by
          simp only [sent, Life.events, List.flatMap_cons, List.cons_append, List.filterMap_cons,
            List.filterMap_append]
      _ = _ := by rw [hcopies, hended, ih, List.append_nil, List.flatMap_cons]

theorem committed_lives (lives : List Life) :
    committed (lives.flatMap Life.events) = lives.map Life.payload := by
  have hcopies (payload : Bytes) (copies : List Bool) :
      committed (copies.map (.sent payload)) = [] := by
    induction copies with
    | nil => rfl
    | cons taken rest ih => exact ih
  have hended (ending : Option Ending) : committed (ending.toList.map .ended) = [] := by
    cases ending with
    | none => rfl
    | some how => rfl
  induction lives with
  | nil => rfl
  | cons l rest ih =>
    calc committed ((l :: rest).flatMap Life.events)
        = l.payload :: (committed (l.copies.map (.sent l.payload)) ++
            committed (l.ending.toList.map .ended) ++ committed (rest.flatMap Life.events)) := by
          simp only [committed, Life.events, List.flatMap_cons, List.cons_append,
            List.filterMap_cons, List.filterMap_append]
      _ = _ := by rw [hcopies, hended, ih, List.map_cons]; rfl

/-- The life of the message in the slot is open; a free slot has none. -/
inductive Waiting (retries : Nat) : Option Outstanding → Option Life → Prop
  | free : Waiting retries none none
  /-- Every copy but the first has used up a retry. -/
  | outstanding {o : Outstanding} {l : Life} : l.ending = none → o.payload.bytes = l.payload →
      1 ≤ l.copies.length → l.copies.length + o.retries = 1 + retries →
      Waiting retries (some o) (some l)

/-- The events on a channel are the lives of past messages, and the life of the one in its slot. -/
structure Lived (retries : Nat) (events : List Event) (slot : Option Outstanding)
    (past : List Life) (present : Option Life) : Prop where
  events_eq : events = (past ++ present.toList).flatMap Life.events
  ended : ∀ l ∈ past, l.ending.isSome ∧ 1 ≤ l.copies.length ∧ l.copies.length ≤ 1 + retries
  waiting : Waiting retries slot present

/-! ## When a message is accepted -/

section Requests

variable {t : Transport} {c : Channel}

theorem eq_of_commit {payload : Bytes} {next : Transport} (h : t.commit c payload = .ok next) :
    t.outstanding c = none ∧ payload ≠ [] ∧ ∃ held : Buffer 32, held.bytes = payload ∧
      next = t.withSlot c (some ⟨held, none, t.settings.timeout, t.settings.retries⟩) := by
  unfold commit at h
  split at h
  · cases h
  · rename_i hbusy
    have hfree : t.outstanding c = none := by
      simpa only [isFree, Bool.not_eq_false, Option.isNone_iff_eq_none] using hbusy
    split at h
    · cases h
    · rename_i hne
      cases hheld : (Buffer.ofBytes? payload : Option (Buffer 32)) with
      | none => rw [hheld] at h; cases h
      | some held =>
        rw [hheld] at h
        cases h
        exact ⟨hfree, hne, held, (Buffer.ofBytes?_eq_some_iff.mp hheld).symm, rfl⟩

theorem commit_of_free {payload : Bytes} (hfree : t.outstanding c = none) (hpos : 1 ≤ payload.length)
    (hmax : payload.length ≤ 32) :
    t.commit c payload =
      .ok (t.withSlot c (some ⟨⟨payload, hmax⟩, none, t.settings.timeout, t.settings.retries⟩)) := by
  have hfree' : ¬ t.isFree c = false := by rw [isFree, hfree]; exact nofun
  have hheld : Buffer.ofBytes? payload = some (⟨payload, hmax⟩ : Buffer 32) :=
    Buffer.ofBytes?_of_le hmax
  rw [commit, if_neg hfree', if_neg (List.ne_nil_of_length_pos hpos), hheld]

theorem outstanding_commit {payload : Bytes} {next : Transport}
    (h : t.commit c payload = .ok next) :
    t.outstanding c = none ∧ payload ≠ [] ∧ next.settings = t.settings ∧
      ∃ o : Outstanding, next = t.withSlot c (some o) ∧ o.payload.bytes = payload ∧
        o.retries = t.settings.retries := by
  obtain ⟨hfree, hne, held, rfl, rfl⟩ := eq_of_commit h
  exact ⟨hfree, hne, rfl, _, rfl, rfl, rfl⟩

/-- **When a message is accepted**: the channel has nothing outstanding and the message has 1 to 32
bytes. -/
theorem exists_commit_iff {payload : Bytes} :
    (∃ next, t.commit c payload = .ok next) ↔
      t.outstanding c = none ∧ 1 ≤ payload.length ∧ payload.length ≤ 32 := by
  constructor
  · rintro ⟨next, h⟩
    obtain ⟨hfree, hne, -, o, -, rfl, -⟩ := outstanding_commit h
    exact ⟨hfree, List.length_pos_iff.mpr hne, o.payload.fits⟩
  · rintro ⟨hfree, hpos, hmax⟩
    exact ⟨_, commit_of_free hfree hpos hmax⟩

/-- **A request leaves the other channel alone**, and the settings. -/
theorem serve_frame (t : Transport) (c : Channel) (request : Request) :
    (t.serve c request).2.settings = t.settings ∧
      ∀ d, d ≠ c → (t.serve c request).2.outstanding d = t.outstanding d := by
  cases request with
  | acknowledge sum => exact ⟨rfl, fun d hd => outstanding_withSlot_of_ne _ _ hd⟩
  | tick connected taken => exact ⟨rfl, fun d hd => outstanding_withSlot_of_ne _ _ hd⟩
  | cancel => exact ⟨rfl, fun d hd => outstanding_withSlot_of_ne _ _ hd⟩
  | commit payload taken =>
    rw [serve]
    cases h : t.commit c payload with
    | error e => exact ⟨rfl, fun _ _ => rfl⟩
    | ok next =>
      obtain ⟨-, -, hsettings, o, rfl, -, -⟩ := outstanding_commit h
      exact ⟨hsettings, fun d hd => outstanding_withSlot_of_ne _ _ hd⟩

end Requests

/-! ## What is accepted -/

section Accepted

variable (t : Transport) (c : Channel) (request : Request)

theorem serve_snd : (t.serve c request).2 = request.apply t c := by
  cases request with
  | commit payload taken =>
    rw [serve, Request.apply]
    cases t.commit c payload with
    | error e => rfl
    | ok next => rfl
  | acknowledge sum => rfl
  | tick connected taken => rfl
  | cancel => rfl

/-- A commit is logged when the call is answered with success, and only then. -/
theorem committed_serve : committed (t.serve c request).1 = (request.accepted? t c).toList := by
  cases request with
  | commit payload taken =>
    rw [serve, Request.accepted?]
    cases t.commit c payload with
    | error e => rfl
    | ok next => rfl
  | acknowledge sum => rfl
  | tick connected taken =>
    rw [serve, committed, List.filterMap_append]
    cases (t.turn c connected).resend <;> cases (t.turn c connected).delivery <;> rfl
  | cancel =>
    rw [serve]
    cases t.outstanding c <;> rfl

end Accepted

/-! ## What a request does to the lives -/

section Step

variable {retries : Nat} {events : List Event} {past : List Life} {o : Outstanding}

/-- A commit on a free channel opens a life. -/
theorem Lived.commit {present : Option Life} (h : Lived retries events none past present)
    (taken : Bool) (hretries : o.retries = retries) :
    ∃ present', Lived retries
      (events ++ [.committed o.payload.bytes, .sent o.payload.bytes taken]) (some o) past present' := by
  obtain ⟨hevents, hended, hwaiting⟩ := h
  cases hwaiting
  refine ⟨some ⟨o.payload.bytes, [taken], none⟩, ?_, hended, .outstanding rfl rfl ?_ ?_⟩
  · rw [hevents, Option.toList_none, List.append_nil, List.flatMap_append]
    rfl
  · exact Nat.le_refl 1
  · rw [hretries, List.length_singleton]

/-- An end closes the life of the message in the slot. -/
theorem Lived.close {present : Option Life} (h : Lived retries events (some o) past present)
    (how : Ending) : ∃ past', Lived retries (events ++ [.ended how]) none past' none := by
  obtain ⟨hevents, hended, hwaiting⟩ := h
  cases hwaiting with
  | @outstanding _ l hopen hpayload hpos hcopies =>
    let closed : Life := { l with ending := some how }
    refine ⟨past ++ [closed], ?_, ?_, .free⟩
    · simp only [hevents, Option.toList_some, Option.toList_none, List.append_nil,
        List.flatMap_append, List.flatMap_singleton, Life.events, hopen, closed, List.map_nil,
        List.map_cons, List.append_assoc, List.cons_append]
    · intro l' hl'
      rcases List.mem_append.mp hl' with hl' | hl'
      · exact hended l' hl'
      · obtain rfl := List.mem_singleton.mp hl'
        exact ⟨rfl, hpos, by show l.copies.length ≤ _; omega⟩

/-- A copy that is sent again lengthens the life, at the cost of a retry. -/
theorem Lived.resend {present : Option Life} (h : Lived retries events (some o) past present)
    (o' : Outstanding) (taken : Bool) (hpayload : o'.payload = o.payload)
    (hretries : o'.retries + 1 = o.retries) :
    ∃ present', Lived retries (events ++ [.sent o.payload.bytes taken]) (some o') past present' := by
  obtain ⟨hevents, hended, hwaiting⟩ := h
  cases hwaiting with
  | @outstanding _ l hopen hbytes hpos hcopies =>
    refine ⟨some { l with copies := l.copies ++ [taken] }, ?_, hended, .outstanding hopen ?_ ?_ ?_⟩
    · simp only [hevents, Option.toList_some, List.flatMap_append, List.flatMap_singleton,
        Life.events, hopen, hbytes, Option.toList_none, List.map_nil, List.append_nil,
        List.map_append, List.map_cons, List.append_assoc, List.cons_append]
    · rw [hpayload, hbytes]
    · simp only [List.length_append]
      omega
    · simp only [List.length_append, List.length_singleton]
      omega

/-- A message that only waits, with nothing to show. -/
theorem Lived.wait {present : Option Life} (h : Lived retries events (some o) past present)
    (o' : Outstanding) (hpayload : o'.payload = o.payload) (hretries : o'.retries = o.retries) :
    Lived retries events (some o') past present := by
  obtain ⟨hevents, hended, hwaiting⟩ := h
  refine ⟨hevents, hended, ?_⟩
  cases hwaiting with
  | outstanding hopen hbytes hpos hcopies =>
    exact .outstanding hopen (by rw [hpayload, hbytes]) hpos (by rw [hretries, hcopies])

/-- What a tick does with an outstanding message, on the lives of its channel. -/
theorem Lived.turn {present : Option Life} (h : Lived retries events (some o) past present)
    (settings : RetrySettings) (connected taken : Bool) :
    let turn := o.turn settings connected
    ∃ past' present', Lived retries
      (events ++ (turn.resend.toList.map (.sent · taken) ++
        turn.delivery.toList.map fun how => .ended (.delivery how))) turn.slot past' present' := by
  unfold Outstanding.turn
  split
  · obtain ⟨past', h'⟩ := h.close (.delivery .cancelled)
    exact ⟨past', none, h'⟩
  · split
    · obtain ⟨past', h'⟩ := h.close (.delivery .confirmed)
      exact ⟨past', none, h'⟩
    · split
      · refine ⟨past, present, ?_⟩
        rw [Option.toList_none, Option.toList_none, List.map_nil, List.map_nil, List.append_nil,
          List.append_nil]
        exact h.wait { o with wait := o.wait - 1 } rfl rfl
      · split
        · obtain ⟨past', h'⟩ := h.close (.delivery .gaveUp)
          exact ⟨past', none, h'⟩
        · rename_i hretries
          let again : Outstanding := { o with wait := settings.timeout, retries := o.retries - 1 }
          have hless : again.retries + 1 = o.retries :=
            Nat.sub_add_cancel (Nat.one_le_iff_ne_zero.mpr hretries)
          obtain ⟨present', h'⟩ := h.resend again taken rfl hless
          exact ⟨past, present', h'⟩

/-- **Every request keeps the cut into lives.** -/
theorem Lived.serve {t : Transport} {c : Channel} {present : Option Life}
    (h : Lived t.settings.retries events (t.outstanding c) past present) (request : Request) :
    ∃ past' present', Lived t.settings.retries (events ++ (t.serve c request).1)
      ((t.serve c request).2.outstanding c) past' present' := by
  cases request with
  | commit payload taken =>
    rw [Transport.serve]
    cases hcommit : t.commit c payload with
    | error e => exact ⟨past, present, by simpa using h⟩
    | ok next =>
      obtain ⟨hfree, -, -, o, rfl, rfl, hretries⟩ := outstanding_commit hcommit
      rw [hfree] at h
      obtain ⟨present', h'⟩ := h.commit taken hretries
      exact ⟨past, present', by rw [outstanding_withSlot_self]; exact h'⟩
  | acknowledge sum =>
    refine ⟨past, present, ?_⟩
    rw [Transport.serve, acknowledge, outstanding_withSlot_self, List.append_nil]
    cases hslot : t.outstanding c with
    | none => rwa [hslot] at h
    | some o =>
      rw [hslot] at h
      exact h.wait { o with echoed := some sum } rfl rfl
  | tick connected taken =>
    rw [Transport.serve, afterTurn, outstanding_withSlot_self, Transport.turn]
    cases hslot : t.outstanding c with
    | none =>
      rw [hslot] at h
      exact ⟨past, present, by simpa using h⟩
    | some o =>
      rw [hslot] at h
      exact h.turn t.settings connected taken
  | cancel =>
    rw [Transport.serve, cancel, outstanding_withSlot_self]
    cases hslot : t.outstanding c with
    | none =>
      rw [hslot] at h
      exact ⟨past, present, by simpa using h⟩
    | some o =>
      rw [hslot] at h
      obtain ⟨past', h'⟩ := h.close .withdrawn
      exact ⟨past', none, h'⟩

end Step

/-! ## A whole session -/

@[simp] theorem serveAll_nil (t : Transport) : t.serveAll [] = ([], t) := rfl

theorem serveAll_cons (t : Transport) (c : Channel) (request : Request)
    (rest : List (Channel × Request)) :
    t.serveAll ((c, request) :: rest) =
      ((t.serve c request).1.map (c, ·) ++ ((t.serve c request).2.serveAll rest).1,
        ((t.serve c request).2.serveAll rest).2) := rfl

theorem Log.on_append (first second : Log) (c : Channel) :
    Log.on (first ++ second) c = first.on c ++ second.on c := List.filterMap_append

theorem Log.on_self (events : List Event) (c : Channel) :
    Log.on (events.map (c, ·)) c = events := by
  induction events with
  | nil => rfl
  | cons e rest ih =>
    have hfirst : Log.on ((c, e) :: rest.map (c, ·)) c = e :: Log.on (rest.map (c, ·)) c := by
      simp [Log.on]
    exact hfirst.trans (congrArg (e :: ·) ih)

theorem Log.on_of_ne (events : List Event) {c d : Channel} (h : d ≠ c) :
    Log.on (events.map (d, ·)) c = [] := by
  simp [Log.on, h]

theorem serveAll_snd (t : Transport) (calls : List (Channel × Request)) :
    (t.serveAll calls).2 = calls.foldl (fun t call => call.2.apply t call.1) t := by
  induction calls generalizing t with
  | nil => rfl
  | cons call rest ih =>
    obtain ⟨d, request⟩ := call
    rw [serveAll_cons, ih, serve_snd]
    rfl

/-- **The commits of a log are the calls that succeeded.** -/
theorem committed_serveAll (t : Transport) (c : Channel) (calls : List (Channel × Request)) :
    committed ((t.serveAll calls).1.on c) = accepted t c calls := by
  induction calls generalizing t with
  | nil => rfl
  | cons call rest ih =>
    obtain ⟨d, request⟩ := call
    rw [serveAll_cons, Log.on_append, committed, List.filterMap_append, accepted, ← serve_snd, ← ih]
    by_cases hd : d = c
    · subst hd
      rw [Log.on_self, if_pos rfl, ← committed_serve]
      rfl
    · rw [Log.on_of_ne _ hd, if_neg hd]
      rfl

theorem lived_serveAll {t : Transport} {c : Channel} {events : List Event} {past : List Life}
    {present : Option Life}
    (h : Lived t.settings.retries events (t.outstanding c) past present)
    (calls : List (Channel × Request)) :
    ∃ past' present', Lived t.settings.retries (events ++ (t.serveAll calls).1.on c)
      ((t.serveAll calls).2.outstanding c) past' present' := by
  induction calls generalizing t events past present with
  | nil => exact ⟨past, present, by simpa [Log.on] using h⟩
  | cons call rest ih =>
    obtain ⟨d, request⟩ := call
    obtain ⟨hsettings, hother⟩ := serve_frame t d request
    rw [serveAll_cons, Log.on_append, ← hsettings]
    by_cases hd : d = c
    · subst hd
      obtain ⟨past', present', h'⟩ := h.serve request
      rw [← hsettings] at h'
      obtain ⟨past'', present'', h''⟩ := ih h'
      exact ⟨past'', present'', by rwa [Log.on_self, ← List.append_assoc]⟩
    · rw [← hsettings, ← hother c (Ne.symm hd)] at h
      rw [Log.on_of_ne _ hd]
      exact ih h

/-- What the cut into lives says of the channel as a whole. -/
theorem Lived.laws {retries : Nat} {events : List Event} {slot : Option Outstanding}
    {past : List Life} {present : Option Life} (h : Lived retries events slot past present) :
    let lives := past ++ present.toList
    events = lives.flatMap Life.events ∧ committed events = lives.map Life.payload ∧
      sent events = lives.flatMap (fun l => List.replicate l.copies.length l.payload) ∧
      (∀ l ∈ lives, 1 ≤ l.copies.length ∧ l.copies.length ≤ 1 + retries) ∧
      (∀ l ∈ past, l.ending.isSome) ∧ (∀ l ∈ present, l.ending = none) ∧
      slot.map (·.payload.bytes) = present.map Life.payload := by
  obtain ⟨rfl, hended, hwaiting⟩ := h
  refine ⟨rfl, committed_lives _, sent_lives _, fun l hl => ?_, fun l hl => (hended l hl).1, ?_⟩
  · rcases List.mem_append.mp hl with hl | hl
    · exact (hended l hl).2
    · cases hwaiting with
      | free => cases hl
      | outstanding hopen hbytes hpos hcopies =>
        obtain rfl := List.mem_singleton.mp hl
        exact ⟨hpos, by omega⟩
  · cases hwaiting with
    | free => exact ⟨nofun, rfl⟩
    | outstanding hopen hbytes hpos hcopies =>
      refine ⟨fun l hl => ?_, congrArg some hbytes⟩
      cases hl
      exact hopen

/-- **The log of a channel is a list of lives.** Whatever is asked of the transport on its two
channels, in whatever order, and whatever their links do meanwhile: each life begins with a commit,
goes on with its copies, one at least and no more than one and the retries, and ends before the next
begins. The commits are those of the calls that were answered with success. Only the last life may be
open, and its message is then the one outstanding. A message is accepted on a channel that has none,
when it has 1 to 32 bytes; and a request on one channel leaves the other as it was. -/
theorem log_eq_lives (settings : RetrySettings) (calls : List (Channel × Request)) (c : Channel) :
    let log := (serveAll { settings } calls).1.on c
    let t := (serveAll { settings } calls).2
    (∃ (past : List Life) (present : Option Life),
      let lives := past ++ present.toList
      log = lives.flatMap Life.events ∧ committed log = lives.map Life.payload ∧
        sent log = lives.flatMap (fun l => List.replicate l.copies.length l.payload) ∧
        (∀ l ∈ lives, 1 ≤ l.copies.length ∧ l.copies.length ≤ 1 + settings.retries) ∧
        (∀ l ∈ past, l.ending.isSome) ∧ (∀ l ∈ present, l.ending = none) ∧
        (t.outstanding c).map (·.payload.bytes) = present.map Life.payload) ∧
      committed log = accepted { settings } c calls ∧
      t = calls.foldl (fun t call => call.2.apply t call.1) { settings } ∧
      (∀ payload, (∃ next, t.commit c payload = .ok next) ↔
        t.outstanding c = none ∧ 1 ≤ payload.length ∧ payload.length ≤ 32) ∧
      ∀ request d, d ≠ c → (t.serve c request).2.outstanding d = t.outstanding d := by
  intro log t
  have fresh : Lived settings.retries [] (outstanding { settings } c) [] none :=
    ⟨rfl, nofun, by cases c <;> exact .free⟩
  obtain ⟨past, present, lived⟩ := lived_serveAll (t := { settings }) fresh calls
  exact ⟨⟨past, present, lived.laws⟩, committed_serveAll { settings } c calls,
    serveAll_snd { settings } calls, fun payload => exists_commit_iff,
    fun request => (serve_frame t c request).2⟩

/-- A message with one retry, whose second copy the link refuses, is given up. -/
example : (serveAll { settings := ⟨0, 1⟩ } [(.usb, .commit [7] true), (.usb, .tick true false),
    (.bluetooth, .cancel), (.usb, .tick true true)]).1 =
    [(.usb, .committed [7]), (.usb, .sent [7] true), (.usb, .sent [7] false),
      (.usb, .ended (.delivery .gaveUp))] := by
  decide

end RoomControl.Transport
