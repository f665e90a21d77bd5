import RoomControl.Proofs.Outbound.Lives

/-!
# When a message is sent again

While the link stays connected an outstanding message is only echoed and ticked. Two counters run
down in it: the ticks of the present wait, and the retries. `Outstanding.left` is what they come to
together, the ticks that pass before the one that gives up. `turn_of_unechoed` is the whole use of
it: a tick takes one off, and a copy goes out whenever what was left is a multiple of a wait.

`retry_schedule` counts from the commit instead. The present echo alone confirms the message, however
many others came before it; without it the tick that gives up and those that send again are told by
their number.
-/

set_option autoImplicit false

namespace RoomControl

namespace Outstanding

/-- The ticks that pass before the one that gives up, unless the echo comes. -/
def left (o : Outstanding) (timeout : Nat) : Nat := o.retries * (timeout + 1) + o.wait

/-- A wait is over when what is left is a multiple of its length. -/
theorem dvd_left_iff {o : Outstanding} {timeout : Nat} (hwait : o.wait ≤ timeout) :
    timeout + 1 ∣ o.left timeout ↔ o.wait = 0 := by
  rw [left, Nat.dvd_add_right (Nat.dvd_mul_left _ _)]
  constructor
  · intro hdvd
    exact Nat.eq_zero_of_dvd_of_lt hdvd (Nat.lt_succ_of_le hwait)
  · rintro hzero
    rw [hzero]
    exact Nat.dvd_zero _

/-- **A tick without the echo** gives up when nothing is left; else it takes one off what is left,
and sends the message again at the end of a wait. -/
theorem turn_of_unechoed {o : Outstanding} {settings : RetrySettings}
    (hwait : o.wait ≤ settings.timeout) (hecho : ¬ o.IsEchoed) :
    o.left settings.timeout = 0 ∧ o.turn settings true = { delivery := some .gaveUp } ∨
      ∃ o' : Outstanding, o.left settings.timeout = o'.left settings.timeout + 1 ∧
        o'.payload = o.payload ∧ o'.echoed = o.echoed ∧ o'.wait ≤ settings.timeout ∧
        o.turn settings true =
          { resend := if settings.timeout + 1 ∣ o.left settings.timeout then some o.payload.bytes
              else none
            slot := some o' } := by
  have hturn : o.turn settings true =
      if o.wait > 0 then { slot := some { o with wait := o.wait - 1 } }
      else if o.retries = 0 then { delivery := some .gaveUp }
      else
        { resend := some o.payload.bytes
          slot := some { o with wait := settings.timeout, retries := o.retries - 1 } } := by
    rw [turn, if_neg Bool.true_eq_false.mp, if_neg hecho]
  rw [hturn]
  by_cases hover : o.wait = 0
  · rw [if_neg (by omega), if_pos ((dvd_left_iff hwait).mpr hover)]
    by_cases hretries : o.retries = 0
    · refine .inl ⟨?_, if_pos hretries⟩
      rw [left, hretries, hover, Nat.zero_mul]
    · refine .inr ⟨{ o with wait := settings.timeout, retries := o.retries - 1 }, ?_, rfl, rfl,
        Nat.le_refl _, if_neg hretries⟩
      obtain ⟨n, hn⟩ := Nat.exists_eq_succ_of_ne_zero hretries
      simp only [left, hn, hover, Nat.succ_eq_add_one, Nat.add_sub_cancel, Nat.succ_mul]
      omega
  · rw [if_pos (by omega), if_neg (mt (dvd_left_iff hwait).mp hover)]
    refine .inr ⟨{ o with wait := o.wait - 1 }, ?_, rfl, rfl, ?_, rfl⟩
    · simp only [left]
      omega
    · exact Nat.le_trans (Nat.sub_le _ _) hwait

end Outstanding

namespace Transport

/-! ## While the link is connected -/

/-- The request leaves a message to wait on: an echo arrives, or a tick finds the link connected. -/
def Request.LetsWait : Request → Prop
  | .acknowledge _ => True
  | .tick connected _ => connected = true
  | .commit _ _ | .cancel => False

instance : DecidablePred Request.LetsWait
  | .acknowledge _ => inferInstanceAs (Decidable True)
  | .tick connected _ => inferInstanceAs (Decidable (connected = true))
  | .commit _ _ | .cancel => inferInstanceAs (Decidable False)

/-- How many ticks a channel has had. -/
def ticksOn (c : Channel) (calls : List (Channel × Request)) : Nat :=
  calls.countP fun
    | (d, .tick _ _) => d = c
    | _ => false

/-- The sum that was echoed last on a channel. -/
def lastEcho (c : Channel) (calls : List (Channel × Request)) : Option UInt8 :=
  (calls.filterMap fun
    | (d, .acknowledge sum) => if d = c then some sum else none
    | _ => none).getLast?

section Calls

variable {c : Channel} {d : Channel} (calls : List (Channel × Request))

theorem ticksOn_tick (connected taken : Bool) :
    ticksOn c (calls ++ [(c, .tick connected taken)]) = ticksOn c calls + 1 := by
  simp [ticksOn]

theorem ticksOn_acknowledge (sum : UInt8) :
    ticksOn c (calls ++ [(d, .acknowledge sum)]) = ticksOn c calls := by
  simp [ticksOn]

theorem ticksOn_of_ne (h : d ≠ c) (request : Request) :
    ticksOn c (calls ++ [(d, request)]) = ticksOn c calls := by
  cases request <;> simp [ticksOn, h]

theorem lastEcho_acknowledge (sum : UInt8) :
    lastEcho c (calls ++ [(c, .acknowledge sum)]) = some sum := by
  simp [lastEcho]

theorem lastEcho_tick (connected taken : Bool) :
    lastEcho c (calls ++ [(d, .tick connected taken)]) = lastEcho c calls := by
  simp [lastEcho]

theorem lastEcho_of_ne (h : d ≠ c) (request : Request) :
    lastEcho c (calls ++ [(d, request)]) = lastEcho c calls := by
  cases request <;> simp [lastEcho, h]

end Calls

/-- A message that is still outstanding after these calls, in step with their number. -/
structure Scheduled (settings : RetrySettings) (payload : Bytes) (c : Channel)
    (calls : List (Channel × Request)) (o : Outstanding) : Prop where
  payload_eq : o.payload.bytes = payload
  echoed_eq : o.echoed = lastEcho c calls
  wait_le : o.wait ≤ settings.timeout
  left_eq : ticksOn c calls + o.left settings.timeout + 1 =
    (settings.retries + 1) * (settings.timeout + 1)

theorem Scheduled.isEchoed_iff {settings : RetrySettings} {payload : Bytes} {c : Channel}
    {calls : List (Channel × Request)} {o : Outstanding}
    (h : Scheduled settings payload c calls o) :
    o.IsEchoed ↔ lastEcho c calls = some (additiveSum payload) := by
  rw [Outstanding.IsEchoed, Outstanding.expected, h.payload_eq, h.echoed_eq]

/-- A commit starts the schedule. -/
theorem scheduled_commit {t next : Transport} {c : Channel} {payload : Bytes}
    (h : t.commit c payload = .ok next) :
    next.settings = t.settings ∧
      ∃ o, next.outstanding c = some o ∧ Scheduled t.settings payload c [] o := by
  obtain ⟨-, -, held, hheld, rfl⟩ := eq_of_commit h
  refine ⟨rfl, _, outstanding_withSlot_self .., ⟨hheld, rfl, Nat.le_refl _, ?_⟩⟩
  simp only [Outstanding.left, ticksOn, List.countP_nil, Nat.succ_mul]
  omega

section Step

variable {t : Transport} {c : Channel} {payload : Bytes} {calls : List (Channel × Request)}
  {o : Outstanding}

/-- **A call keeps the schedule** of a message that is outstanding before and after it. -/
theorem Scheduled.serve (h : Scheduled t.settings payload c calls o)
    (hslot : t.outstanding c = some o) {call : Channel × Request}
    (hwaits : call.1 = c → call.2.LetsWait) {o' : Outstanding}
    (hslot' : (t.serve call.1 call.2).2.outstanding c = some o') :
    Scheduled t.settings payload c (calls ++ [call]) o' := by
  obtain ⟨d, request⟩ := call
  by_cases hd : d = c
  · subst hd
    have hwaits := hwaits rfl
    cases request with
    | commit payload taken => exact hwaits.elim
    | cancel => exact hwaits.elim
    | acknowledge sum =>
      rw [Transport.serve, acknowledge, outstanding_withSlot_self, hslot] at hslot'
      cases hslot'
      refine ⟨h.payload_eq, ?_, h.wait_le, ?_⟩
      · rw [lastEcho_acknowledge]
      · rw [ticksOn_acknowledge]
        exact h.left_eq
    | tick connected taken =>
      cases (show connected = true from hwaits)
      rw [Transport.serve, afterTurn, outstanding_withSlot_self, Transport.turn, hslot] at hslot'
      dsimp only at hslot'
      by_cases hecho : o.IsEchoed
      · rw [Outstanding.turn, if_neg Bool.true_eq_false.mp, if_pos hecho] at hslot'
        cases hslot'
      · rcases Outstanding.turn_of_unechoed h.wait_le hecho with ⟨-, hturn⟩ |
          ⟨next, hleft, hpayload, hechoed, hwait, hturn⟩
        · rw [hturn] at hslot'
          cases hslot'
        · rw [hturn] at hslot'
          cases hslot'
          refine ⟨by rw [hpayload, h.payload_eq], ?_, hwait, ?_⟩
          · rw [lastEcho_tick, hechoed, h.echoed_eq]
          · rw [ticksOn_tick, ← h.left_eq, hleft]
            omega
  · rw [(serve_frame t d request).2 c (Ne.symm hd), hslot] at hslot'
    cases hslot'
    refine ⟨h.payload_eq, ?_, h.wait_le, ?_⟩
    · rw [lastEcho_of_ne _ hd, h.echoed_eq]
    · rw [ticksOn_of_ne _ hd, h.left_eq]

/-- Nothing becomes outstanding without a commit. -/
theorem outstanding_serve_of_none (hslot : t.outstanding c = none) {call : Channel × Request}
    (hwaits : call.1 = c → call.2.LetsWait) : (t.serve call.1 call.2).2.outstanding c = none := by
  obtain ⟨d, request⟩ := call
  by_cases hd : d = c
  · subst hd
    have hwaits := hwaits rfl
    cases request with
    | commit payload taken => exact hwaits.elim
    | cancel => exact hwaits.elim
    | acknowledge sum => rw [Transport.serve, acknowledge, outstanding_withSlot_self, hslot]; rfl
    | tick connected taken =>
      rw [Transport.serve, afterTurn, outstanding_withSlot_self, Transport.turn, hslot]
  · rw [(serve_frame t d request).2 c (Ne.symm hd), hslot]

end Step

theorem outstanding_serveAll_of_none {t : Transport} {c : Channel}
    (hslot : t.outstanding c = none) (more : List (Channel × Request))
    (hwaits : ∀ call ∈ more, call.1 = c → call.2.LetsWait) :
    (t.serveAll more).2.outstanding c = none := by
  induction more generalizing t with
  | nil => exact hslot
  | cons call rest ih =>
    exact ih (outstanding_serve_of_none hslot (hwaits call List.mem_cons_self))
      fun call' hcall' => hwaits call' (List.mem_cons_of_mem call hcall')

/-- **A run keeps the schedule** of a message for as long as it is outstanding. -/
theorem Scheduled.serveAll {t : Transport} {c : Channel} {payload : Bytes}
    {calls : List (Channel × Request)} {o : Outstanding}
    (h : Scheduled t.settings payload c calls o) (hslot : t.outstanding c = some o)
    (more : List (Channel × Request)) (hwaits : ∀ call ∈ more, call.1 = c → call.2.LetsWait)
    {o' : Outstanding} (hslot' : (t.serveAll more).2.outstanding c = some o') :
    Scheduled t.settings payload c (calls ++ more) o' := by
  induction more generalizing t calls o with
  | nil =>
    cases hslot.symm.trans hslot'
    rwa [List.append_nil]
  | cons call rest ih =>
    have hcall := hwaits call List.mem_cons_self
    have hrest := fun call' hcall' => hwaits call' (List.mem_cons_of_mem call hcall')
    rw [serveAll_cons t call.1 call.2 rest] at hslot'
    rw [List.append_cons]
    cases hnext : (t.serve call.1 call.2).2.outstanding c with
    | none =>
      rw [outstanding_serveAll_of_none hnext rest hrest] at hslot'
      cases hslot'
    | some next =>
      have hkept := h.serve hslot hcall hnext
      rw [← (serve_frame t call.1 call.2).1] at hkept ⊢
      exact ih hkept hnext hrest hslot'

theorem settings_serveAll (t : Transport) (calls : List (Channel × Request)) :
    (t.serveAll calls).2.settings = t.settings := by
  induction calls generalizing t with
  | nil => rfl
  | cons call rest ih => exact (ih _).trans (serve_frame t call.1 call.2).1

/-- **The retry schedule.** A message is committed on a channel, and then this channel has nothing but
echoes and ticks of a connected link, in any order, while the other channel has anything. As long as
the message is outstanding, the tick that comes next is number `k` at most
`(retries + 1) * (timeout + 1)`. It confirms the message when the sum that was echoed last is that of
the message. Else the last of these ticks gives the message up, every other multiple of `timeout + 1`
sends it again, and no other tick does anything. The message stays outstanding after all ticks but
those which confirm it or give it up. -/
theorem retry_schedule {t next : Transport} {c : Channel} {payload : Bytes}
    (hcommit : t.commit c payload = .ok next) (calls : List (Channel × Request))
    (hwaits : ∀ call ∈ calls, call.1 = c → call.2.LetsWait)
    (hslot : ((next.serveAll calls).2.outstanding c).isSome) (taken : Bool) :
    let k := ticksOn c calls + 1
    let last := (t.settings.retries + 1) * (t.settings.timeout + 1)
    let confirmed := lastEcho c calls = some (additiveSum payload)
    let (events, after) := (next.serveAll calls).2.serve c (.tick true taken)
    k ≤ last ∧
      events =
        (if confirmed then [.ended (.delivery .confirmed)]
        else if k = last then [.ended (.delivery .gaveUp)]
        else if t.settings.timeout + 1 ∣ k then [.sent payload taken]
        else []) ∧
      ((after.outstanding c).isSome ↔ ¬ confirmed ∧ k < last) := by
  intro k last confirmed
  obtain ⟨hsettings, first, hfirst, hstart⟩ := scheduled_commit hcommit
  obtain ⟨o, ho⟩ := Option.isSome_iff_exists.mp hslot
  rw [← hsettings] at hstart
  have h := hstart.serveAll hfirst calls hwaits ho
  have hsame := (settings_serveAll next calls).trans hsettings
  rw [hsettings, List.nil_append] at h
  have hleft : k + o.left t.settings.timeout = last :=
    (Nat.add_right_comm _ _ _).trans h.left_eq
  have hdvd : t.settings.timeout + 1 ∣ k ↔ t.settings.timeout + 1 ∣ o.left t.settings.timeout := by
    have hlast : t.settings.timeout + 1 ∣ k + o.left t.settings.timeout := by
      rw [hleft]
      exact Nat.dvd_mul_left _ _
    exact ⟨fun hk => (Nat.dvd_add_right hk).mp hlast,
      fun hmore => (Nat.dvd_add_left hmore).mp hlast⟩
  simp only [Transport.serve, afterTurn, outstanding_withSlot_self, Transport.turn, ho, hsame]
  refine ⟨by omega, ?_⟩
  by_cases hecho : o.IsEchoed
  · have hconfirmed : confirmed := h.isEchoed_iff.mp hecho
    rw [Outstanding.turn, if_neg Bool.true_eq_false.mp, if_pos hecho, if_pos hconfirmed]
    exact ⟨rfl, fun hsome => absurd hsome Bool.false_ne_true, fun hopen => absurd hconfirmed hopen.1⟩
  · have hopen : ¬ confirmed := mt h.isEchoed_iff.mpr hecho
    rw [if_neg hopen]
    rcases Outstanding.turn_of_unechoed h.wait_le hecho with ⟨hnone, hturn⟩ |
      ⟨o', hmore, -, -, -, hturn⟩
    · rw [hturn, if_pos (show k = last by omega)]
      exact ⟨rfl, fun hsome => absurd hsome Bool.false_ne_true, fun hk => by omega⟩
    · rw [hturn, if_neg (show k ≠ last by omega)]
      refine ⟨?_, fun _ => ⟨hopen, by omega⟩, fun _ => rfl⟩
      by_cases hwait : t.settings.timeout + 1 ∣ k
      · rw [if_pos hwait, if_pos (hdvd.mp hwait), h.payload_eq]
        rfl
      · rw [if_neg hwait, if_neg (mt hdvd.mpr hwait)]
        rfl

/-- Three ticks of a message with the sum 7, the right echo before the third and another after it. -/
def overtakenEcho : List (Channel × Request) :=
  [(.usb, .tick true true), (.bluetooth, .commit [7] false), (.usb, .tick true false),
    (.usb, .acknowledge 7), (.usb, .acknowledge 8), (.usb, .tick true true), (.bluetooth, .cancel)]

/-- The echo came, but not last: with one retry and waits of two ticks the fourth tick gives up. -/
theorem overtaken_echo_gives_up :
    let t : Transport := { settings := ⟨1, 1⟩ }
    let next := t.withSlot .usb (some ⟨⟨[7], by decide⟩, none, 1, 1⟩)
    t.commit .usb [7] = .ok next ∧ (∀ call ∈ overtakenEcho, call.1 = .usb → call.2.LetsWait) ∧
      ((next.serveAll overtakenEcho).2.outstanding .usb).isSome ∧
      ((next.serveAll overtakenEcho).2.serve .usb (.tick true true)).1 =
        [.ended (.delivery .gaveUp)] := by
  intro t next
  have hcommit : t.commit .usb [7] = .ok next := rfl
  have hwaits : ∀ call ∈ overtakenEcho, call.1 = .usb → call.2.LetsWait := by decide
  have hslot : ((next.serveAll overtakenEcho).2.outstanding .usb).isSome := by decide
  exact ⟨hcommit, hwaits, hslot, (retry_schedule hcommit overtakenEcho hwaits hslot true).2.1⟩

end Transport

end RoomControl
