import RoomControl.Peripherals.Board
import RoomControl.Proofs.Node.History
import RoomControl.Proofs.Node.Output

/-!
# What is reported of a board

A board has outputs, LEDs and display lines that are reported to the peers. `Reported.message` is
the message that tells the present state of one of them. A queue *covers* a part of the board when
it holds an item that will still send its message: one for just this part, or one for the whole list
that has not come to it yet.

`Peripherals.Faithful` is what makes reports meaningful: an action changes nothing but what it
reports. The room board is faithful (`faithful_board`).

The laws here are about single steps. Queueing never uncovers anything, and the report of an action
covers what the action changed, unless the queue is full or the item is taken for a repetition. A
step of dispatch uncovers a part only by sending its message (`fresh_of_dispatch`).
-/

set_option autoImplicit false

namespace RoomControl

/-! ## Parts of a board -/

/-- A part of the board that is reported on its own. -/
inductive Reported where
  | outputs
  | led (index : UInt8)
  | line (index : UInt8)
  deriving DecidableEq, Repr

namespace Reported

def kind : Reported → Kind
  | outputs => .outputs
  | led _ => .led
  | line _ => .displayLine

/-- The element of its list. -/
def index : Reported → Option UInt8
  | outputs => none
  | led i | line i => some i

/-- The same of another element of the list. -/
def withIndex (r : Reported) (i : UInt8) : Reported :=
  match r with
  | outputs => outputs
  | led _ => led i
  | line _ => line i

@[simp] theorem kind_withIndex (r : Reported) (i : UInt8) : (r.withIndex i).kind = r.kind := by
  cases r <;> rfl

theorem index_withIndex {r : Reported} {j : UInt8} (h : r.index = some j) (i : UInt8) :
    (r.withIndex i).index = some i := by
  cases r with
  | outputs => cases h
  | _ => rfl

theorem withIndex_self {r : Reported} {i : UInt8} (h : r.index = some i) : r.withIndex i = r := by
  cases r with
  | outputs => rfl
  | _ =>
    cases h
    rfl

variable {β : Type} [Peripherals β]

/-- The length of its list. -/
def count (b : β) : Reported → UInt8
  | outputs => 0
  | led _ => Peripherals.ledCount b
  | line _ => Peripherals.lineCount b

/-- The board has it. -/
def On (b : β) (r : Reported) : Prop := ∀ i, r.index = some i → i < r.count b

/-- The message that tells its present state. -/
def message (b : β) : Reported → Option Bytes
  | outputs => some (Message.packet .outputs (levelBytes (Peripherals.outputs b)))
  | led i =>
    (Peripherals.led? b i).map fun colour => Message.packet .led (i :: colour.toBytes)
  | line i =>
    (Peripherals.line? b i).map fun text =>
      Message.packet .displayLine (Station.lineBody i.toNat text)

@[simp] theorem count_withIndex (b : β) (r : Reported) (i : UInt8) :
    (r.withIndex i).count b = r.count b := by
  cases r <;> rfl

/-- The message of an element starts, after its head, with the element. -/
theorem getElem?_of_message {b : β} {r : Reported} {i : UInt8} {bytes : Bytes}
    (hindex : r.index = some i) (h : r.message b = some bytes) : bytes[2]? = some i := by
  cases r with
  | outputs => cases hindex
  | led j =>
    cases hindex
    obtain ⟨colour, -, rfl⟩ := Option.map_eq_some_iff.mp h
    rfl
  | line j =>
    cases hindex
    obtain ⟨text, -, rfl⟩ := Option.map_eq_some_iff.mp h
    simp [Message.packet, Station.lineBody]

/-- A successful action changes it. -/
inductive ChangedBy (b : β) : Device → Bytes → Reported → Prop
  | output (pin : UInt8) (value : Bytes) : ChangedBy b (.output pin) value .outputs
  | led (index : UInt8) (value : Bytes) : ChangedBy b (.led index) value (.led index)
  | text (line : UInt8) (text : Bytes) : ChangedBy b .displayMessage (line :: text) (.line line)
  | clear {line : UInt8} (value : Bytes) : line < Peripherals.lineCount b →
      ChangedBy b .displayClear value (.line line)
  | reset {line : UInt8} (value : Bytes) : line < Peripherals.lineCount b →
      ChangedBy b .displayReset value (.line line)

/-- A message of this kind was sent, for this element if the kind is a list. -/
def isAbout (r : Reported) (sent : Kind × Bytes) : Bool :=
  sent.1 = r.kind && r.index.all fun i => sent.2[2]? = some i

/-- The last of the sent messages that is about this part. -/
def lastAbout (r : Reported) (log : List (Kind × Bytes)) : Option Bytes :=
  ((log.filter r.isAbout).getLast?).map Prod.snd

omit [Peripherals β] in
theorem lastAbout_snoc (r : Reported) (log : List (Kind × Bytes)) (sent : Kind × Bytes) :
    r.lastAbout (log ++ [sent]) = if r.isAbout sent then some sent.2 else r.lastAbout log := by
  unfold lastAbout
  rw [List.filter_append]
  by_cases h : r.isAbout sent = true
  · rw [if_pos h, List.filter_cons_of_pos h]
    simp
  · rw [if_neg h, List.filter_cons_of_neg h]
    simp

end Reported

/-- An action on the board changes only what is reported of it, and what is reported exists. -/
structure Peripherals.Faithful (β : Type) [Peripherals β] : Prop where
  /-- What is not changed by the action, or not by a refused one, stays. -/
  kept (b : β) (device : Device) (value : Bytes) (r : Reported) :
    ¬ ((execute b device value).1 = .ok () ∧ r.ChangedBy b device value) →
      r.message (execute b device value).2 = r.message b
  counts (b : β) (device : Device) (value : Bytes) (r : Reported) :
    r.count (execute b device value).2 = r.count b
  present (b : β) (r : Reported) : r.On b → (r.message b).isSome
  changed (b : β) (device : Device) (value : Bytes) (r : Reported) :
    (execute b device value).1 = .ok () → r.ChangedBy b device value → r.On b

theorem Peripherals.Faithful.on_iff {β : Type} [Peripherals β] (h : Faithful β) (b : β)
    (device : Device) (value : Bytes) (r : Reported) :
    r.On (execute b device value).2 ↔ r.On b := by
  rw [Reported.On, Reported.On, h.counts]

namespace Board

/-- The messages of LEDs depend on the LEDs, and so on. -/
theorem message_congr {b b' : Board} {r : Reported}
    (houtputs : r = .outputs → b'.outputs = b.outputs)
    (hled : ∀ i, r = .led i → b'.leds[i.toNat]? = b.leds[i.toNat]?)
    (hline : ∀ i, r = .line i → b'.lines[i.toNat]? = b.lines[i.toNat]?) :
    r.message b' = r.message b := by
  cases r with
  | outputs => simp only [Reported.message, Peripherals.outputs, houtputs rfl]
  | led i => simp only [Reported.message, Peripherals.led?, hled i rfl]
  | line i => simp only [Reported.message, Peripherals.line?, hline i rfl]

/-- A line that the display does not have. -/
theorem lines_getElem?_of_le (lines : Vector (Text 20) 2) {i : UInt8} (h : ¬ i < 2) :
    lines[i.toNat]? = none :=
  Vector.getElem?_eq_none (Nat.le_of_not_lt fun hlt => h (UInt8.lt_iff_toNat_lt.mpr hlt))

theorem message_apply {b after : Board} {device : Device} {value : Bytes} {r : Reported}
    (happly : b.apply device value = .ok after) (h : ¬ r.ChangedBy b device value) :
    r.message after = r.message b := by
  unfold apply at happly
  cases device with
  | output pin =>
    dsimp only at happly
    split at happly
    · cases happly
      exact message_congr (fun hr => absurd (hr ▸ .output ..) h) (fun _ _ => rfl) (fun _ _ => rfl)
    · cases happly
  | led index =>
    dsimp only at happly
    split at happly
    · rename_i hlt
      split at happly
      · cases happly
        refine message_congr (fun _ => rfl) (fun i hr => ?_) (fun _ _ => rfl)
        have hne : index.toNat ≠ i.toNat := by
          intro heq
          rw [hr, ← UInt8.toNat_inj.mp heq] at h
          exact h (.led ..)
        exact Vector.getElem?_set_ne hlt hne
      · cases happly
    · cases happly
  | displayMessage =>
    unfold display at happly
    dsimp only at happly
    split at happly
    · cases happly
    · rename_i line text
      split at happly
      · rename_i hlt
        split at happly
        · cases happly
          refine message_congr (fun _ => rfl) (fun _ _ => rfl) (fun i hr => ?_)
          have hne : line.toNat ≠ i.toNat := by
            intro heq
            rw [hr, ← UInt8.toNat_inj.mp heq] at h
            exact h (.text ..)
          exact Vector.getElem?_set_ne hlt hne
        · cases happly
      · cases happly
  | displayBacklight =>
    dsimp only at happly
    split at happly
    · cases happly
    · cases happly
      exact message_congr (fun _ => rfl) (fun _ _ => rfl) (fun _ _ => rfl)
  | displayClear =>
    cases happly
    refine message_congr (fun _ => rfl) (fun _ _ => rfl) (fun i hr => ?_)
    have hout : ¬ i < 2 := fun hlt => h (hr ▸ .clear _ hlt)
    rw [lines_getElem?_of_le _ hout, lines_getElem?_of_le _ hout]
  | displayReset =>
    cases happly
    refine message_congr (fun _ => rfl) (fun _ _ => rfl) (fun i hr => ?_)
    have hout : ¬ i < 2 := fun hlt => h (hr ▸ .reset _ hlt)
    rw [lines_getElem?_of_le _ hout, lines_getElem?_of_le _ hout]
  | _ => cases happly

theorem on_of_apply {b after : Board} {device : Device} {value : Bytes} {r : Reported}
    (happly : b.apply device value = .ok after) (h : r.ChangedBy b device value) : r.On b := by
  cases h with
  | output pin => exact nofun
  | led index =>
    unfold apply at happly
    dsimp only at happly
    split at happly
    · rename_i hlt
      rintro i ⟨⟩
      exact UInt8.lt_iff_toNat_lt.mpr hlt
    · cases happly
  | text line text =>
    unfold apply display at happly
    dsimp only at happly
    split at happly
    · rename_i hlt
      rintro i ⟨⟩
      exact UInt8.lt_iff_toNat_lt.mpr hlt
    · cases happly
  | clear _ hlt =>
    rintro i ⟨⟩
    exact hlt
  | reset _ hlt =>
    rintro i ⟨⟩
    exact hlt

end Board

/-- **The room board changes only what it reports.** -/
theorem faithful_board : Peripherals.Faithful Board where
  kept b device value r h := by
    simp only [Peripherals.execute, Board.execute_eq] at h ⊢
    cases happly : b.apply device value with
    | error e => rfl
    | ok after =>
      rw [happly] at h
      exact Board.message_apply happly fun hchanged => h ⟨rfl, hchanged⟩
  counts b device value r := by cases r <;> rfl
  present b r h := by
    cases r with
    | outputs => rfl
    | led i =>
      have hlt : i.toNat < 8 := UInt8.lt_iff_toNat_lt.mp (h i rfl)
      simp [Reported.message, Peripherals.led?, hlt]
    | line i =>
      have hlt : i.toNat < 2 := UInt8.lt_iff_toNat_lt.mp (h i rfl)
      simp [Reported.message, Peripherals.line?, hlt]
  changed b device value r hok h := by
    simp only [Peripherals.execute, Board.execute_eq] at hok
    cases happly : b.apply device value with
    | error e =>
      rw [happly] at hok
      cases hok
    | ok after => exact Board.on_of_apply happly h

/-! ## Packets -/

/-- The item, with so many elements of its list sent, will still have this part told. -/
def Item.Tells (item : Item) (cursor : Nat) (r : Reported) : Prop :=
  item.kind = r.kind ∧
    ∀ i, r.index = some i → item.param = some i ∨ (item.param = none ∧ cursor ≤ i.toNat)

theorem length_levelBytes (levels : UInt32) : (levelBytes levels).length = 4 := rfl

theorem length_lineBody_le (line : Nat) (text : String) :
    (Station.lineBody line text).length ≤ Message.maxBody := by
  simp only [Station.lineBody, List.length_cons, List.length_take, Message.maxBody]
  omega

namespace Station

variable {β : Type} [Peripherals β] (s : Station β) (counters : Bytes) {item : Item} {cursor : Nat}

theorem packet_outputs (hkind : item.kind = .outputs) :
    s.packet counters item cursor =
      .packet (Message.packet .outputs (levelBytes (Peripherals.outputs s.board))) true := by
  unfold packet
  simp only [hkind]
  exact ofBody_of_le (by rw [length_levelBytes]; decide) true

/-- The packet for an element of a list of the board. -/
theorem packet_element {r : Reported} {i : UInt8} (hindex : r.index = some i)
    (hkind : item.kind = r.kind) (helement : (item.param.map UInt8.toNat).getD cursor = i.toNat) :
    s.packet counters item cursor =
      if i < r.count s.board then
        (r.message s.board).elim .exhausted fun bytes =>
          .packet bytes (i.toNat + 1 ≥ (r.count s.board).toNat)
      else .exhausted := by
  by_cases hlt : i < r.count s.board
  · have hin : ¬ i.toNat ≥ (r.count s.board).toNat :=
      Nat.not_le.mpr (UInt8.lt_iff_toNat_lt.mp hlt)
    rw [if_pos hlt]
    unfold packet
    cases r with
    | outputs => cases hindex
    | led j =>
      cases hindex
      simp only [hkind, Reported.kind, helement, UInt8.ofNat_toNat, Reported.message]
      refine (if_neg hin).trans ?_
      cases Peripherals.led? s.board i with
      | none => rfl
      | some colour => exact ofBody_of_le (by simp [Rgb.toBytes, Message.maxBody]) _
    | line j =>
      cases hindex
      simp only [hkind, Reported.kind, helement, UInt8.ofNat_toNat, Reported.message]
      refine (if_neg hin).trans ?_
      cases Peripherals.line? s.board i with
      | none => rfl
      | some text => exact ofBody_of_le (length_lineBody_le ..) _
  · have hout : i.toNat ≥ (r.count s.board).toNat :=
      Nat.not_lt.mp fun h => hlt (UInt8.lt_iff_toNat_lt.mpr h)
    rw [if_neg hlt]
    unfold packet
    cases r with
    | outputs => cases hindex
    | led j =>
      simp only [hkind, Reported.kind, helement]
      exact if_pos hout
    | line j =>
      simp only [hkind, Reported.kind, helement]
      exact if_pos hout

/-- A board that has an element has the earlier ones too, with their packets. -/
theorem packet_of_le (faithful : Peripherals.Faithful β) {r : Reported} {i j : UInt8}
    (hindex : r.index = some i) (hon : r.On s.board) (hkind : item.kind = r.kind) (hle : j ≤ i)
    (helement : (item.param.map UInt8.toNat).getD cursor = j.toNat) :
    ∃ bytes, (r.withIndex j).message s.board = some bytes ∧ s.packet counters item cursor =
      .packet bytes (j.toNat + 1 ≥ (r.count s.board).toNat) := by
  have hlt : j < (r.withIndex j).count s.board := by
    rw [Reported.count_withIndex]
    exact UInt8.lt_of_le_of_lt hle (hon i hindex)
  have hpresent : (r.withIndex j).On s.board := by
    intro k hk
    rw [Reported.index_withIndex hindex] at hk
    cases hk
    exact hlt
  obtain ⟨bytes, hbytes⟩ := Option.isSome_iff_exists.mp (faithful.present s.board _ hpresent)
  refine ⟨bytes, hbytes, ?_⟩
  rw [packet_element s counters (Reported.index_withIndex hindex j)
    (hkind.trans (r.kind_withIndex j).symm) helement, if_pos hlt, hbytes, Reported.count_withIndex]
  rfl

/-- **The packet of an item that tells a part**: it is the part's message, or that of an earlier
element, and then the list goes on. -/
theorem packet_of_tells (faithful : Peripherals.Faithful β) {r : Reported} (hon : r.On s.board)
    (h : item.Tells cursor r) :
    ∃ bytes last, s.packet counters item cursor = .packet bytes last ∧
      (r.isAbout (item.kind, bytes) = true ∨
        last = false ∧ item.param = none ∧ ∀ i, r.index = some i → cursor + 1 ≤ i.toNat) := by
  obtain ⟨hkind, helement⟩ := h
  cases hindex : r.index with
  | none =>
    have houtputs : item.kind = .outputs := by
      cases r with
      | outputs => exact hkind
      | _ => cases hindex
    exact ⟨_, true, packet_outputs s counters houtputs,
      .inl (by simp [Reported.isAbout, hkind, hindex])⟩
  | some i =>
    have habout : ∀ bytes, r.message s.board = some bytes →
        r.isAbout (item.kind, bytes) = true := by
      intro bytes hbytes
      simp [Reported.isAbout, hkind, hindex, Reported.getElem?_of_message hindex hbytes]
    rcases helement i hindex with hparam | ⟨hparam, hle⟩
    · obtain ⟨bytes, hbytes, hpacket⟩ := packet_of_le s counters faithful hindex hon hkind
        (UInt8.le_refl i) (by rw [hparam]; rfl)
      rw [Reported.withIndex_self hindex] at hbytes
      exact ⟨bytes, _, hpacket, .inl (habout bytes hbytes)⟩
    · have hcursor : (UInt8.ofNat cursor).toNat = cursor := by
        have := i.toNat_lt
        simp only [UInt8.toNat_ofNat']
        omega
      obtain ⟨bytes, hbytes, hpacket⟩ := packet_of_le s counters faithful hindex hon hkind
        (UInt8.le_iff_toNat_le.mpr (hcursor.symm ▸ hle)) (by rw [hparam, hcursor]; rfl)
      refine ⟨bytes, _, hpacket, ?_⟩
      by_cases heq : cursor = i.toNat
      · subst heq
        rw [UInt8.ofNat_toNat, Reported.withIndex_self hindex] at hbytes
        exact .inl (habout bytes hbytes)
      · have hlt : i.toNat < (r.count s.board).toNat := UInt8.lt_iff_toNat_lt.mp (hon i hindex)
        refine .inr ⟨?_, hparam, fun k hk => ?_⟩
        · rw [hcursor]
          exact decide_eq_false (by omega)
        · cases hk
          omega

/-- **A packet about a part is its message.** -/
theorem message_of_packet {r : Reported} {bytes : Bytes} {last : Bool}
    (hcursor : cursor ≤ Queue.maxCursor) (h : s.packet counters item cursor = .packet bytes last)
    (habout : r.isAbout (item.kind, bytes) = true) : r.message s.board = some bytes := by
  obtain ⟨hkind, helement⟩ : item.kind = r.kind ∧ r.index.all (bytes[2]? = some ·) = true := by
    simpa [Reported.isAbout] using habout
  cases hindex : r.index with
  | none =>
    have houtputs : r = .outputs := by
      cases r with
      | outputs => rfl
      | _ => cases hindex
    subst houtputs
    rw [packet_outputs s counters hkind] at h
    cases h
    rfl
  | some i =>
    obtain ⟨j, hj⟩ : ∃ j : UInt8, (item.param.map UInt8.toNat).getD cursor = j.toNat := by
      cases hparam : item.param with
      | some p => exact ⟨p, rfl⟩
      | none =>
        refine ⟨UInt8.ofNat cursor, ?_⟩
        simp only [Queue.maxCursor] at hcursor
        simp only [Option.map_none, Option.getD_none, UInt8.toNat_ofNat']
        omega
    rw [packet_element s counters (Reported.index_withIndex hindex j)
      (hkind.trans (r.kind_withIndex j).symm) hj] at h
    split at h
    · cases hmessage : (r.withIndex j).message s.board with
      | none => simp [hmessage] at h
      | some m =>
        simp only [hmessage, Option.elim_some, Built.packet.injEq] at h
        obtain ⟨rfl, -⟩ := h
        -- the message carries its own element, so the two are the same
        have hthird := Reported.getElem?_of_message (Reported.index_withIndex hindex j) hmessage
        rw [hindex] at helement
        have hsame : j = i := by simpa [hthird] using helement
        rw [hsame, Reported.withIndex_self hindex] at hmessage
        exact hmessage
    · cases h

end Station

/-! ## Queues -/

namespace Queue

/-- The cursor counts within a list, and only of an item that is there. -/
structure InOrder (q : Queue) : Prop where
  rest : q.items = [] → q.cursor = 0
  bound : q.cursor ≤ maxCursor

/-- An item in the queue will still have the part told. The cursor is that of the head alone. -/
def Covers (q : Queue) (r : Reported) : Prop :=
  match q.items with
  | [] => False
  | head :: rest => head.Tells q.cursor r ∨ ∃ item ∈ rest, item.Tells 0 r

theorem covers_of_cons {q : Queue} {head : Item} {rest : List Item} (h : q.items = head :: rest)
    (r : Reported) : q.Covers r ↔ head.Tells q.cursor r ∨ ∃ item ∈ rest, item.Tells 0 r := by
  rw [Covers, h]

theorem covers_of_mem {q : Queue} {r : Reported} {item : Item} (hmem : item ∈ q.items)
    (h : ∀ cursor ≤ q.cursor, item.Tells cursor r) : q.Covers r := by
  unfold Covers
  split
  · rename_i hnil
    rw [hnil] at hmem
    cases hmem
  · rename_i head rest hcons
    rw [hcons] at hmem
    rcases List.mem_cons.mp hmem with rfl | hmem
    · exact .inl (h _ (Nat.le_refl _))
    · exact .inr ⟨item, hmem, h 0 (Nat.zero_le _)⟩

theorem covers_of_tells {q : Queue} {r : Reported} (hcursor : q.cursor = 0)
    (h : ∃ item ∈ q.items, item.Tells 0 r) : q.Covers r := by
  obtain ⟨item, hmem, htells⟩ := h
  refine covers_of_mem hmem fun cursor hle => ?_
  rw [hcursor] at hle
  rw [Nat.le_zero.mp hle]
  exact htells

theorem GrowsBy.inOrder {P : Item → Prop} {q q' : Queue} (h : q.GrowsBy P q') (hq : q.InOrder) :
    q'.InOrder := by
  obtain ⟨hcursor, more, hmore, -⟩ := h
  refine ⟨fun hnil => ?_, hcursor.symm ▸ hq.bound⟩
  rw [hmore] at hnil
  exact hcursor.trans (hq.rest (List.append_eq_nil_iff.mp hnil).1)

/-- **Queueing uncovers nothing.** -/
theorem GrowsBy.covers {P : Item → Prop} {q q' : Queue} (h : q.GrowsBy P q') {r : Reported}
    (hq : q.Covers r) : q'.Covers r := by
  obtain ⟨hcursor, more, hmore, -⟩ := h
  cases hitems : q.items with
  | nil => simp [Covers, hitems] at hq
  | cons head rest =>
    rw [covers_of_cons hitems] at hq
    have hitems' : q'.items = head :: (rest ++ more) := by rw [hmore, hitems]; rfl
    rw [covers_of_cons hitems', hcursor]
    refine hq.imp_right fun ⟨item, hmem, htells⟩ => ?_
    exact ⟨item, List.mem_append_left more hmem, htells⟩

theorem inOrder_pop (q : Queue) : q.pop.InOrder := ⟨fun _ => rfl, Nat.zero_le _⟩

theorem inOrder_afterPacket {q : Queue} {item : Item} {rest : List Item}
    (h : q.items = item :: rest) (last : Bool) : (q.afterPacket item last).InOrder := by
  unfold afterPacket
  split
  · exact inOrder_pop q
  · refine ⟨fun hnil => ?_, Nat.min_le_right ..⟩
    rw [advance, h] at hnil
    cases hnil

theorem covers_pop {q : Queue} {r : Reported} {head : Item} {rest : List Item}
    (hitems : q.items = head :: rest) (h : ∃ item ∈ rest, item.Tells 0 r) : q.pop.Covers r := by
  refine covers_of_tells rfl ?_
  rw [pop, hitems]
  exact h

/-- The items behind the head are not concerned when a packet of the head is sent. -/
theorem covers_afterPacket {q : Queue} {r : Reported} {head : Item} {rest : List Item}
    (hitems : q.items = head :: rest) (h : ∃ item ∈ rest, item.Tells 0 r) (last : Bool) :
    (q.afterPacket head last).Covers r := by
  unfold afterPacket
  split
  · exact covers_pop hitems h
  · rw [covers_of_cons (show q.advance.items = head :: rest from hitems)]
    exact .inr h

/-- A list that goes on still tells what comes later in it. -/
theorem covers_advance {q : Queue} {r : Reported} {head : Item} {rest : List Item}
    (hitems : q.items = head :: rest) (htells : head.Tells q.cursor r) (hparam : head.param = none)
    (hlater : ∀ i, r.index = some i → q.cursor + 1 ≤ i.toNat) :
    (q.afterPacket head false).Covers r := by
  have hadvance : q.afterPacket head false = q.advance := by
    simp [afterPacket, hparam]
  rw [hadvance, covers_of_cons (show q.advance.items = head :: rest from hitems)]
  refine .inl ⟨htells.1, fun i hi => .inr ⟨hparam, ?_⟩⟩
  exact Nat.le_trans (Nat.min_le_left ..) (hlater i hi)

/-- The queue takes the item, or holds one that it repeats. -/
def Accepts (q : Queue) (item : Item) : Prop :=
  (∃ old ∈ q.items, item.RepeatOf old) ∨ q.items.length < depth

instance (q : Queue) (item : Item) : Decidable (q.Accepts item) :=
  inferInstanceAs (Decidable (_ ∨ _))

/-- **The report of an action covers what the action changed**, if the queue accepts it. Where it is
the report of a whole list, an item for some of the list must not stand in its way. -/
theorem covers_enqueue {β : Type} [Peripherals β] {b : β} {q : Queue} {device : Device}
    {value : Bytes} {r : Reported} {item : Item} (hq : q.InOrder)
    (hchanged : r.ChangedBy b device value) (hitem : reportItem? device value = some item)
    (haccepts : q.Accepts item)
    (hclear : item = ⟨.displayLine, none⟩ → (∃ old ∈ q.items, old.kind = .displayLine) →
      q.Covers r) :
    (q.enqueue item).Covers r := by
  have htells : item.Tells 0 r := by
    cases hchanged <;> cases hitem
    all_goals exact ⟨rfl, fun i hi => by cases hi <;> simp⟩
  unfold enqueue
  split
  · rename_i hrepeat
    obtain ⟨old, hold, hkind, hparam⟩ := hrepeat
    cases hchanged with
    | output pin =>
      cases hitem
      exact covers_of_mem hold fun _ _ => ⟨hkind, nofun⟩
    | led index =>
      cases hitem
      refine covers_of_mem hold fun _ _ => ⟨hkind, fun i hi => .inl ?_⟩
      exact (hparam.resolve_left nofun).trans hi
    | text line text =>
      cases hitem
      refine covers_of_mem hold fun _ _ => ⟨hkind, fun i hi => .inl ?_⟩
      exact (hparam.resolve_left nofun).trans hi
    | clear =>
      cases hitem
      exact hclear rfl ⟨old, hold, hkind⟩
    | reset =>
      cases hitem
      exact hclear rfl ⟨old, hold, hkind⟩
  · rename_i hnew
    have hroom : q.items.length < depth := haccepts.resolve_left hnew
    rw [if_pos hroom]
    cases hitems : q.items with
    | nil => exact covers_of_tells (hq.rest hitems) ⟨item, by simp, htells⟩
    | cons head rest =>
      have hgrown : ({ q with items := head :: rest ++ [item] } : Queue).items =
          head :: (rest ++ [item]) := rfl
      rw [covers_of_cons hgrown]
      exact .inr ⟨item, by simp, htells⟩

end Queue

/-! ## Dispatch -/

theorem Queue.InOrder.of_dispatch {source : PacketSource} {c : Channel} {q : Queue} {t : Transport}
    {step : DispatchStep} (h : DispatchCase source c q t step) (hq : q.InOrder) :
    step.queue.InOrder := by
  cases h with
  | idle => exact hq
  | sent _ hitems => exact inOrder_afterPacket hitems _
  | _ => exact inOrder_pop q

/-- The queue will still tell the part, or it was told last as it is. -/
def Reported.Fresh {β : Type} [Peripherals β] (r : Reported) (q : Queue) (b : β)
    (log : List (Kind × Bytes)) : Prop :=
  q.Covers r ∨ r.lastAbout log = r.message b

theorem Queue.GrowsBy.fresh {β : Type} [Peripherals β] {P : Item → Prop} {q q' : Queue}
    (h : q.GrowsBy P q') {r : Reported} {b : β} {log : List (Kind × Bytes)}
    (hfresh : r.Fresh q b log) : r.Fresh q' b log :=
  hfresh.imp_left h.covers

namespace Station

variable {β : Type} [Peripherals β] {s : Station β} {counters : Bytes} {item : Item} {cursor : Nat}

/-- The board's own kinds never fall to the extensions. -/
theorem orElse_of_kind {r : Reported} (hkind : item.kind = r.kind) (extensions : PacketSource) :
    ((s.packet counters).orElse extensions) item cursor = s.packet counters item cursor := by
  have hhandled : s.packet counters item cursor ≠ .notHandled := by
    unfold packet Built.ofBody
    cases r <;> simp only [hkind, Reported.kind]
    all_goals
      repeat' split
      all_goals nofun
  unfold PacketSource.orElse
  split
  · rename_i hnone
    exact absurd hnone hhandled
  · rfl

/-- An item that tells a part on the board has a packet, so none that tells it is dropped. -/
theorem fresh_pop (faithful : Peripherals.Faithful β) {extensions : PacketSource} {q : Queue}
    {rest : List Item} {built : Built} {r : Reported} {log : List (Kind × Bytes)}
    (hon : r.On s.board) (hitems : q.items = item :: rest)
    (hbuilt : ((s.packet counters).orElse extensions) item q.cursor = built)
    (hnone : ∀ bytes last, built = .packet bytes last → bytes = [])
    (h : r.Fresh q s.board log) : r.Fresh q.pop s.board log := by
  refine h.imp_left fun hcovers => ?_
  rcases (Queue.covers_of_cons hitems r).mp hcovers with htells | hrest
  · obtain ⟨bytes, last, hpacket, -⟩ := packet_of_tells s counters faithful hon htells
    have hempty := hnone bytes last
      (hbuilt.symm.trans ((orElse_of_kind htells.1 extensions).trans hpacket))
    have hlength := (Message.length_le_of_accepted (accepted_of_packet hpacket)).1
    rw [hempty] at hlength
    exact absurd hlength (by decide)
  · exact Queue.covers_pop hitems hrest

/-- **A step of dispatch keeps every part fresh.** -/
theorem fresh_of_dispatch (faithful : Peripherals.Faithful β) {extensions : PacketSource}
    {c : Channel} {q : Queue} {t : Transport} {step : DispatchStep} {r : Reported}
    {log : List (Kind × Bytes)} (hon : r.On s.board) (hq : q.InOrder)
    (hstep : DispatchCase ((s.packet counters).orElse extensions) c q t step)
    (h : r.Fresh q s.board log) :
    r.Fresh step.queue s.board
      (log ++ sentOf step.dispatched (step.transport.outstanding c)) := by
  cases hstep with
  | idle =>
    show r.Fresh q s.board (log ++ [])
    rw [List.append_nil]
    exact h
  | unhandled _ hitems hbuilt =>
    show r.Fresh q.pop s.board (log ++ [])
    rw [List.append_nil]
    exact fresh_pop faithful hon hitems hbuilt (fun _ _ hpacket => by cases hpacket) h
  | skipped _ hitems hbuilt =>
    show r.Fresh q.pop s.board (log ++ [])
    rw [List.append_nil]
    exact fresh_pop faithful hon hitems hbuilt (fun _ _ hpacket => by cases hpacket) h
  | failed _ hitems hbuilt =>
    show r.Fresh q.pop s.board (log ++ [])
    rw [List.append_nil]
    exact fresh_pop faithful hon hitems hbuilt (fun _ _ hempty => by cases hempty; rfl) h
  | @sent item rest bytes last held _ hitems hbuilt hheld =>
    have hsent : sentOf (.sent item.kind)
        ((t.withSlot c (some (t.fresh held))).outstanding c) = [(item.kind, held.bytes)] := by
      rw [Transport.outstanding_withSlot_self]
      rfl
    dsimp only
    rw [hsent]
    unfold Reported.Fresh
    rw [Reported.lastAbout_snoc]
    -- a packet of the part's kind is the node's own, and goes out whole
    have hwhole : item.kind = r.kind →
        s.packet counters item q.cursor = .packet held.bytes last := by
      intro hkind
      rw [orElse_of_kind hkind] at hbuilt
      have hmax := (Message.length_le_of_accepted (accepted_of_packet hbuilt)).2
      rw [hheld, List.take_of_length_le hmax, hbuilt]
    by_cases habout : r.isAbout (item.kind, held.bytes) = true
    · rw [if_pos habout]
      have hkind : item.kind = r.kind := by
        simp only [Reported.isAbout, Bool.and_eq_true, decide_eq_true_eq] at habout
        exact habout.1
      exact .inr (message_of_packet s counters hq.bound (hwhole hkind) habout).symm
    · rw [if_neg habout]
      refine h.imp_left fun hcovers => ?_
      rcases (Queue.covers_of_cons hitems r).mp hcovers with htells | hrest
      · obtain ⟨bytes', last', hpacket, hnext⟩ := packet_of_tells s counters faithful hon htells
        rw [hwhole htells.1] at hpacket
        cases hpacket
        obtain ⟨rfl, hparam, hlater⟩ := hnext.resolve_left habout
        exact Queue.covers_advance hitems htells hparam hlater
      · exact Queue.covers_afterPacket hitems hrest last

end Station

end RoomControl
