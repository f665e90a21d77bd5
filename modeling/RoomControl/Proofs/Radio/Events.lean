import RoomControl.Proofs.Frame.Stream
import RoomControl.Radio.Response

/-!
# Events are read as they are written

An event is refused exactly when its frame is too short for the event's fixed part
(`ofFrame_eq_error_iff`). What is read need not be what was sent: the role, the kind of address and
whatever follows the fixed part are dropped. But what is read is reportable, and a reportable event is
written to a frame that is read as it (`ofFrame_of_reportable`), so that reading once more changes
nothing.

`Reportable` says which events those are: the data leaves room for the fixed part, and neither
catch-all stands for a code that has a meaning.
-/

set_option autoImplicit false

namespace RoomControl.Response

/-! ## Which events there are -/

/-- How many bytes an event with this opcode must have, for the events that are understood. -/
def fixedPart? : UInt8 → Option Nat
  | commandOpcode => some 2
  | statusOpcode => some 1
  | connectionOpcode => some 10
  | disconnectionOpcode => some 2
  | pairingOpcode => some 2
  | dataOpcode => some 1
  | _ => none

/-- The payload is shorter than the fixed part. -/
def IsShort (f : Frame) : Prop := ∃ fixed, fixedPart? f.opcode = some fixed ∧ f.payload.size < fixed

/-- The event keeps what follows its fixed part. -/
def carriesData : Response → Bool
  | commandComplete _ _ _ | transparentData _ _ => true
  | _ => false

/-- The event is one that a frame can report. -/
def Reportable : Response → Prop
  | commandComplete _ _ data => data.size + 2 ≤ Frame.maxPayload
  | statusReport status => .ofByte status.toByte = status
  | transparentData _ data => data.size + 1 ≤ Frame.maxPayload
  | unknown opcode => fixedPart? opcode = none
  | _ => True

instance : DecidablePred Reportable
  | commandComplete _ _ data => inferInstanceAs (Decidable (data.size + 2 ≤ _))
  | statusReport status => inferInstanceAs (Decidable (.ofByte status.toByte = status))
  | transparentData _ data => inferInstanceAs (Decidable (data.size + 1 ≤ _))
  | unknown opcode => inferInstanceAs (Decidable (fixedPart? opcode = none))
  | connectionComplete _ _ _ | disconnectionComplete _ _ | pairingComplete _ _ => .isTrue trivial

/-! ## Reading -/

/-- What is made of a frame. -/
inductive Read (f : Frame) : Except FrameError Response → Prop
  | short : IsShort f → Read f (.error .invalidLength)
  | event {r : Response} : ¬ IsShort f → r.opcode = f.opcode → r.Reportable →
      (r.carriesData = true → r.payload = f.payload.bytes) → Read f (.ok r)

variable {f : Frame} {r : Response} {e : FrameError}

theorem carrying_of_le {data : Bytes} (h : data.length ≤ 128) (event : Buffer 128 → Response) :
    carrying data event = .ok (event ⟨data, h⟩) := by
  rw [carrying, Buffer.ofBytes?_of_le h]

section FixedPart

variable {fixed : Nat} (hfixed : fixedPart? f.opcode = some fixed)
include hfixed

theorem not_isShort (h : fixed ≤ f.payload.bytes.length) : ¬ IsShort f := by
  rintro ⟨other, hother, hless⟩
  rw [hfixed] at hother
  cases hother
  exact Nat.not_lt.mpr h hless

theorem Read.missing (h : f.payload.bytes.length < fixed) : Read f (.error .invalidLength) :=
  .short ⟨fixed, hfixed, h⟩

/-- An event that keeps nothing but bytes of its fixed part. -/
theorem Read.plain (hlong : fixed ≤ f.payload.bytes.length) (hcode : r.opcode = f.opcode)
    (hreportable : r.Reportable) (hplain : r.carriesData = false) : Read f (.ok r) := by
  refine .event (not_isShort hfixed hlong) hcode hreportable fun hdata => ?_
  rw [hplain] at hdata
  cases hdata

/-- An event that keeps the data after its fixed part. -/
theorem Read.carried {data : Bytes} {event : Buffer 128 → Response}
    (hlong : fixed ≤ f.payload.bytes.length) (hcode : ∀ held, (event held).opcode = f.opcode)
    (hfits : data.length ≤ 128) (hreportable : (event ⟨data, hfits⟩).Reportable)
    (hpayload : (event ⟨data, hfits⟩).payload = f.payload.bytes) :
    Read f (carrying data event) := by
  rw [carrying_of_le hfits]
  exact .event (not_isShort hfixed hlong) (hcode _) hreportable fun _ => hpayload

end FixedPart

/-- **What reading does**: it refuses what is short, and reads a reportable event otherwise. -/
theorem read_ofFrame (f : Frame) : Read f (ofFrame f) := by
  have hfits : f.payload.bytes.length ≤ Frame.maxPayload := f.payload.fits
  -- the payload is taken apart as far as the fixed part goes: it ends before that, or it does not
  unfold ofFrame
  split
  next hcode =>
    have hfixed : fixedPart? f.opcode = some 2 := by rw [hcode]; rfl
    rcases hbytes : f.payload.bytes with _ | ⟨command, _ | ⟨status, data⟩⟩ <;> rw [hbytes] at hfits
    any_goals exact .missing hfixed (by simp [hbytes])
    have hdata : data.length + 2 ≤ Frame.maxPayload := hfits
    exact .carried hfixed (by simp [hbytes]) (fun _ => hcode.symm) (Nat.le_of_add_right_le hdata)
      hdata hbytes.symm
  next hcode =>
    have hfixed : fixedPart? f.opcode = some 1 := by rw [hcode]; rfl
    rcases hbytes : f.payload.bytes with _ | ⟨status, rest⟩
    · exact .missing hfixed (by simp [hbytes])
    · have hstatus : (statusReport (.ofByte status)).Reportable := by simp [Reportable]
      exact .plain hfixed (by simp [hbytes]) hcode.symm hstatus rfl
  next hcode =>
    have hfixed : fixedPart? f.opcode = some 10 := by rw [hcode]; rfl
    rcases hbytes : f.payload.bytes with _ | ⟨status, _ | ⟨handle, _ | ⟨role, _ | ⟨kind, _ | ⟨a,
      _ | ⟨b, _ | ⟨c, _ | ⟨d, _ | ⟨e, _ | ⟨g, rest⟩⟩⟩⟩⟩⟩⟩⟩⟩⟩
    any_goals exact .missing hfixed (by simp [hbytes])
    exact .plain hfixed (by simp [hbytes]) hcode.symm trivial rfl
  next hcode =>
    have hfixed : fixedPart? f.opcode = some 2 := by rw [hcode]; rfl
    rcases hbytes : f.payload.bytes with _ | ⟨handle, _ | ⟨reason, rest⟩⟩
    any_goals exact .missing hfixed (by simp [hbytes])
    exact .plain hfixed (by simp [hbytes]) hcode.symm trivial rfl
  next hcode =>
    have hfixed : fixedPart? f.opcode = some 2 := by rw [hcode]; rfl
    rcases hbytes : f.payload.bytes with _ | ⟨handle, _ | ⟨result, rest⟩⟩
    any_goals exact .missing hfixed (by simp [hbytes])
    exact .plain hfixed (by simp [hbytes]) hcode.symm trivial rfl
  next hcode =>
    have hfixed : fixedPart? f.opcode = some 1 := by rw [hcode]; rfl
    rcases hbytes : f.payload.bytes with _ | ⟨handle, data⟩ <;> rw [hbytes] at hfits
    · exact .missing hfixed (by simp [hbytes])
    · have hdata : data.length + 1 ≤ Frame.maxPayload := hfits
      exact .carried hfixed (by simp [hbytes]) (fun _ => hcode.symm) (Nat.le_of_add_right_le hdata)
        hdata hbytes.symm
  next =>
    have hnone : fixedPart? f.opcode = none := by
      unfold fixedPart?
      split <;> first | rfl | contradiction
    refine .event ?_ rfl hnone fun hdata => absurd hdata Bool.false_ne_true
    rintro ⟨fixed, hfixed, -⟩
    rw [hnone] at hfixed
    cases hfixed

/-- **A frame is refused exactly when it is too short** for the fixed part of its event. -/
theorem ofFrame_eq_error_iff :
    ofFrame f = .error e ↔ e = .invalidLength ∧ IsShort f := by
  have hread := read_ofFrame f
  generalize ofFrame f = result at hread
  cases hread with
  | short hshort => simp [hshort, eq_comm]
  | event hlong _ _ _ => simp [hlong]

theorem of_ofFrame (h : ofFrame f = .ok r) :
    r.opcode = f.opcode ∧ r.Reportable ∧ (r.carriesData = true → r.payload = f.payload.bytes) := by
  have hread := read_ofFrame f
  rw [h] at hread
  cases hread with
  | event _ hcode hreportable hpayload => exact ⟨hcode, hreportable, hpayload⟩

/-! ## Writing -/

theorem length_payload_le (h : r.Reportable) : r.payload.length ≤ Frame.maxPayload := by
  cases r with
  | commandComplete _ _ data | transparentData _ data => exact h
  | connectionComplete status handle address => simp [payload, Frame.maxPayload]
  | _ => exact Nat.le_of_ble_eq_true rfl

/-- A reportable event has a frame. -/
theorem exists_toFrame (h : r.Reportable) :
    ∃ g, r.toFrame = .ok g ∧ g.opcode = r.opcode ∧ g.payload.bytes = r.payload := by
  refine ⟨⟨r.opcode, ⟨r.payload, length_payload_le h⟩⟩, ?_, rfl, rfl⟩
  exact Frame.ofPayload_eq_ok_iff.mpr ⟨rfl, rfl⟩

/-- **A frame with the payload of a reportable event is read as that event.** -/
theorem ofFrame_of_reportable (h : r.Reportable) (hcode : f.opcode = r.opcode)
    (hpayload : f.payload.bytes = r.payload) : ofFrame f = .ok r := by
  unfold ofFrame
  rw [hcode, hpayload]
  cases r with
  | commandComplete _ _ data | transparentData _ data => exact carrying_of_le data.fits _
  | statusReport status => exact congrArg (fun status => Except.ok (statusReport status)) h
  | connectionComplete status handle address =>
    obtain ⟨⟨bytes⟩, hsix⟩ := address
    rcases bytes with _ | ⟨a, _ | ⟨b, _ | ⟨c, _ | ⟨d, _ | ⟨e, _ | ⟨g, _ | ⟨i, rest⟩⟩⟩⟩⟩⟩⟩
    any_goals cases hsix
    rfl
  | disconnectionComplete _ _ | pairingComplete _ _ => rfl
  | unknown code =>
    have hnone : fixedPart? code = none := h
    simp only [opcode]
    split
    any_goals cases hnone
    rfl

theorem exists_ofFrame_iff : (∃ f, ofFrame f = .ok r) ↔ r.Reportable := by
  constructor
  · rintro ⟨f, hf⟩
    exact (of_ofFrame hf).2.1
  · intro h
    obtain ⟨g, -, hcode, hpayload⟩ := exists_toFrame h
    exact ⟨g, ofFrame_of_reportable h hcode hpayload⟩

/-- **Events are read exactly, and survive the wire.** A frame is refused if and only if its opcode is
that of an event with a fixed part and its payload is shorter, and always for its length.

An event that was read is written to a frame of the same opcode, which is read as that event again;
it is the same frame where the event keeps the data after its fixed part. The events that can be read
are the reportable ones, and each of them survives: its frame, written over any buffer that has room
for every frame and fed to an idle reader, is returned at its last byte, and read as the event. -/
theorem events_read_exactly :
    (∀ (f : Frame) (e : FrameError), ofFrame f = .error e ↔
      e = .invalidLength ∧
        ∃ fixed, fixedPart? f.opcode = some fixed ∧ f.payload.size < fixed) ∧
    (∀ (f : Frame) (r : Response), ofFrame f = .ok r →
      ∃ g, r.toFrame = .ok g ∧ g.opcode = f.opcode ∧ ofFrame g = .ok r ∧
        (r.carriesData = true → g = f)) ∧
    ∀ r : Response, ((∃ f, ofFrame f = .ok r) ↔ r.Reportable) ∧
      (r.Reportable → ∀ buffer : Bytes, Frame.maxSize ≤ buffer.length →
        ∃ g count written, r.toFrame = .ok g ∧ g.encodeInto buffer = .ok (count, written) ∧
          FrameReader.feedAll .idle (written.take count) =
            (List.replicate (count - 1) (.ok none) ++ [.ok (some g)], .idle) ∧
          ofFrame g = .ok r) := by
  refine ⟨fun f e => ofFrame_eq_error_iff, fun f r hf => ?_, fun r => ⟨exists_ofFrame_iff, ?_⟩⟩
  · obtain ⟨hcode, hreportable, hkept⟩ := of_ofFrame hf
    obtain ⟨g, hg, hgcode, hgpayload⟩ := exists_toFrame hreportable
    refine ⟨g, hg, hgcode.trans hcode, ofFrame_of_reportable hreportable hgcode hgpayload, ?_⟩
    intro hdata
    have hpayload : g.payload = f.payload := Buffer.ext (hgpayload.trans (hkept hdata))
    obtain ⟨opcode, payload⟩ := g
    obtain ⟨opcode', payload'⟩ := f
    rw [Frame.mk.injEq]
    exact ⟨hgcode.trans hcode, hpayload⟩
  · intro hreportable buffer hbuffer
    obtain ⟨g, hg, hgcode, hgpayload⟩ := exists_toFrame hreportable
    obtain ⟨count, written, hwritten, -, hfed⟩ := FrameReader.reads_back g hbuffer
    exact ⟨g, count, written, hg, hwritten, hfed,
      ofFrame_of_reportable hreportable hgcode hgpayload⟩

/-- A status that no frame reports: its code has a name. -/
example : ¬ (statusReport (.unknown 0x0C)).Reportable := by decide

end RoomControl.Response
