import RoomControl.Proofs.Frame.Stream
import RoomControl.Radio.Command

/-!
# Commands are told apart

A command has a frame exactly when its parameter fits (`exists_toFrame_iff`), and from that frame the
command can be told again (`ofFrame?_of_toFrame`): its opcode says which it is, and nothing of its
parameters is lost in the payload that all commands share. So two commands never have the same wire
form.

That the module does tell them so is not said here.
-/

set_option autoImplicit false

namespace RoomControl

theorem Frame.toBytes_injective {f g : Frame} (h : f.toBytes = g.toBytes) : f = g := by
  simp only [toBytes, wordBytes, List.cons_append, List.nil_append, List.cons.injEq] at h
  obtain ⟨-, -, -, hopcode, htail⟩ := h
  have hpayload : f.payload = g.payload := Buffer.ext (List.append_inj_left' htail rfl)
  cases f
  cases g
  simp_all

namespace Command

variable {c d : Command} {f : Frame} {packet : Bytes}

/-! ## Which commands fit -/

/-- The parameter is within the limit of its command. Data has one byte less than a payload, for the
handle before it. -/
def Fits : Command → Prop
  | writeDeviceName name => name.length ≤ maxName
  | writeAdvertisingData data | writeScanResponse data => data.length ≤ maxAdvertising
  | sendTransparentData _ data => data.length + 1 ≤ Frame.maxPayload
  | writePin pin => pin.length ≤ maxPin
  | _ => True

theorem limited_eq_ok_iff {limit : Nat} {parameter body : Bytes} :
    limited limit parameter = .ok body ↔ parameter.length ≤ limit ∧ body = parameter := by
  unfold limited
  split
  next hlong => simp [Nat.not_le.mpr hlong]
  next hlong => simp [Nat.not_lt.mp hlong, eq_comm]

/-- A text or data that the module is to keep. -/
theorem keeping_eq_ok_iff {limit : Nat} {parameter body : Bytes} :
    (limited limit parameter).map (keep :: ·) = .ok body ↔
      parameter.length ≤ limit ∧ body = keep :: parameter := by
  constructor
  · intro h
    cases hlimited : limited limit parameter with
    | error e =>
      rw [hlimited] at h
      cases h
    | ok held =>
      rw [hlimited] at h
      obtain ⟨hfits, rfl⟩ := limited_eq_ok_iff.mp hlimited
      exact ⟨hfits, (Except.ok.inj h).symm⟩
  · rintro ⟨hfits, rfl⟩
    rw [limited_eq_ok_iff.mpr ⟨hfits, rfl⟩]
    rfl

theorem toFrame_eq_ok_iff :
    c.toFrame = .ok f ↔ f.opcode = c.opcode ∧ c.payload = .ok f.payload.bytes := by
  unfold toFrame
  cases c.payload with
  | error e => simp [Except.bind]
  | ok body =>
    rw [Except.bind, Frame.ofPayload_eq_ok_iff, Except.ok.injEq]
    exact and_congr_right fun _ => eq_comm

/-- **A command has a frame exactly when its parameter fits.** -/
theorem exists_toFrame_iff : (∃ f, c.toFrame = .ok f) ↔ c.Fits := by
  constructor
  · rintro ⟨f, hf⟩
    obtain ⟨-, hpayload⟩ := toFrame_eq_ok_iff.mp hf
    have hmax : f.payload.bytes.length ≤ Frame.maxPayload := f.payload.fits
    cases c with
    | writeDeviceName kept | writeAdvertisingData kept | writeScanResponse kept =>
      exact (keeping_eq_ok_iff.mp hpayload).1
    | writePin pin => exact (limited_eq_ok_iff.mp hpayload).1
    | sendTransparentData handle data =>
      rw [← Except.ok.inj hpayload] at hmax
      exact hmax
    | _ => trivial
  · intro h
    obtain ⟨body, hbody, hmax⟩ : ∃ body, c.payload = .ok body ∧ body.length ≤ 128 := by
      cases c with
      | writeDeviceName kept | writeAdvertisingData kept | writeScanResponse kept =>
        exact ⟨_, keeping_eq_ok_iff.mpr ⟨h, rfl⟩, Nat.le_trans (Nat.succ_le_succ h) (by decide)⟩
      | writePin pin => exact ⟨_, limited_eq_ok_iff.mpr ⟨h, rfl⟩, Nat.le_trans h (by decide)⟩
      | sendTransparentData handle data => exact ⟨_, rfl, h⟩
      | _ => exact ⟨_, rfl, Nat.le_of_ble_eq_true rfl⟩
    exact ⟨⟨c.opcode, ⟨body, hmax⟩⟩, toFrame_eq_ok_iff.mpr ⟨rfl, hbody⟩⟩

/-! ## Telling a command from its frame -/

/-- The command with this frame. What no command writes is not looked for. -/
def ofFrame? (f : Frame) : Option Command :=
  let parameters := f.payload.bytes
  match f.opcode with
  | 0x01 => some readLocalInformation
  | 0x02 => some reset
  | 0x03 => some readStatus
  | 0x07 => some readDeviceName
  | 0x08 => some (writeDeviceName parameters.tail)
  | 0x09 => some erasePairedDevices
  | 0x0A => some readPairingMode
  | 0x0B => (parameters.head?.bind PairingMode.ofByte?).map writePairingMode
  | 0x0C => some readPairedDevices
  | 0x11 => some (writeAdvertisingData parameters.tail)
  | 0x12 => some (writeScanResponse parameters.tail)
  | 0x13 => some (setAdvertisingParameters (word (parameters.headD 0) (parameters.tail.headD 0)))
  | 0x1B => some disconnect
  | 0x1C => some (setAdvertisingEnable (parameters.head? = some 1))
  | 0x3F => parameters.head?.map (sendTransparentData · parameters.tail)
  | 0x50 => some readPin
  | 0x51 => some (writePin parameters)
  | _ => none

/-- **The command can be told from its frame.** -/
theorem ofFrame?_of_toFrame (h : c.toFrame = .ok f) : ofFrame? f = some c := by
  obtain ⟨hopcode, hpayload⟩ := toFrame_eq_ok_iff.mp h
  unfold ofFrame?
  rw [hopcode]
  cases c with
  | writeDeviceName kept | writeAdvertisingData kept | writeScanResponse kept =>
    rw [(keeping_eq_ok_iff.mp hpayload).2]
    rfl
  | writePin pin =>
    rw [(limited_eq_ok_iff.mp hpayload).2]
    rfl
  | sendTransparentData handle data =>
    rw [← Except.ok.inj hpayload]
    rfl
  | writePairingMode mode =>
    rw [← Except.ok.inj hpayload]
    cases mode <;> rfl
  | setAdvertisingParameters interval =>
    rw [← Except.ok.inj hpayload]
    exact congrArg (fun w => some (setAdvertisingParameters w)) (word_highByte_lowByte interval)
  | setAdvertisingEnable visible =>
    rw [← Except.ok.inj hpayload]
    cases visible <;> rfl
  | _ => rfl

theorem toBytes_eq_ok_iff : c.toBytes = .ok packet ↔ ∃ f, c.toFrame = .ok f ∧ packet = f.toBytes := by
  unfold toBytes
  cases c.toFrame with
  | error e => simp [Except.map]
  | ok f => simp [Except.map, eq_comm]

/-- **No two commands have the same wire form.** -/
theorem eq_of_toBytes (hc : c.toBytes = .ok packet) (hd : d.toBytes = .ok packet) : c = d := by
  obtain ⟨f, hf, rfl⟩ := toBytes_eq_ok_iff.mp hc
  obtain ⟨g, hg, hsame⟩ := toBytes_eq_ok_iff.mp hd
  obtain rfl := Frame.toBytes_injective hsame
  have htold := ofFrame?_of_toFrame hf
  rw [ofFrame?_of_toFrame hg] at htold
  exact (Option.some.inj htold).symm

/-- **Commands are written exactly, and no two alike.** A command has a frame if and only if its
parameter fits, and the frame has the opcode of the command. Written over any buffer that has room for
every frame, it is the wire form of the command, and an idle reader that is fed it returns that one
frame, at its last byte. Commands with the same wire form are the same, parameters included. -/
theorem commands_written_apart :
    (∀ c : Command, ((∃ f, c.toFrame = .ok f) ↔ c.Fits) ∧
      ∀ f, c.toFrame = .ok f → f.opcode = c.opcode ∧
        ∀ buffer : Bytes, Frame.maxSize ≤ buffer.length →
          ∃ count written, f.encodeInto buffer = .ok (count, written) ∧
            c.toBytes = .ok (written.take count) ∧
            FrameReader.feedAll .idle (written.take count) =
              (List.replicate (count - 1) (.ok none) ++ [.ok (some f)], .idle)) ∧
    ∀ (c d : Command) (packet : Bytes),
      c.toBytes = .ok packet → d.toBytes = .ok packet → c = d := by
  refine ⟨fun c => ⟨exists_toFrame_iff, fun f hf => ⟨?_, fun buffer hbuffer => ?_⟩⟩, ?_⟩
  · exact (toFrame_eq_ok_iff.mp hf).1
  · obtain ⟨count, written, hwritten, hbytes, hfed⟩ := FrameReader.reads_back f hbuffer
    exact ⟨count, written, hwritten, toBytes_eq_ok_iff.mpr ⟨f, hf, hbytes⟩, hfed⟩
  · intro c d packet
    exact eq_of_toBytes

end Command

end RoomControl
