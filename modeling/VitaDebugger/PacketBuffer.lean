import VitaDebugger.ConsoleFrame

/-! The growing buffers of `uvdb.c`: the one that received bytes wait in and the one that
packets are built in. -/

namespace VitaDebugger.PacketBuffer
open RspHex RspFrame ConsoleFrame List Nat

abbrev minBuffer : ℕ := 4096

/-- `data` is the used part of a memory block of `cap` bytes; `failed` is what
`uvdb_note_io_failure` notes for a write. -/
structure Buffer where
  data : Bytes
  cap : ℕ
  packetStart : ℕ
  failed : Bool
  deriving DecidableEq

def emptyBuffer : Buffer := ⟨[], 0, 0, false⟩

def bufferPopleft (count : ℕ) (buf : Buffer) : Buffer := { buf with data := buf.data.drop count }

/-- Twice the capacity, or the first one, up to the maximum. -/
def nextCap (maximum cap : ℕ) : ℕ :=
  let doubled := if cap * 2 = 0 then minBuffer else cap * 2
  if maximum < doubled then maximum else doubled

/-- The space offered behind the used part. `grants` tells which sizes can be allocated. -/
def bufferGetspace (maximum : ℕ) (grants : ℕ → Bool) (buf : Buffer) : ℕ × Buffer :=
  if buf.data.length = buf.cap then
    let cap := nextCap maximum buf.cap
    if cap ≤ buf.cap then (0, buf)
    else if grants cap then (cap - buf.data.length, { buf with cap })
    else (0, buf)
  else (buf.cap - buf.data.length, buf)

/-- The loop of `buffer_write`; every round writes a byte, so the size of the source is enough. -/
def writeLoop (maximum : ℕ) (grants : ℕ → Bool) : ℕ → Bytes → Buffer → Buffer
  | _, [], buf => buf
  | 0, _ :: _, buf => { buf with failed := true }
  | fuel + 1, source, buf =>
    let space := (bufferGetspace maximum grants buf).1
    let buf := (bufferGetspace maximum grants buf).2
    if space = 0 then { buf with failed := true }
    else writeLoop maximum grants fuel (source.drop space)
      { buf with data := buf.data ++ source.take space }

def bufferWrite (maximum : ℕ) (grants : ℕ → Bool) (source : Bytes) (buf : Buffer) : Buffer :=
  writeLoop maximum grants source.length source buf

def bufferStartPacket (maximum : ℕ) (grants : ℕ → Bool) (buf : Buffer) : Buffer :=
  let buf := bufferWrite maximum grants [36] buf
  { buf with packetStart := buf.data.length }

def int2hex (value : UInt8) : UInt8 := if value < 10 then value + 48 else value - 10 + 97

def bufferEndPacket (maximum : ℕ) (grants : ℕ → Bool) (buf : Buffer) : Buffer :=
  let cksum := checksum (buf.data.drop buf.packetStart)
  bufferWrite maximum grants [35, int2hex (cksum >>> 4), int2hex (cksum &&& 15)] buf

section Space
variable {maximum : ℕ} {gs : ℕ → Bool} {buf : Buffer}

structure Fits (maximum : ℕ) (buf : Buffer) : Prop where
  held : buf.data.length ≤ buf.cap
  bounded : buf.cap ≤ maximum

theorem nextCap_bounds (maximum cap : ℕ) :
    nextCap maximum cap ≤ maximum ∧ (cap < maximum → cap < nextCap maximum cap) := by
  unfold nextCap minBuffer
  dsimp only
  split_ifs <;> omega

theorem bufferGetspace_eq (gs : ℕ → Bool) (hf : Fits maximum buf) :
    ∃ cap, buf.cap ≤ cap ∧ cap ≤ maximum ∧
    (bufferGetspace maximum gs buf).2 = { buf with cap } ∧
    ((bufferGetspace maximum gs buf).1 = 0 ∨
      (bufferGetspace maximum gs buf).1 = cap - buf.data.length) := by
  have hb := hf.bounded
  unfold bufferGetspace
  split
  · dsimp only
    split
    · exact ⟨buf.cap, le_refl _, hb, rfl, .inl rfl⟩
    · split
      · exact ⟨_, by omega, (nextCap_bounds maximum buf.cap).1, rfl, .inr rfl⟩
      · exact ⟨buf.cap, le_refl _, hb, rfl, .inl rfl⟩
  · exact ⟨buf.cap, le_refl _, hb, rfl, .inr rfl⟩

theorem bufferGetspace_pos (hf : Fits maximum buf) (hr : buf.data.length < maximum)
    (hg : ∀ size, gs size = true) : 0 < (bufferGetspace maximum gs buf).1 := by
  have hh := hf.held
  unfold bufferGetspace
  split
  · next hfu =>
    have hgr := (nextCap_bounds maximum buf.cap).2 (by omega)
    dsimp only
    rw [hg, if_neg (by omega), if_pos rfl]
    omega
  · omega

theorem writeLoop_eq (maximum : ℕ) (gs : ℕ → Bool) (fuel : ℕ) (s : Bytes)
    (buf : Buffer) : ∃ c cap failed,
    writeLoop maximum gs fuel s buf =
      { buf with data := buf.data ++ s.take c, cap, failed } ∧
    (failed = false → s.length ≤ c ∧ buf.failed = false) := by
  induction fuel generalizing s buf with
  | zero =>
    cases s with
    | nil => exact ⟨0, buf.cap, buf.failed, by simp [writeLoop], fun hk => ⟨le_refl 0, hk⟩⟩
    | cons byte s => exact ⟨0, buf.cap, true, by simp [writeLoop], nofun⟩
  | succ fuel ih =>
    cases s with
    | nil => exact ⟨0, buf.cap, buf.failed, by simp [writeLoop], fun hk => ⟨le_refl 0, hk⟩⟩
    | cons byte s =>
      have hg : ∃ cap, (bufferGetspace maximum gs buf).2 = { buf with cap } := by
        unfold bufferGetspace
        dsimp only
        split_ifs <;> exact ⟨_, rfl⟩
      obtain ⟨cap, hg⟩ := hg
      rw [writeLoop, hg]
      · split
        · exact ⟨0, cap, true, by simp, nofun⟩
        generalize (bufferGetspace maximum gs buf).1 = spc
        obtain ⟨c, cap, failed, hw, hwh⟩ := ih ((byte :: s).drop spc)
          { buf with data := buf.data ++ (byte :: s).take spc, cap }
        refine ⟨spc + c, cap, failed, ?_, fun hk => ?_⟩
        · rw [hw, append_assoc, ← take_add]
        · obtain ⟨hl, hk⟩ := hwh hk
          rw [length_drop] at hl
          exact ⟨by omega, hk⟩
      · exact cons_ne_nil _ _

theorem bufferWrite_data {s : Bytes}
    (hk : (bufferWrite maximum gs s buf).failed = false) :
    (bufferWrite maximum gs s buf).data = buf.data ++ s ∧
    (bufferWrite maximum gs s buf).packetStart = buf.packetStart ∧ buf.failed = false := by
  obtain ⟨count, cap, failed, hw, hwh⟩ := writeLoop_eq maximum gs s.length s buf
  rw [bufferWrite, hw] at hk ⊢
  obtain ⟨hl, hk⟩ := hwh hk
  exact ⟨by rw [take_of_length_le hl], rfl, hk⟩

theorem bufferWrite_fits (hg : ∀ size, gs size = true) {s : Bytes}
    (hf : Fits maximum buf) (hr : buf.data.length + s.length ≤ maximum) :
    ∃ cap, bufferWrite maximum gs s buf = { buf with data := buf.data ++ s, cap } ∧
      Fits maximum { buf with data := buf.data ++ s, cap } := by
  have hl (f : ℕ) (s : Bytes) (buf : Buffer) (he : s.length ≤ f)
      (hf : Fits maximum buf) (hr : buf.data.length + s.length ≤ maximum) :
      ∃ cap, writeLoop maximum gs f s buf = { buf with data := buf.data ++ s, cap } ∧
        Fits maximum { buf with data := buf.data ++ s, cap } := by
    induction f generalizing s buf with
    | zero =>
      obtain rfl := eq_nil_of_length_eq_zero (le_zero.mp he)
      exact ⟨buf.cap, by simp [writeLoop], by simpa using hf⟩
    | succ f ih =>
      cases s with
      | nil => exact ⟨buf.cap, by simp [writeLoop], by simpa using hf⟩
      | cons b s =>
        obtain ⟨cap, low, hh, hgr, hof⟩ := bufferGetspace_eq gs hf
        rw [length_cons] at he hr
        have ho := bufferGetspace_pos hf (by omega) hg
        rw [writeLoop, hgr]
        · rw [if_neg (by omega)]
          generalize (bufferGetspace maximum gs buf).1 = space at *
          have size : ((b :: s).drop space).length = s.length + 1 - space := by
            rw [length_drop, length_cons]
          have hp : ((b :: s).take space).length ≤ space := length_take_le _ _
          have hwh : (buf.data ++ (b :: s).take space).length +
              ((b :: s).drop space).length = buf.data.length + s.length + 1 := by
            rw [length_append, length_take, length_drop, length_cons]
            omega
          obtain ⟨last, hw, hf⟩ := ih ((b :: s).drop space)
            { buf with data := buf.data ++ (b :: s).take space, cap } (by omega)
            ⟨by rw [length_append]; dsimp only; omega, hh⟩ (by dsimp only; omega)
          rw [append_assoc, take_append_drop] at hw hf
          exact ⟨last, hw, hf⟩
        · exact cons_ne_nil _ _
  exact hl s.length s buf (le_refl _) hf hr

end Space

/-! Received bytes. -/

theorem rspScanFrame_incomplete {i : Bytes} {maximum : ℕ} {f : Frame}
    (hw : rspScanFrame i maximum = (.incomplete, f)) : i.length ≤ maximum + 3 := by
  have hb := scanMarker_bounds i.tail 1 false (le_refl 1) (zero_le maximum)
  unfold rspScanFrame at hw
  split at hw
  · next he =>
    rw [he]
    exact zero_le _
  split at hw
  · cases hw
  split at hw
  · cases hw
  · next hen =>
    simp only [hen, length_tail] at hb
    omega
  next mr hf =>
  split at hw
  · cases hw
  split at hw
  · omega
  rcases checkFrame_cases i mr with hr | hc
  · rw [hr] at hw
    cases hw
  · rw [hc] at hw
    cases hw

/-- The receive buffer while packets are served. Frames are taken from its front, and so are
acknowledgements; a packet may be overwritten in place; a wait reads at least one byte into the
space offered. -/
inductive Receives (maximum : ℕ) (noAck : Bool) : Buffer → Prop
  | start : Receives maximum noAck emptyBuffer
  | take {buf : Buffer} {event : Option RecvEvent} {rest : Bytes}
      (before : Receives maximum noAck buf)
      (taken : recvScan (maximum - 4) noAck buf.data = .take event rest) :
      Receives maximum noAck { buf with data := rest }
  | pop {buf : Buffer} (before : Receives maximum noAck buf) (count : ℕ) :
      Receives maximum noAck (bufferPopleft count buf)
  | overwrite {buf : Buffer} (before : Receives maximum noAck buf) (data : Bytes)
      (same : data.length = buf.data.length) : Receives maximum noAck { buf with data }
  | poll {buf : Buffer} (before : Receives maximum noAck buf)
      (waits : recvScan (maximum - 4) noAck buf.data = .wait) (grants : ℕ → Bool)
      (read : Bytes) (some : read ≠ [])
      (offered : read.length ≤ (bufferGetspace maximum grants buf).1) :
      Receives maximum noAck { (bufferGetspace maximum grants buf).2 with data := buf.data ++ read }

theorem Receives.fits {maximum : ℕ} {noAck : Bool} {buf : Buffer}
    (run : Receives maximum noAck buf) : Fits maximum buf := by
  induction run with
  | start => exact ⟨le_refl 0, zero_le _⟩
  | take hb ht ih =>
    have hs := recvScan_shrinks ht
    exact ⟨le_trans (le_of_lt hs) ih.held, ih.bounded⟩
  | pop hb count ih =>
    exact ⟨by simpa [bufferPopleft] using le_trans (sub_le _ _) ih.held, ih.bounded⟩
  | overwrite hb data hsa ih => exact ⟨hsa ▸ ih.held, ih.bounded⟩
  | @poll buf hb hw gra read hso ho ih =>
    obtain ⟨cap, low, hh, hg, hsp⟩ := bufferGetspace_eq gra ih
    have hf := length_pos_of_ne_nil hso
    rw [hg]
    refine ⟨?_, hh⟩
    change (buf.data ++ read).length ≤ cap
    rw [length_append]
    omega

/-- Whenever the scanner asks for more, there is space for it. -/
theorem receive_never_full (maximum : ℕ) (large : minBuffer ≤ maximum) :
    (∀ input frame, rspScanFrame input (maximum - 4) = (.incomplete, frame) →
      input.length ≤ maximum - 1) ∧
    ∀ noAck buf, Receives maximum noAck buf → buf.cap ≤ maximum ∧
      (recvScan (maximum - 4) noAck buf.data = .wait → ∀ grants : ℕ → Bool,
        (∀ size, grants size = true) → 1 ≤ (bufferGetspace maximum grants buf).1) := by
  have hs (input : Bytes) (frame : Frame)
      (hw : rspScanFrame input (maximum - 4) = (.incomplete, frame)) :
      input.length ≤ maximum - 1 := by
    have hb := rspScanFrame_incomplete hw
    unfold minBuffer at large
    omega
  refine ⟨hs, fun noAck buf run => ⟨run.fits.bounded, fun hw grants hg => ?_⟩⟩
  rw [recvScan_eq] at hw
  rcases ho : rspScanFrame buf.data (maximum - 4) with ⟨r, frame⟩
  rw [ho] at hw
  cases r with
  | incomplete =>
    have hb := hs _ _ ho
    unfold minBuffer at large
    exact bufferGetspace_pos run.fits (by omega) hg
  | complete => cases hw
  | discard => cases hw

/-- A packet with the longest payload, up to its last byte. -/
def openFrame : Bytes := 36 :: (replicate 4092 97 ++ [35, 48])

/-- All but one byte of the buffer is taken by an open frame that came in two reads. -/
theorem receive_never_full_open : Receives 4096 false ⟨openFrame, 4096, 0, false⟩ ∧
    openFrame.length = 4095 ∧ recvScan 4092 false openFrame = .wait ∧
    1 ≤ (bufferGetspace 4096 (fun _ => true) ⟨openFrame, 4096, 0, false⟩).1 := by
  have scanned : rspScanFrame openFrame 4092 = (.incomplete, .zero) := by decide +kernel
  have waits : recvScan (4096 - 4) false openFrame = .wait := by
    rw [recvScan_eq, scanned]
    rfl
  have first : Receives 4096 false ⟨[36], 4096, 0, false⟩ :=
    .poll .start rfl (fun _ => true) [36] (cons_ne_nil _ _) (by decide)
  have run : Receives 4096 false ⟨openFrame, 4096, 0, false⟩ :=
    .poll first rfl (fun _ => true) openFrame.tail (cons_ne_nil _ _) (by decide +kernel)
  have full := (receive_never_full 4096 (by decide)).2 false _ run
  exact ⟨run, by decide +kernel, waits, full.2 waits _ fun _ => rfl⟩

/-! Packets. -/

/-- A packet whose payload is written in pieces. -/
def framePacket (maximum : ℕ) (grants : ℕ → Bool) (pieces : List Bytes) (buf : Buffer) : Buffer :=
  bufferEndPacket maximum grants
    (pieces.foldl (fun buf piece => bufferWrite maximum grants piece buf)
    (bufferStartPacket maximum grants buf))

section Packets
variable {m : ℕ} {grs : ℕ → Bool} {buf : Buffer}

theorem int2hex_eq (v : UInt8) : int2hex v = hexDigit v := by
  unfold int2hex hexDigit
  split
  · exact UInt8.add_comm _ _
  · grind

theorem writes_data {ps : List Bytes} {buf : Buffer}
    (hk : (ps.foldl (fun buf p => bufferWrite m grs p buf) buf).failed = false) :
    (ps.foldl (fun buf p => bufferWrite m grs p buf) buf).data =
        buf.data ++ ps.flatten ∧
      (ps.foldl (fun buf p => bufferWrite m grs p buf) buf).packetStart =
        buf.packetStart ∧ buf.failed = false := by
  induction ps generalizing buf with
  | nil => exact ⟨by simp, rfl, hk⟩
  | cons p ps ih =>
    obtain ⟨hd, hs, hk⟩ := ih hk
    obtain ⟨hf, hsa, hk⟩ := bufferWrite_data hk
    rw [hf] at hd
    exact ⟨by simpa using hd, hs.trans hsa, hk⟩

theorem framePacket_data {ps : List Bytes}
    (hk : (framePacket m grs ps buf).failed = false) :
    (framePacket m grs ps buf).data = buf.data ++ (36 : UInt8) :: (ps.flatten ++
      [35, int2hex (checksum ps.flatten >>> 4), int2hex (checksum ps.flatten &&& 15)]) := by
  obtain ⟨hw, -, hk⟩ := bufferWrite_data hk
  obtain ⟨hbo, hs, hk⟩ := writes_data hk
  obtain ⟨hf, -, -⟩ := bufferWrite_data hk
  have hb : (bufferStartPacket m grs buf).data = buf.data ++ [36] := hf
  have hp : (bufferStartPacket m grs buf).packetStart = (buf.data ++ [36]).length :=
    congrArg List.length hf
  rw [hbo, hs, hb, hp, drop_left] at hw
  rw [framePacket, bufferEndPacket, hbo, hs, hb, hp, drop_left, hw]
  simp

theorem hexValue_int2hex {v : UInt8} (hs : v.toNat < 16) :
    hexValue (int2hex v) = some v := by rw [int2hex_eq, hexValue_hexDigit hs]

theorem toNat_checksum (p : Bytes) : (checksum p).toNat = (p.map UInt8.toNat).sum % 256 := by
  have hs (sum : UInt8) : (p.foldl (· + ·) sum).toNat =
      (sum.toNat + (p.map UInt8.toNat).sum) % 256 := by
    induction p generalizing sum with
    | nil => exact (mod_eq_of_lt sum.toNat_lt).symm
    | cons byte rest ih =>
      rw [foldl_cons, ih, UInt8.toNat_add, map_cons, sum_cons]
      omega
  rw [checksum, hs 0]
  exact congrArg (· % 256) (zero_add _)

end Packets

/-- What the scanner reports and what the two encoders write. -/
theorem frame_recognition (maximum : ℕ) :
    (∀ input frame, rspScanFrame input maximum = (.complete, frame) ↔
      ∃ payload high low rest, input = 36 :: (payload ++ 35 :: high :: low :: rest) ∧
        payload.length ≤ maximum ∧ Runs false payload ∧
        (∃ h l, hexValue high = some h ∧ hexValue low = some l ∧
          16 * h.toNat + l.toNat = (payload.map UInt8.toNat).sum % 256) ∧
        frame = ⟨1, payload.length, payload.length + 4, false⟩) ∧
    (∀ limit grants pieces buf, (∀ byte ∈ pieces.flatten, Plain byte) →
      pieces.flatten.length ≤ maximum → (framePacket limit grants pieces buf).failed = false →
      ∃ frame, (framePacket limit grants pieces buf).data = buf.data ++ frame ∧
        recvScan maximum true frame = .take (some (.payload pieces.flatten)) []) ∧
    ∀ data frame, transportFrameRecord data = some frame → 1 + 2 * data.length ≤ maximum →
      recvScan maximum true frame = .take (some (.payload (79 :: data.flatMap writeByte))) [] := by
  have hs {input payload : Bytes} {high low : UInt8}
      (hp : Packet input payload high low []) (hf : payload.length ≤ maximum) :
      recvScan maximum true input = .take (some (.payload payload)) [] := by
    rw [recvScan_eq, hp.complete hf, hp.bytes]
    simp [Takes]
  refine ⟨fun input frame => ?_, fun limit grants pieces buf hpl hf hk => ?_, ?_⟩
  · rw [rspScanFrame_complete_iff]
    constructor
    · rintro ⟨payload, high, low, rest, ⟨hb, hr, h, l, hhd, hld, sum⟩, hf, rfl⟩
      refine ⟨payload, high, low, rest, hb, hf, hr, ⟨h, l, hhd, hld, ?_⟩, rfl⟩
      rw [← toNat_checksum, sum, joined_nibbles (hexValue_lt hhd) (hexValue_lt hld)]
    rintro ⟨payload, high, low, rest, hb, hf, hr, ⟨h, l, hhd, hld, sum⟩, rfl⟩
    refine ⟨payload, high, low, rest, ⟨hb, hr, h, l, hhd, hld, ?_⟩, hf, rfl⟩
    apply UInt8.toNat_inj.mp
    rw [toNat_checksum, joined_nibbles (hexValue_lt hhd) (hexValue_lt hld), sum]
  · exact ⟨_, framePacket_data hk, hs ⟨rfl, runs_of_plain hpl, _, _,
      hexValue_int2hex (high_small _), hexValue_int2hex (low_small _), (byte_of_nibbles _).symm⟩ hf⟩
  intro data frame hfr hf
  obtain ⟨payload, he, rfl⟩ := Option.map_eq_some_iff.mp hfr
  rw [encodeConsolePayload, Option.ite_none_left_eq_some] at he
  obtain ⟨-, he⟩ := he
  cases he
  refine hs (framed_packet (plain_payload data)) ?_
  rw [length_cons, length_flatMap_writeByte]
  omega

/-- The packet `$OK#9a` from an empty buffer. -/
theorem frame_recognition_ok :
    (framePacket 4096 (fun _ => true) [[79], [75]] emptyBuffer).failed = false ∧
    ∃ frame, (framePacket 4096 (fun _ => true) [[79], [75]] emptyBuffer).data = [] ++ frame ∧
      recvScan 2 true frame = .take (some (.payload [79, 75])) [] :=
  ⟨by decide, (frame_recognition 2).2.1 4096 (fun _ => true) [[79], [75]] emptyBuffer
    (by simp [Plain]) (by decide) (by decide)⟩

end VitaDebugger.PacketBuffer
