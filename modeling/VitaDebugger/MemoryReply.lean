import VitaDebugger.PacketBuffer
import VitaDebugger.RspRequests
import VitaDebugger.SpanMemory

/-! The answer to a memory read. The main loop of `uvdb.c` first probes the whole range and then
copies it once more into the reply; the memory may go away in between. -/

namespace VitaDebugger.MemoryReply
open ConsoleFrame PacketBuffer RspFrame RspRequests SpanMemory List

/-- What one pass meets: the bytes it would read, and how many of them every copy serves. -/
structure Pass where
  memory : ℕ → UInt8
  serves : ℕ → ℕ → ℕ

def safeMemcpy (pass : Pass) (addr size : ℕ) : Bytes :=
  load pass.memory addr (min (pass.serves addr size) size)

/-- The part of the range the first pass did not get to. -/
def probeLoop (pass : Pass) (addr remaining : ℕ) : ℕ :=
  if remaining = 0 then 0
  else
    let chunk := min remaining 64
    if (safeMemcpy pass addr chunk).length ≠ chunk then remaining
    else probeLoop pass (addr + chunk) (remaining - chunk)
termination_by remaining
decreasing_by omega

section Replies
variable (maximum : ℕ) (grants : ℕ → Bool)

def writeHex (bytes : Bytes) (buf : Buffer) : Buffer := bytes.foldl (fun buf (c : UInt8) =>
    bufferWrite maximum grants [int2hex (c >>> 4), int2hex (c &&& 15)] buf) buf

/-- `E0e` -/
def readFault : Bytes := [69, 48, 101]

def replyLoop (pass : Pass) (replyStart addr remaining : ℕ) (buf : Buffer) : Buffer :=
  if remaining = 0 then buf
  else
    let chk := min remaining 64
    let bytes := safeMemcpy pass addr chk
    if bytes.length < chk then
      bufferWrite maximum grants readFault { buf with data := buf.data.take replyStart }
    else replyLoop pass replyStart (addr + chk) (remaining - chk)
      (writeHex maximum grants bytes buf)
termination_by remaining
decreasing_by omega

def maximumRead : ℕ := (maximum - 4) / 2

def memoryRead (first second : Pass) (packet : Bytes) (buf : Buffer) : Buffer :=
  match parseMemoryPacket packet (maximumRead maximum) false with
  | none => bufferWrite maximum grants [69, 48, 49] buf
  | some request =>
    if probeLoop first request.address request.size ≠ 0 then
      bufferWrite maximum grants readFault buf
    else replyLoop maximum grants second buf.data.length request.address request.size buf

/-- The framed reply, as `send_packet` flushes it. -/
def memoryReply (first second : Pass) (packet : Bytes) (buf : Buffer) : Buffer :=
  bufferEndPacket maximum grants
    (memoryRead maximum grants first second packet (bufferStartPacket maximum grants buf))

end Replies

variable {maximum start addr remaining : ℕ} {grants : ℕ → Bool} {data : Bytes} {buf : Buffer}
  {pass : Pass}

/-- A buffer that took every write so far. -/
structure Holding (maximum start : ℕ) (data : Bytes) (buf : Buffer) : Prop where
  fits : Fits maximum buf
  data : buf.data = data
  start : buf.packetStart = start
  working : buf.failed = false

theorem Holding.write (hh : Holding maximum start data buf)
    (hg : ∀ size, grants size = true) {s : Bytes}
    (hr : data.length + s.length ≤ maximum) :
    Holding maximum start (data ++ s) (bufferWrite maximum grants s buf) := by
  obtain ⟨hf, rfl, rfl, hw⟩ := hh
  obtain ⟨cap, hwr, hf⟩ := bufferWrite_fits hg hf hr
  rw [hwr]
  exact ⟨hf, rfl, rfl, hw⟩

theorem Holding.writeHex (hh : Holding maximum start data buf)
    (hg : ∀ size, grants size = true) {bs : Bytes}
    (hr : data.length + 2 * bs.length ≤ maximum) :
    Holding maximum start (data ++ bs.flatMap writeByte) (writeHex maximum grants bs buf) := by
  induction bs generalizing data buf with
  | nil => simpa [MemoryReply.writeHex] using hh
  | cons c bs ih =>
    rw [length_cons] at hr
    have one := hh.write hg (show data.length + (writeByte c).length ≤ maximum by
      simp [writeByte]
      omega)
    have all := ih one (by
      simp [writeByte]
      omega)
    simpa [MemoryReply.writeHex, int2hex_eq, writeByte] using all

/-- A copy that serves less than it was asked for. -/
def Faults (pass : Pass) : Prop := ∃ addr size, pass.serves addr size < size

theorem safeMemcpy_short {size : ℕ} (hs : (safeMemcpy pass addr size).length < size) :
    Faults pass := by
  refine ⟨addr, size, ?_⟩
  rw [safeMemcpy, load_length] at hs
  omega

theorem safeMemcpy_whole {s : ℕ} (hw : ¬(safeMemcpy pass addr s).length < s) :
    safeMemcpy pass addr s = load pass.memory addr s := by
  rw [safeMemcpy, load_length] at hw
  rw [safeMemcpy, min_eq_right (by omega)]

theorem probeLoop_fault (hl : probeLoop pass addr remaining ≠ 0) : Faults pass := by
  fun_induction probeLoop pass addr remaining with
  | case1 => exact absurd rfl hl
  | case2 addr remaining hm c ho =>
    refine safeMemcpy_short (lt_of_le_of_ne ?_ ho)
    rw [safeMemcpy, load_length]
    exact min_le_right _ _
  | case3 addr remaining hm c hw ih => exact ih hl

/-- The second pass adds the rest of the range, or leaves the error reply alone. -/
theorem Holding.reply {f w : Bytes} (hg : ∀ size, grants size = true)
    (hh : Holding maximum start (f ++ w) buf)
    (hro : f.length + w.length + 2 * remaining ≤ maximum)
    (he : f.length + 3 ≤ maximum) :
    Holding maximum start (f ++ (w ++ (load pass.memory addr remaining).flatMap writeByte))
      (replyLoop maximum grants pass f.length addr remaining buf) ∨
    Faults pass ∧ Holding maximum start (f ++ readFault)
      (replyLoop maximum grants pass f.length addr remaining buf) := by
  fun_induction replyLoop maximum grants pass f.length addr remaining buf generalizing w with
  | case1 addr buf => exact .inl (by simpa using hh)
  | case2 addr remaining buf hm chk bs =>
    rename_i hs
    have hr : Holding maximum start f { buf with data := buf.data.take f.length } := by
      refine ⟨⟨?_, hh.fits.bounded⟩, ?_, hh.start, hh.working⟩
      · exact le_trans (length_take_le' _ _) hh.fits.held
      · rw [hh.data, take_left]
    exact .inr ⟨safeMemcpy_short hs, hr.write hg he⟩
  | case3 addr remaining buf hm chk bs hw =>
    rename_i ih
    have hc : bs = load pass.memory addr chk := safeMemcpy_whole hw
    have size : bs.length = chk := by rw [hc, load_length]
    have hi : chk ≤ remaining := min_le_left _ _
    have hl := hh.writeHex hg (show _ + 2 * bs.length ≤ maximum by
      rw [length_append]
      omega)
    rw [append_assoc] at hl
    have hsp : load pass.memory addr remaining =
        bs ++ load pass.memory (addr + chk) (remaining - chk) := by
      rw [hc, ← load_add, Nat.add_sub_cancel' hi]
    rw [hsp, flatMap_append, ← append_assoc w]
    refine ih hl ?_
    rw [length_append, length_flatMap_writeByte]
    omega

theorem Holding.closed {p : Bytes} (hh : Holding maximum 1 (36 :: p) buf)
    (hg : ∀ size, grants size = true) (hr : p.length + 4 ≤ maximum) :
    Holding maximum 1 (36 :: (p ++ [35, int2hex (checksum p >>> 4),
      int2hex (checksum p &&& 15)])) (bufferEndPacket maximum grants buf) := by
  rw [bufferEndPacket, hh.start, hh.data]
  exact hh.write hg hr

/-- The reply to an accepted memory read fits the buffer. Its payload is the hexadecimal text of
the whole range as the second pass read it, or the one error reply, and that only after a fault. -/
theorem memory_reply (granted : ∀ size, grants size = true) (large : minBuffer ≤ maximum)
    (fits : Fits maximum buf) (flushed : buf.data = []) (working : buf.failed = false)
    (first second : Pass) (packet : Bytes) (request : MemoryRequest)
    (accepted : parseMemoryPacket packet (maximumRead maximum) false = some request) :
    ∃ payload : Bytes, (memoryReply maximum grants first second packet buf).data =
        (36 : UInt8) :: (payload ++
          [35, int2hex (checksum payload >>> 4), int2hex (checksum payload &&& 15)]) ∧
      (memoryReply maximum grants first second packet buf).data.length ≤ maximum ∧
      (memoryReply maximum grants first second packet buf).failed = false ∧
      (payload = (load second.memory request.address request.size).flatMap writeByte ∨
        payload = readFault ∧ (Faults first ∨ Faults second)) := by
  obtain ⟨-, -, -, -, -, hsm, -⟩ := parseMemoryPacket_read.mp accepted
  rw [maximumRead] at hsm
  rw [minBuffer] at large
  have ho : Holding maximum 1 [36] (bufferStartPacket maximum grants buf) := by
    have hem : Holding maximum buf.packetStart [] buf := ⟨fits, flushed, rfl, working⟩
    have hd := hem.write granted (show 0 + [(36 : UInt8)].length ≤ maximum by
      rw [length_singleton]
      omega)
    exact ⟨⟨hd.fits.held, hd.fits.bounded⟩, hd.data, congrArg List.length hd.data, hd.working⟩
  have he : readFault.length + 4 ≤ maximum := by
    change 3 + 4 ≤ maximum
    omega
  have hb : ∃ payload : Bytes, payload.length + 4 ≤ maximum ∧ Holding maximum 1 (36 :: payload)
        (memoryRead maximum grants first second packet (bufferStartPacket maximum grants buf)) ∧
      (payload = (load second.memory request.address request.size).flatMap writeByte ∨
        payload = readFault ∧ (Faults first ∨ Faults second)) := by
    rw [memoryRead, accepted]
    dsimp only
    split
    · next hl =>
      exact ⟨readFault, he, ho.write granted (show 1 + 3 ≤ maximum by omega),
        .inr ⟨rfl, .inl (probeLoop_fault hl)⟩⟩
    have ha := @Holding.reply maximum 1 request.address request.size grants _ second [36] []
      granted ho (by simp; omega) (by simp; omega)
    rw [ho.data]
    rcases ha with hw | ⟨hf, hal⟩
    · refine ⟨(load second.memory request.address request.size).flatMap writeByte, ?_, hw, .inl rfl⟩
      rw [length_flatMap_writeByte, load_length]
      omega
    · exact ⟨readFault, he, hal, .inr ⟨rfl, .inr hf⟩⟩
  obtain ⟨payload, hs, hh, hou⟩ := hb
  have hc := hh.closed granted hs
  exact ⟨payload, hc.data, le_trans hc.fits.held hc.fits.bounded, hc.working, hou⟩

/-- `m10,2` when the second pass is served one byte only. -/
theorem memory_reply_late_fault : ∃ payload : Bytes,
    (memoryReply 4096 (fun _ => true) ⟨fun _ => 0, fun _ size => size⟩ ⟨fun _ => 7, fun _ _ => 1⟩
      [109, 49, 48, 44, 50] emptyBuffer).data = (36 : UInt8) :: (payload ++
        [35, int2hex (checksum payload >>> 4), int2hex (checksum payload &&& 15)]) ∧
    (payload = [48, 55, 48, 55] ∨ payload = readFault) := by
  obtain ⟨payload, data, -, -, ho⟩ := @memory_reply 4096 (fun _ => true) emptyBuffer
    (fun _ => rfl) (le_refl 4096) ⟨le_refl 0, Nat.zero_le _⟩ rfl rfl
    ⟨fun _ => 0, fun _ size => size⟩ ⟨fun _ => 7, fun _ _ => 1⟩ [109, 49, 48, 44, 50]
    ⟨16, 2, []⟩ rfl
  exact ⟨payload, data, ho.imp (·.trans (by decide)) And.left⟩

end VitaDebugger.MemoryReply
