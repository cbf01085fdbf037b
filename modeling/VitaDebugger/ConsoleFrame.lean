import VitaDebugger.RspFrame

/-! Console output packets: the payload of `uvdb_rsp_encode_console_payload` in the
frame of `transport_frame_record`, and what a peer that scans frames as the stub does
reads back. -/

namespace VitaDebugger.ConsoleFrame
open RspHex RspFrame List Nat

abbrev recordMax : ℕ := 128
abbrev payloadMax : ℕ := 1 + 2 * recordMax

def hexDigit (value : UInt8) : UInt8 := if value < 10 then 48 + value else 97 + value - 10

def writeByte (value : UInt8) : Bytes := [hexDigit (value >>> 4), hexDigit (value &&& 0xf)]

def encodeConsolePayload (capacity : ℕ) (data : Bytes) : Option Bytes :=
  if capacity < 1 + data.length * 2 then none else some (79 :: data.flatMap writeByte)

def transportHex (value : UInt32) : UInt8 := hexDigit (value &&& 0xf).toUInt8

def payloadSum (payload : Bytes) : UInt32 :=
  payload.foldl (fun checksum byte => checksum + byte.toUInt32) 0

def framed (payload : Bytes) : Bytes :=
  36 ::
    (payload ++ [35, transportHex (payloadSum payload >>> 4), transportHex (payloadSum payload)])

def transportFrameRecord (data : Bytes) : Option Bytes :=
  (encodeConsolePayload payloadMax data).map framed

/-- The bytes a peer takes from one whole frame. -/
def decodeConsoleFrame (frame : Bytes) : Option Bytes :=
  match rspScanFrame frame payloadMax with
  | (.complete, found) =>
    if found.consumedSize = frame.length then
      match (frame.drop found.payloadOffset).take found.payloadSize with
      | 79 :: text => hexPairs text
      | _ => none
    else none
  | _ => none

theorem digits_checked : ∀ n : Fin 16, hexValue (hexDigit (UInt8.ofNat n)) = some (UInt8.ofNat n) ∧
    hexDigit (UInt8.ofNat n) ≠ 35 ∧ hexDigit (UInt8.ofNat n) ≠ 36 ∧
      hexDigit (UInt8.ofNat n) ≠ 125 := by decide

theorem nibbles_checked : ∀ high low : Fin 16,
    (UInt8.ofNat high <<< 4 ||| UInt8.ofNat low) = UInt8.ofNat (16 * high + low) := by decide

theorem hexValue_hexDigit {value : UInt8} (hs : value.toNat < 16) :
    hexValue (hexDigit value) = some value := by
  have hc := (digits_checked ⟨value.toNat, hs⟩).1
  rwa [UInt8.ofNat_toNat] at hc

/-- Bytes that neither end, restart nor escape a payload. -/
def Plain (byte : UInt8) : Prop := byte ≠ 35 ∧ byte ≠ 36 ∧ byte ≠ 125

theorem plain_hexDigit {value : UInt8} (hs : value.toNat < 16) : Plain (hexDigit value) := by
  have hc := (digits_checked ⟨value.toNat, hs⟩).2
  rwa [UInt8.ofNat_toNat] at hc

theorem joined_nibbles {hg low : UInt8} (hhs : hg.toNat < 16) (hls : low.toNat < 16) :
    (hg <<< 4 ||| low).toNat = 16 * hg.toNat + low.toNat := by
  have hc := nibbles_checked ⟨hg.toNat, hhs⟩ ⟨low.toNat, hls⟩
  rw [UInt8.ofNat_toNat, UInt8.ofNat_toNat] at hc
  rw [hc, UInt8.toNat_ofNat_of_lt' (by change _ < 256; omega)]

variable (value : UInt8)

theorem toNat_high : (value >>> 4).toNat = value.toNat / 16 := by
  simp [shiftRight_eq_div_pow]

theorem toNat_low : (value &&& 0xf).toNat = value.toNat % 16 := by
  exact and_two_pow_sub_one_eq_mod value.toNat 4

theorem high_small : (value >>> 4).toNat < 16 := by
  have := value.toNat_lt
  rw [toNat_high]
  omega

theorem low_small : (value &&& 0xf).toNat < 16 := by
  rw [toNat_low]
  omega

theorem byte_of_nibbles : (value >>> 4) <<< 4 ||| (value &&& 0xf) = value := by
  apply UInt8.toNat_inj.mp
  rw [joined_nibbles (high_small value) (low_small value), toNat_high, toNat_low]
  omega

theorem hexPairs_flatMap (data : Bytes) : hexPairs (data.flatMap writeByte) = some data := by
  induction data with
  | nil => rfl
  | cons byte rest ih =>
    simp [writeByte, hexPairs, hexValue_hexDigit (high_small byte),
      hexValue_hexDigit (low_small byte), ih, byte_of_nibbles]

theorem plain_payload (data : Bytes) : ∀ byte ∈ 79 :: data.flatMap writeByte, Plain byte := by
  intro byte mem
  cases mem_cons.mp mem with
  | inl hm =>
    subst hm
    exact ⟨by decide, by decide, by decide⟩
  | inr hd =>
    obtain ⟨value, -, hw⟩ := mem_flatMap.mp hd
    cases mem_cons.mp hw with
    | inl hh => exact hh ▸ plain_hexDigit (high_small value)
    | inr low => exact mem_singleton.mp low ▸ plain_hexDigit (low_small value)

theorem length_flatMap_writeByte (data : Bytes) :
    (data.flatMap writeByte).length = 2 * data.length := by
  induction data with
  | nil => rfl
  | cons byte rest ih =>
    simp only [flatMap_cons, length_append, writeByte, length_cons, length_nil, ih]
    omega

theorem runs_of_plain {p : Bytes} (hp : ∀ byt ∈ p, Plain byt) : Runs false p := by
  induction p with
  | nil => rfl
  | cons byt p ih =>
    obtain ⟨hno, hns, hne⟩ := hp byt mem_cons_self
    refine ⟨hno, hns, ?_⟩
    rw [decide_eq_false hne]
    exact ih fun b mem => hp b (mem_cons_of_mem byt mem)

theorem toUInt8_payloadSum (p : Bytes) : (payloadSum p).toUInt8 = checksum p := by
  have hs (sum : UInt32) : (p.foldl (fun checksum byte => checksum + byte.toUInt32) sum).toUInt8 =
      p.foldl (· + ·) sum.toUInt8 := by
    induction p generalizing sum with
    | nil => rfl
    | cons byte rest ih => simp [ih]
  exact hs 0

theorem hexValue_transportHex (value : UInt32) :
    hexValue (transportHex value) = some (value &&& 0xf).toUInt8 ∧
      ((value &&& 0xf).toUInt8).toNat = value.toNat % 16 := by
  have hd : ((value &&& 0xf).toUInt8).toNat = value.toNat % 16 := by
    have hm : (value &&& 0xf).toNat = value.toNat % 16 := by
      exact and_two_pow_sub_one_eq_mod value.toNat 4
    rw [UInt32.toNat_toUInt8, hm]
    omega
  exact ⟨hexValue_hexDigit (by omega), hd⟩

theorem checksum_digits (p : Bytes) : checksum p =
    (payloadSum p >>> 4 &&& 0xf).toUInt8 <<< 4 ||| (payloadSum p &&& 0xf).toUInt8 := by
  obtain ⟨-, hh⟩ := hexValue_transportHex (payloadSum p >>> 4)
  obtain ⟨-, low⟩ := hexValue_transportHex (payloadSum p)
  have hs : (payloadSum p >>> 4).toNat = (payloadSum p).toNat / 16 := by
    simp [shiftRight_eq_div_pow]
  rw [← toUInt8_payloadSum]
  apply UInt8.toNat_inj.mp
  rw [joined_nibbles (by omega) (by omega), hh, low, hs, UInt32.toNat_toUInt8]
  omega

theorem framed_packet {p : Bytes} (hp : ∀ byte ∈ p, Plain byte) :
    Packet (framed p) p (transportHex (payloadSum p >>> 4))
      (transportHex (payloadSum p)) [] where
  bytes := rfl
  runs := runs_of_plain hp
  sum := ⟨_, _, (hexValue_transportHex _).1, (hexValue_transportHex _).1, checksum_digits p⟩

theorem transportFrameRecord_decodes {d : Bytes} (hf : d.length ≤ recordMax) :
    ∃ f, transportFrameRecord d = some f ∧ f ≠ [] ∧
      decodeConsoleFrame f = some d := by
  refine ⟨framed (79 :: d.flatMap writeByte), ?_, by simp [framed], ?_⟩
  · rw [transportFrameRecord, encodeConsolePayload, if_neg (by unfold payloadMax; omega)]
    rfl
  have hs : (79 :: d.flatMap writeByte).length ≤ payloadMax := by
    rw [length_cons, length_flatMap_writeByte]
    unfold payloadMax
    omega
  rw [decodeConsoleFrame, (framed_packet (plain_payload d)).complete hs]
  simp [framed, hexPairs_flatMap]

end VitaDebugger.ConsoleFrame
