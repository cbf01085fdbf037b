import VitaDebugger.ConsoleFrame
import VitaDebugger.VCont
import Mathlib.Data.List.TakeWhile
import Mathlib.Data.Option.Basic

/-! The request parsers of `uvdb_rsp.c` against the texts they are documented to accept. Each
fills a candidate and copies it to its output at the very end. -/

namespace VitaDebugger.RspRequests
open RspHex ConsoleFrame ThreadControl VCont Option

/-- The field before the first `mark`, and what stands behind the mark if there is one. -/
def split (mark : UInt8) (text : Bytes) : Bytes × Option Bytes :=
  (text.takeWhile (· ≠ mark), (text.dropWhile (· ≠ mark)).tail?)

/-- The two fields around a mark that has to be there. -/
def cut (mark : UInt8) (text : Bytes) : Option (Bytes × Bytes) :=
  (split mark text).2.map fun rest => ((split mark text).1, rest)

/-- `parse_u32_hex` for a width of 8 digits and `parse_u64_hex` for 16. -/
def parseHex (width : ℕ) (text : Bytes) : Option ℕ :=
  if text = [] ∨ width < text.length then none else hexLoop (16 ^ width - 1) text 0

structure MemoryRequest where
  address : ℕ
  size : ℕ
  data : Bytes

def validateHexValue (text : Bytes) (expectedBytes : ℕ) : Bool :=
  text.length = expectedBytes * 2 ∧ text.all fun digit => (hexValue digit).isSome

/-- The length of a read ends with the packet, that of a write at the colon. -/
def sizeField (write : Bool) (rest : Bytes) : Option (Bytes × Bytes) :=
  if write then cut 58 rest else some (rest, [])

def parseMemoryPacket (packet : Bytes) (maximumSize : ℕ) (write : Bool) : Option MemoryRequest := do
  guard (¬(packet.length < (if write then 5 else 4) ∨
    packet.head? ≠ some (if write then 77 else 109)))
  let fields ← cut 44 packet.tail
  let sizeFields ← sizeField write fields.2
  let address ← parseHex 8 fields.1
  let size ← parseHex 8 sizeFields.1
  guard (¬(maximumSize < size ∨ 2 ^ 32 < address + size))
  guard (¬(write ∧ (uint32Max / 2 < size ∨ ¬validateHexValue sizeFields.2 size)))
  pure ⟨address, size, sizeFields.2⟩

/-- Insertion or removal, address and kind. -/
def parseBreakpointPacket (packet : Bytes) : Option (Bool × ℕ × ℕ) := do
  guard (¬(packet.length < 6 ∨ packet.head? ≠ some 90 ∧ packet.head? ≠ some 122 ∨
    (packet.drop 1).take 2 ≠ [48, 44]))
  let fields ← cut 44 (packet.drop 3)
  let address ← parseHex 8 fields.1
  let kind ← parseHex 8 fields.2
  pure (packet.head? = some 90, address, kind)

/-- Offset and length. -/
def parseXferRange (text : Bytes) : Option (ℕ × ℕ) := do
  guard (¬text.length < 3)
  let fields ← cut 44 text
  let offset ← parseHex 16 fields.1
  let length ← parseHex 16 fields.2
  guard (¬2 ^ 64 - 1 - length < offset)
  pure (offset, length)

structure FileioResult where
  result : ℕ
  errorNumber : Option ℕ
  interrupted : Bool
  attachment : Option Bytes

/-- The header fields behind the result: the error number and the literal `C`. -/
def parseErrorFields : Option Bytes → Option (Option ℕ × Bool)
  | none => some (none, false)
  | some rest => do
    let number ← parseHex 8 (split 44 rest).1
    guard (∀ flag ∈ (split 44 rest).2, flag = [67])
    pure (some number, (split 44 rest).2.isSome)

/-- Whether a minus stands in front, and the text behind it. -/
def sign (header : Bytes) : Bool × Bytes :=
  if header.head? = some 45 then (true, header.tail) else (false, header)

def parseFileioPacket (packet : Bytes) : Option FileioResult := do
  guard (¬(packet.length < 2 ∨ packet.head? ≠ some 70))
  let fields := split 59 packet.tail
  let body := sign fields.1
  let magnitude ← parseHex 8 (split 44 body.2).1
  guard (¬(body.1 ∧ 0x80000000 < magnitude))
  let errors ← parseErrorFields (split 44 body.2).2
  pure ⟨if body.1 then (2 ^ 32 - magnitude) % 2 ^ 32 else magnitude, errors.1, errors.2, fields.2⟩

/-- A parser's result code and what its output holds afterwards. -/
def copied {α : Type} (candidate : Option α) (output : α) : ℤ × α :=
  match candidate with
  | none => (-1, output)
  | some value => (0, value)

def decodeLoop : Bytes → Bytes
  | high :: low :: rest =>
    ((hexValue high).getD 0 <<< 4 ||| (hexValue low).getD 0) :: decodeLoop rest
  | _ => []

/-- `uvdb_rsp_decode_hex_bytes`: the whole text is validated before the first byte is written. -/
def decodeInto (output text : Bytes) : ℤ × Bytes :=
  if text.length ≠ output.length * 2 then (-1, output)
  else if validateHexValue text output.length then (0, decodeLoop text)
  else (-1, output)

/-! The texts. -/

/-- A number in at most `width` hexadecimal digits, and at least one. -/
structure Numeral (width : ℕ) (text : Bytes) (value : ℕ) : Prop where
  nonempty : text ≠ []
  short : text.length ≤ width
  digits : ∃ digits, text.mapM hexValue = some digits ∧ numeral (digits.map UInt8.toNat) = value

variable {w value : ℕ} {text field rest : Bytes} {mark : UInt8}

theorem parseHex_iff : parseHex w text = some value ↔ Numeral w text value := by
  by_cases hsh : text = [] ∨ w < text.length
  · rw [parseHex, if_pos hsh]
    refine ⟨nofun, fun hs => ?_⟩
    rcases hsh with he | hl
    · exact absurd he hs.nonempty
    · exact absurd hs.short (not_le.mpr hl)
  obtain ⟨hn, hso⟩ := not_or.mp hsh
  have hr : (0 + 1) * 16 ^ text.length ≤ 16 ^ w - 1 + 1 := by
    rw [Nat.sub_add_cancel (Nat.one_le_pow _ _ (by decide)), zero_add, one_mul]
    exact Nat.pow_le_pow_right (by decide) (not_lt.mp hso)
  rw [parseHex, if_neg hsh, hexLoop_eq text 0 hr, map_eq_some_iff]
  exact ⟨fun hd => ⟨hn, not_lt.mp hso, hd⟩, fun hs => hs.digits⟩

theorem Numeral.not_mem (hs : Numeral w text value) (ho : hexValue mark = none) : mark ∉ text := by
  obtain ⟨digits, hs, -⟩ := hs.digits
  exact not_mem_of_mapM ho hs

theorem hexValue_comma : hexValue 44 = none := rfl

/-- The text behind a field: nothing, or a mark and what follows it. -/
def following (mark : UInt8) (rest : Option Bytes) : Bytes := rest.elim [] (mark :: ·)

theorem Numeral.lt (hs : Numeral 16 text value) : value < 2 ^ 64 := by
  have hp := parseHex_iff.mpr hs
  simp only [parseHex, ite_none_left_eq_some] at hp
  exact Nat.lt_succ_of_le (hexLoop_le (by decide) (Nat.zero_le _) hp.2)

theorem split_following (rest : Option Bytes) (hu : mark ∉ field) :
    split mark (field ++ following mark rest) = (field, rest) := by
  induction field with
  | nil => cases rest <;> simp [split, following]
  | cons head field ih =>
    obtain ⟨ho, hu⟩ := not_or.mp (mt List.mem_cons.mpr hu)
    have hf := Prod.ext_iff.mp (ih hu)
    simpa [split, Ne.symm ho] using hf

theorem following_split (mark : UInt8) (text : Bytes) :
    (split mark text).1 ++ following mark (split mark text).2 = text := by
  induction text with
  | nil => rfl
  | cons head tail ih =>
    by_cases hm : head = mark
    · simp [split, following, hm]
    · simpa [split, hm] using ih

theorem not_mem_split (mark : UInt8) (text : Bytes) : mark ∉ (split mark text).1 := by
  intro mem
  simpa using List.mem_takeWhile_imp mem

theorem cut_iff : cut mark text = some (field, rest) ↔
    text = field ++ mark :: rest ∧ mark ∉ field := by
  rw [cut, map_eq_some_iff]
  constructor
  · rintro ⟨_, hfo, hf⟩
    obtain ⟨rfl, rfl⟩ := Prod.ext_iff.mp hf
    have hw := following_split mark text
    rw [hfo] at hw
    exact ⟨hw.symm, not_mem_split mark text⟩
  · rintro ⟨rfl, hu⟩
    exact ⟨rest, by simp [show field ++ mark :: rest = field ++ following mark (some rest) from rfl,
      split_following _ hu]⟩

theorem Numeral.length_pos (hs : Numeral w text value) : 0 < text.length :=
  List.length_pos_iff.mpr hs.nonempty

theorem eq_cons_tail {head : UInt8} (hf : text.head? = some head) : text = head :: text.tail :=
  List.eq_cons_of_mem_head? hf

variable {packet : Bytes} {maximum : ℕ} {request : MemoryRequest}

/-- `mADDRESS,LENGTH`. -/
def ReadText (maximum : ℕ) (packet : Bytes) (request : MemoryRequest) : Prop :=
  ∃ address size, packet = 109 :: (address ++ 44 :: size) ∧ Numeral 8 address request.address ∧
    Numeral 8 size request.size ∧ request.size ≤ maximum ∧
    request.address + request.size ≤ 2 ^ 32 ∧ request.data = []

/-- `MADDRESS,LENGTH:DATA`. -/
def WriteText (maximum : ℕ) (packet : Bytes) (request : MemoryRequest) : Prop :=
  ∃ address size, packet = 77 :: (address ++ 44 :: (size ++ 58 :: request.data)) ∧
    Numeral 8 address request.address ∧ Numeral 8 size request.size ∧ request.size ≤ maximum ∧
    request.address + request.size ≤ 2 ^ 32 ∧
    request.data.length = 2 * request.size ∧ ∀ digit ∈ request.data, (hexValue digit).isSome

theorem parseMemoryPacket_read :
    parseMemoryPacket packet maximum false = some request ↔ ReadText maximum packet request := by
  simp only [parseMemoryPacket, sizeField, bind_eq_bind, bind_eq_some_iff,
    guard_eq_some', Prod.exists, cut_iff, parseHex_iff, pure_def,
    Option.some.injEq, Bool.false_eq_true, if_false, false_and, not_false_eq_true, Prod.mk.injEq]
  constructor
  · rintro ⟨-, hh, ate, _, ⟨hw, -⟩, st, _, ⟨rfl, rfl⟩, address, hsa,
      size, hss, -, hb, -, -, rfl⟩
    obtain ⟨hs, hi⟩ := not_or.mp hb
    refine ⟨ate, _, ?_, hsa, hss, not_lt.mp hs, not_lt.mp hi, rfl⟩
    rw [← hw]
    exact eq_cons_tail (not_not.mp (not_or.mp hh).2)
  rintro ⟨ate, st, rfl, hsa, hss, hs, hi, he⟩
  have hf := hsa.length_pos
  have hse := hss.length_pos
  refine ⟨(), ?_, ate, st, ⟨rfl, hsa.not_mem rfl⟩, st, [],
    ⟨rfl, rfl⟩, _, hsa, _, hss, (), ?_, (), trivial, ?_⟩
  · simp
    omega
  · omega
  · rw [← he]

theorem parseMemoryPacket_write (hm : packet.length ≤ uint32Max) :
    parseMemoryPacket packet maximum true = some request ↔ WriteText maximum packet request := by
  simp only [parseMemoryPacket, sizeField, bind_eq_bind, bind_eq_some_iff,
    guard_eq_some', Prod.exists, cut_iff, parseHex_iff, pure_def,
    Option.some.injEq, if_true, true_and]
  constructor
  · rintro ⟨-, hh, ate, _, ⟨hw, -⟩, st, data, ⟨rfl, -⟩, address, hsa,
      size, hss, -, hb, -, hd, rfl⟩
    obtain ⟨hs, hi⟩ := not_or.mp hb
    obtain ⟨-, hd⟩ := not_or.mp hd
    simp only [validateHexValue, decide_eq_true_eq, not_not, List.all_eq_true] at hd
    refine ⟨ate, st, ?_, hsa, hss, not_lt.mp hs,
      not_lt.mp hi, by rw [hd.1, mul_comm], hd.2⟩
    rw [← hw]
    exact eq_cons_tail (not_not.mp (not_or.mp hh).2)
  rintro ⟨ate, st, rfl, hsa, hss, hs, hi, hl, hd⟩
  have hf := hsa.length_pos
  have hse := hss.length_pos
  simp only [List.length_cons, List.length_append] at hm
  refine ⟨(), ?_, ate, _, ⟨rfl, hsa.not_mem rfl⟩, st, request.data,
    ⟨rfl, hss.not_mem rfl⟩, _, hsa, _, hss, (), ?_, (), ?_, rfl⟩
  · simp
    omega
  · omega
  · simp only [validateHexValue, decide_eq_true_eq, List.all_eq_true, not_or, not_not, not_lt]
    exact ⟨by omega, by rw [hl, mul_comm], hd⟩

/-- `Z0,ADDRESS,KIND` or `z0,ADDRESS,KIND`. -/
def BreakpointText (packet : Bytes) (value : Bool × ℕ × ℕ) : Prop :=
  ∃ address kind, packet = (if value.1 then 90 else 122) :: 48 :: 44 :: (address ++ 44 :: kind) ∧
    Numeral 8 address value.2.1 ∧ Numeral 8 kind value.2.2

theorem parseBreakpointPacket_iff {value : Bool × ℕ × ℕ} :
    parseBreakpointPacket packet = some value ↔ BreakpointText packet value := by
  simp only [parseBreakpointPacket, bind_eq_bind, bind_eq_some_iff,
    guard_eq_some', Prod.exists, cut_iff, parseHex_iff, pure_def, Option.some.injEq]
  constructor
  · rintro ⟨-, hh, ate, kt, ⟨hw, -⟩, a, hsa, kind, hsk, rfl⟩
    refine ⟨ate, kt, ?_, hsa, hsk⟩
    rw [← hw]
    match packet with
    | [] | [_] | [_, _] => simp at hh
    | l :: second :: third :: rest =>
      simp at hh
      obtain ⟨-, hr, rfl, rfl⟩ := hh
      by_cases hi : l = 90
      · simp [hi]
      · simp [hr hi]
  obtain ⟨i, a, kind⟩ := value
  rintro ⟨ate, kt, rfl, hsa, hsk⟩
  have hf := hsa.length_pos
  have second := hsk.length_pos
  refine ⟨(), ?_, ate, kt, ⟨rfl, hsa.not_mem rfl⟩, _, hsa, _, hsk, ?_⟩
  · cases i <;> simp <;> omega
  · cases i <;> rfl

/-- `OFFSET,LENGTH`. -/
def XferText (text : Bytes) (range : ℕ × ℕ) : Prop :=
  ∃ offset length, text = offset ++ 44 :: length ∧ Numeral 16 offset range.1 ∧
    Numeral 16 length range.2 ∧ range.1 + range.2 < 2 ^ 64

theorem parseXferRange_iff {r : ℕ × ℕ} : parseXferRange text = some r ↔ XferText text r := by
  simp only [parseXferRange, bind_eq_bind, bind_eq_some_iff,
    guard_eq_some', Prod.exists, cut_iff, parseHex_iff, pure_def, Option.some.injEq]
  constructor
  · rintro ⟨-, -, ot, lte, ⟨hw, -⟩, offset, hso, length, hsl, -, hi, rfl⟩
    exact ⟨ot, lte, hw, hso, hsl, by have := hsl.lt; omega⟩
  rintro ⟨ot, lte, rfl, hso, hsl, hi⟩
  have hf := hso.length_pos
  have hs := hsl.length_pos
  refine ⟨(), ?_, ot, lte, ⟨rfl, hso.not_mem rfl⟩, _, hso, _, hsl, (), ?_, rfl⟩
  · simp
    omega
  · omega

/-- What may follow the result in the header: nothing, `,ERRNO` or `,ERRNO,C`. -/
inductive ErrorText : Option Bytes → Option ℕ → Bool → Prop
  | none : ErrorText none none false
  | number {text : Bytes} {value : ℕ} (spelled : Numeral 8 text value) :
    ErrorText (some text) (some value) false
  | interrupted {text : Bytes} {value : ℕ} (spelled : Numeral 8 text value) :
    ErrorText (some (text ++ [44, 67])) (some value) true

theorem parseErrorFields_iff {es : Option Bytes} {n : Option ℕ}
    {i : Bool} : parseErrorFields es = some (n, i) ↔
      ErrorText es n i := by
  constructor
  · intro hp
    match es with
    | none =>
      cases hp
      exact .none
    | some text =>
      simp only [parseErrorFields, bind_eq_bind, bind_eq_some_iff,
        guard_eq_some', parseHex_iff, pure_def, Option.some.injEq,
        Prod.mk.injEq] at hp
      obtain ⟨value, hs, -, hl, rfl, rfl⟩ := hp
      have hw := following_split 44 text
      cases hfl : (split 44 text).2 with
      | none =>
        rw [hfl, following, elim_none, List.append_nil] at hw
        exact .number (hw ▸ hs)
      | some ft =>
        rw [hfl, hl ft hfl] at hw
        rw [← hw]
        exact .interrupted hs
  intro hsp
  cases hsp with
  | none => rfl
  | @number text value hs =>
    have hf := split_following none (hs.not_mem hexValue_comma)
    rw [following, elim_none, List.append_nil] at hf
    simp [parseErrorFields, hf, parseHex_iff.mpr hs]
  | @interrupted text value hs =>
    have hf := split_following (some [67]) (hs.not_mem hexValue_comma)
    rw [following, elim_some] at hf
    simp [parseErrorFields, hf, parseHex_iff.mpr hs]

theorem ErrorText.not_mem {errors : Option Bytes} {number : Option ℕ} {interrupted : Bool}
    (hsp : ErrorText errors number interrupted) : 59 ∉ following 44 errors := by
  cases hsp with
  | none => simp [following]
  | number hs => simp [following, hs.not_mem hexValue_semicolon]
  | interrupted hs => simp [following, hs.not_mem hexValue_semicolon]

def minus (negative : Bool) : Bytes := if negative then [45] else []

/-- `FRESULT[,ERRNO[,C]][;ATTACHMENT]`, the result with an optional minus. -/
def FileioText (packet : Bytes) (value : FileioResult) : Prop :=
  ∃ (negative : Bool) (digits : Bytes) (magnitude : ℕ) (errors : Option Bytes),
    packet = 70 :: (minus negative ++ (digits ++ following 44 errors) ++
      following 59 value.attachment) ∧
    Numeral 8 digits magnitude ∧ (negative → magnitude ≤ 2 ^ 31) ∧
    value.result = (if negative then (2 ^ 32 - magnitude) % 2 ^ 32 else magnitude) ∧
    ErrorText errors value.errorNumber value.interrupted

theorem minus_sign (header : Bytes) : minus (sign header).1 ++ (sign header).2 = header := by
  by_cases hn : header.head? = some 45
  · simp [sign, minus, hn, ← eq_cons_tail hn]
  · simp [sign, minus, hn]

theorem sign_minus (n : Bool) (hs : Numeral w text value) :
    sign (minus n ++ (text ++ rest)) = (n, text ++ rest) := by
  cases n with
  | true => rfl
  | false =>
    obtain ⟨head, tail, rfl⟩ := List.exists_cons_of_ne_nil hs.nonempty
    have ho : head ≠ 45 := by
      rintro rfl
      exact hs.not_mem rfl List.mem_cons_self
    simp [sign, minus, ho]

theorem parseFileioPacket_iff {value : FileioResult} :
    parseFileioPacket packet = some value ↔ FileioText packet value := by
  simp only [parseFileioPacket, bind_eq_bind, bind_eq_some_iff,
    guard_eq_some', Prod.exists, parseErrorFields_iff, parseHex_iff, pure_def,
    Option.some.injEq]
  constructor
  · rintro ⟨-, hh, m, hs, -, hb, number, interrupted, errors, rfl⟩
    refine ⟨_, _, m, _, ?_, hs, fun negative => ?_, rfl, errors⟩
    · rw [following_split, minus_sign, following_split]
      exact eq_cons_tail (not_not.mp (not_or.mp hh).2)
    · exact not_lt.mp fun hl => hb ⟨negative, hl⟩
  rintro ⟨negative, ds, m, errors, rfl, hs, hb, hr, hsp⟩
  have hu : 59 ∉ minus negative ++ (ds ++ following 44 errors) := by
    have hsi : 59 ∉ minus negative := by cases negative <;> decide
    simp [hsi, hs.not_mem hexValue_semicolon, hsp.not_mem]
  have hlo := hs.length_pos
  simp only [List.tail_cons, split_following _ hu, sign_minus negative hs,
    split_following errors (hs.not_mem hexValue_comma)]
  refine ⟨(), ?_, m, hs, (), ?_, _, _, hsp, by rw [← hr]⟩
  · refine not_or.mpr ⟨?_, by simp⟩
    simp only [List.length_cons, List.length_append]
    omega
  · simpa using hb

theorem hexPairs_eq {s : ℕ} {text : Bytes} (hl : text.length = s * 2) :
    hexPairs text = if validateHexValue text s then some (decodeLoop text) else none := by
  induction s generalizing text with
  | zero =>
    rw [List.length_eq_zero_iff.mp hl]
    rfl
  | succ s ih =>
    match text, hl with
    | [_], hl =>
      simp only [List.length_singleton] at hl
      omega
    | high :: low :: rest, hl =>
      have hh : rest.length = s * 2 := by
        simp only [List.length_cons] at hl
        omega
      have hs := ih hh
      simp only [validateHexValue, hh, true_and] at hs
      cases hsh : hexValue high <;> cases hsl : hexValue low <;>
        simp [hexPairs, validateHexValue, decodeLoop, hsh, hsl, hs, hl]
      split_ifs <;> simp

theorem decodeInto_eq (o text : Bytes) :
    decodeInto o text = copied (decodeHexBytes o.length text) o := by
  by_cases hl : text.length = o.length * 2
  · rw [decodeInto, decodeHexBytes, if_neg (not_not.mpr hl), if_pos hl, hexPairs_eq hl]
    split_ifs <;> rfl
  · rw [decodeInto, decodeHexBytes, if_pos hl, if_neg hl]
    rfl

/-- A parser stores precisely the values its text spells, and nothing when the text is none. -/
def Exactly {α : Type} (parser : α → ℤ × α) (spells : α → Prop) : Prop :=
  ∀ output, (∀ value, parser output = (0, value) ↔ spells value) ∧
    ((∀ value, ¬spells value) → parser output = (-1, output))

theorem exactly_copied {α : Type} {c : Option α} {ss : α → Prop}
    (hc : ∀ value, c = some value ↔ ss value) :
    Exactly (copied c) ss := by
  intro output
  cases c with
  | none => exact ⟨fun value => by simp [copied, ← hc], fun _ => rfl⟩
  | some s =>
    exact ⟨fun value => by simp [copied, ← hc], fun ha =>
      absurd ((hc s).mp rfl) (ha s)⟩

/-- The request parsers accept their grammars and read the numbers spelled there; a read or
write stays within the address space and a transfer within 64 bits; the byte decoder writes
everything or nothing and inverts the encoding. -/
theorem requests_match_grammar : (∀ packet maximum,
      Exactly (copied (parseMemoryPacket packet maximum false)) (ReadText maximum packet)) ∧
    (∀ packet maximum, packet.length ≤ uint32Max →
      Exactly (copied (parseMemoryPacket packet maximum true)) (WriteText maximum packet)) ∧
    (∀ packet, Exactly (copied (parseBreakpointPacket packet)) (BreakpointText packet)) ∧
    (∀ text, Exactly (copied (parseXferRange text)) (XferText text)) ∧
    (∀ packet, Exactly (copied (parseFileioPacket packet)) (FileioText packet)) ∧
    (∀ output text, decodeInto output text = (-1, output) ∨
      ∃ bytes, decodeInto output text = (0, bytes) ∧ bytes.length = output.length ∧
        hexPairs text = some bytes) ∧
    ∀ output data : Bytes, output.length = data.length →
      decodeInto output (data.flatMap writeByte) = (0, data) := by
  refine ⟨fun _ _ => exactly_copied fun _ => parseMemoryPacket_read,
    fun _ _ hm => exactly_copied fun _ => parseMemoryPacket_write hm,
    fun _ => exactly_copied fun _ => parseBreakpointPacket_iff,
    fun _ => exactly_copied fun _ => parseXferRange_iff,
    fun _ => exactly_copied fun _ => parseFileioPacket_iff, fun output text => ?_,
    fun output data hs => ?_⟩
  · rw [decodeInto_eq]
    cases hd : decodeHexBytes output.length text with
    | none => exact .inl rfl
    | some bytes =>
      refine .inr ⟨bytes, rfl, decodeHexBytes_length hd, ?_⟩
      simp only [decodeHexBytes, ite_none_right_eq_some] at hd
      exact hd.2
  · have length := length_flatMap_writeByte data
    rw [decodeInto_eq, decodeHexBytes, hexPairs_flatMap, if_pos (by omega)]
    rfl

/-- `M10,1:7f`. -/
theorem requests_match_grammar_write :
    copied (parseMemoryPacket [77, 49, 48, 44, 49, 58, 55, 102] 4 true) ⟨0, 0, []⟩ =
      (0, ⟨16, 1, [55, 102]⟩) :=
  ((requests_match_grammar.2.1 _ 4 (by decide) _).1 _).mpr
    ⟨[49, 48], [49], rfl, ⟨by decide, by decide, [1, 0], rfl, rfl⟩,
      ⟨by decide, by decide, [1], rfl, rfl⟩, by decide, by decide, rfl, by simp [hexValue]⟩

end VitaDebugger.RspRequests
