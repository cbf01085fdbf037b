import VitaDebugger.BitField
import VitaDebugger.BrokerRecords

/-! The requests of the attach broker: what its parsers take is what the host's parsers take. -/

namespace VitaDebugger.BrokerRequests
open AsciiText BrokerHost BrokerRecords BrokerWire Fallible LowerHex List Nat TraceDecoder

section Numbers
variable {value : Bytes} {digits : ℕ} {allowZero : Bool} {label : String}

/-- A number of exactly so many digits. -/
def HexField (value : Bytes) (digits : ℕ) (allowZero : Bool) : Prop :=
  value.length = digits ∧ (∀ c ∈ value, IsHex c) ∧ (allowZero = true ∨ hexValue value ≠ 0)

theorem vdTokenIsValid_iff :
    vdTokenIsValid value digits allowZero = true ↔ HexField value digits allowZero := by
  simp only [vdTokenIsValid, HexField, Bool.and_eq_true, decide_eq_true_eq, all_eq_true,
    Bool.or_eq_true, any_eq_true, bne_iff_ne, and_assoc]
  refine and_congr_right fun _ => and_congr_right fun hex => or_congr_right ?_
  rw [ne_eq, hexValue_eq_zero hex]
  push Not
  rfl

theorem nibble_toNat : ∀ {c : UInt8}, IsHex c → (nibble c).toNat = nibbleValue c := by
  decide +kernel

theorem shifted_toNat {r : UInt64} {c : UInt8} (hex : IsHex c)
    (hr : r.toNat * 16 + 16 ≤ 2 ^ 64) :
    (r <<< 4 ||| nibble c).toNat = r.toNat * 16 + nibbleValue c := by
  have hd : nibbleValue c < 2 ^ 4 := nibbleValue_lt hex
  have hs : (r <<< 4).toNat = r.toNat <<< 4 := by
    change r.toNat <<< 4 % 2 ^ 64 = _
    exact mod_eq_of_lt (by omega)
  rw [UInt64.toNat_or, hs, nibble_toNat hex, ← shiftLeft_add_eq_or_of_lt hd, shiftLeft_eq]

theorem parsed_toNat {s : UInt64} (hex : ∀ c ∈ value, IsHex c)
    (hr : (s.toNat + 1) * 16 ^ value.length ≤ 2 ^ 64) :
    (value.foldl (fun (r : UInt64) c => r <<< 4 ||| nibble c) s).toNat =
      hexValueFrom s.toNat value := by
  induction value generalizing s with
  | nil => rfl
  | cons c value ih =>
    obtain ⟨hf, ho⟩ := forall_mem_cons.mp hex
    have hd := nibbleValue_lt hf
    have hp : 1 ≤ 16 ^ value.length := one_le_pow _ _ (by decide)
    have hpo : (s.toNat + 1) * 16 ^ (c :: value).length =
        (s.toNat * 16 + 16) * 16 ^ value.length := by
      rw [length_cons, pow_succ', ← mul_assoc, add_mul, one_mul]
    rw [hpo] at hr
    have hh : s.toNat * 16 + 16 ≤ 2 ^ 64 := Nat.le_trans (Nat.le_mul_of_pos_right _ hp) hr
    have hs := shifted_toNat hf hh
    have hl := @ih (s <<< 4 ||| nibble c) ho (by
      exact le_trans (mul_le_mul_right _ (by omega)) hr)
    rw [foldl_cons, hl, hs]
    rfl

theorem vdParseHexU64_ok {n : UInt64} (few : digits ≤ 16) :
    vdParseHexU64 value digits allowZero = .ok n ↔
      HexField value digits allowZero ∧ n.toNat = hexValue value := by
  simp only [vdParseHexU64, bind_ok, ensure_ok, not_or, Bool.not_eq_false, vdTokenIsValid_iff]
  have hp (hf : HexField value digits allowZero) :
      (value.foldl (fun (result : UInt64) c => result <<< 4 ||| nibble c) 0).toNat =
        hexValue value := by
    refine parsed_toNat hf.2.1 ?_
    rw [hf.1]
    exact Nat.le_trans (Nat.le_of_eq (Nat.one_mul _)) (Nat.pow_le_pow_right (by decide) few)
  constructor
  · rintro ⟨_, ⟨_, hf⟩, result⟩
    cases result
    exact ⟨hf, hp hf⟩
  rintro ⟨hf, hs⟩
  refine ⟨(), ⟨not_lt.mpr few, hf⟩, ?_⟩
  have he := UInt64.toNat_inj.mp ((hp hf).trans hs.symm)
  exact congrArg Except.ok he

theorem hexNumber_ok {n : ℕ} (hsd : 0 < digits) :
    hexNumber value digits label allowZero = .ok n ↔
      HexField value digits allowZero ∧ n = hexValue value := by
  simp only [hexNumber, bind_ok, ensure_ok]
  constructor
  · rintro ⟨_, hs, _, hz, hr⟩
    cases hr
    simp only [not_or, not_not, all_eq_true, decide_eq_true_eq] at hs
    refine ⟨⟨hs.1, hs.2.2, ?_⟩, rfl⟩
    cases allowZero with
    | true => exact Or.inl rfl
    | false => exact Or.inr fun hnn => hz ⟨rfl, hnn⟩
  rintro ⟨⟨hl, hex, hno⟩, rfl⟩
  refine ⟨(), ?_, (), ?_, rfl⟩
  · simp only [not_or, not_not, all_eq_true, decide_eq_true_eq]
    refine ⟨hl, ?_, hex⟩
    rintro rfl
    rw [← hl] at hsd
    exact absurd hsd (lt_irrefl 0)
  rintro ⟨hn, hz⟩
  rcases hno with ha | ho
  · rw [ha] at hn
    cases hn
  · exact ho hz

theorem token_ok {text : Bytes} (hsd : 0 < digits) :
    token value digits label allowZero = .ok text ↔
      HexField value digits allowZero ∧ text = value := by
  simp only [token, bind_ok, hexNumber_ok hsd]
  constructor
  · rintro ⟨_, ⟨hf, _⟩, hr⟩
    cases hr
    exact ⟨hf, rfl⟩
  · rintro ⟨hf, rfl⟩
    exact ⟨_, ⟨hf, rfl⟩, rfl⟩

theorem validateTitleId_ok {text : Bytes} :
    validateTitleId value = .ok text ↔ vdTitleIsValid value = true ∧ text = value := by
  simp only [validateTitleId, bind_ok, ensure_ok, vdTitleIsValid, Bool.and_eq_true,
    decide_eq_true_eq, all_eq_true]
  constructor
  · rintro ⟨_, hv, hr⟩
    cases hr
    exact ⟨hv, rfl⟩
  · rintro ⟨hv, rfl⟩
    exact ⟨(), hv, rfl⟩

theorem capabilities_iff (cs : UInt32) :
    cs &&& ~~~readOnlyCapabilities = 0 ↔ andNot cs.toNat knownCapabilities = 0 := by
  have hs := cs.toNat_lt
  have low : cs.toNat &&& 15 = cs.toNat % 16 := and_two_pow_sub_one_eq_mod cs.toNat 4
  have hh : (cs &&& ~~~readOnlyCapabilities).toNat = cs.toNat / 16 % 2 ^ 28 * 16 := by
    exact BitField.and_field cs.toNat 4 28
  rw [← UInt32.toNat_inj, hh, andNot, low]
  change _ = 0 ↔ _
  omega

end Numbers

theorem get_zip {ks : List String} {vs : List Bytes} {key : String}
    (hc : vs.length = ks.length) :
    Values.get (ks.zip vs) key = vs.getD (ks.idxOf key) [] := by
  induction ks generalizing vs with
  | nil =>
    rw [length_nil, length_eq_zero_iff] at hc
    rw [hc]
    rfl
  | cons f ks ih =>
    cases vs with
    | nil => cases hc
    | cons value vs =>
      rw [zip_cons_cons, Values.get, lookup_cons, idxOf_cons]
      by_cases hs : f = key
      · simp [hs]
      have hu : (key == f) = false := beq_eq_false_iff_ne.mpr (Ne.symm hs)
      have ho : (f == key) = false := beq_eq_false_iff_ne.mpr hs
      simp only [hu, ho, cond_false, getD_cons_succ]
      exact ih (Nat.succ.inj hc)

variable (data : Bytes)

section Requests

/-- What the host's parsers make of the broker's requests. -/
def hostHello (request : VdHelloRequest) : HelloRequest :=
  ⟨request.requestId, request.clientNonce, request.expectedKernelAbi.toNat,
    request.requiredCaps.toNat⟩

def hostDiscover (request : VdDiscoverRequest) : DiscoverRequest :=
  ⟨request.requestId, request.serverNonce, request.serviceGeneration.toNat, request.titleId⟩

def hostRelease (request : VdReleaseRequest) : ReleaseRequest :=
  ⟨request.requestId, request.serverNonce, request.serviceGeneration.toNat, request.ticket⟩

theorem toOption_agree {ε δ α β : Type} {f : Except ε α} {s : Except δ β} {view : α → β}
    (ha : ∀ value, (∃ raw, f = .ok raw ∧ view raw = value) ↔ s = .ok value) :
    f.toOption.map view = s.toOption := by
  apply Option.ext
  intro value
  rw [Option.map_eq_some_iff]
  simp only [toOption_some]
  exact ha value

theorem ofNat_hexValue {digits : Bytes} {w : ℕ} (hex : ∀ c ∈ digits, IsHex c)
    (hl : digits.length = w) (few : w ≤ 16) :
    (UInt64.ofNat (hexValue digits)).toNat = hexValue digits := by
  have hs := hexValue_lt hex
  have hb : 16 ^ w ≤ 16 ^ 16 := Nat.pow_le_pow_right (by decide) few
  rw [hl] at hs
  exact mod_eq_of_lt (by omega)

theorem toUInt32_toNat {n : UInt64} {digits : Bytes} (hex : ∀ c ∈ digits, IsHex c)
    (hl : digits.length = 8) (hsa : n.toNat = hexValue digits) :
    n.toUInt32.toNat = hexValue digits := by
  have hs := hexValue_lt hex
  rw [hl] at hs
  rw [UInt64.toNat_toUInt32, hsa]
  exact mod_eq_of_lt hs

/-- The fields of a hello record and the request they are. -/
def HelloFields (values : List Bytes) (request : HelloRequest) : Prop :=
  HexField (values.getD 0 []) 32 false ∧ HexField (values.getD 1 []) 64 false ∧
    values.getD 2 [] = ascii "observe" ∧ HexField (values.getD 3 []) 8 false ∧
    HexField (values.getD 4 []) 8 true ∧
    andNot (hexValue (values.getD 4 [])) knownCapabilities = 0 ∧
    request = ⟨values.getD 0 [], values.getD 1 [], hexValue (values.getD 3 []),
      hexValue (values.getD 4 [])⟩

theorem vdParseHello_fields (r : HelloRequest) :
    (∃ raw, vdParseHello data = .ok raw ∧ hostHello raw = r) ↔
      ∃ vs, Record helloHeader helloKeys data vs ∧
        HelloFields vs r := by
  simp (disch := decide) only [vdParseHello, bind_ok, ensure_ok, vdParseRecord_ok,
    vdTokenIsValid_iff, vdParseHexU64_ok]
  constructor
  · rintro ⟨raw, ⟨vs, hr, _, id, _, hn, _, hm, abi, ⟨hah, hav⟩, caps,
      ⟨hch, hcv⟩, _, hk, hre⟩, rfl⟩
    cases hre
    have has := toUInt32_toNat hah.2.1 hah.1 hav
    have hcs := toUInt32_toNat hch.2.1 hch.1 hcv
    rw [capabilities_iff, hcs] at hk
    refine ⟨vs, hr, id, hn, hm, hah, hch, hk, ?_⟩
    rw [hostHello, has, hcs]
  rintro ⟨vs, hr, id, hn, hm, hah, hch, hk, rfl⟩
  have hav := ofNat_hexValue hah.2.1 hah.1 (show 8 ≤ 16 by decide)
  have hcv := ofNat_hexValue hch.2.1 hch.1 (show 8 ≤ 16 by decide)
  have has := toUInt32_toNat hah.2.1 hah.1 hav
  have hcs := toUInt32_toNat hch.2.1 hch.1 hcv
  refine ⟨_, ⟨vs, hr, (), id, (), hn, (), hm, _, ⟨hah, hav⟩, _, ⟨hch, hcv⟩, (), ?_, rfl⟩, ?_⟩
  · rw [capabilities_iff, hcs]
    exact hk
  · rw [hostHello, has, hcs]

theorem parseHelloRequest_fields (r : HelloRequest) : parseHelloRequest data = .ok r ↔
      ∃ vs, Record helloHeader helloKeys data vs ∧
        HelloFields vs r := by
  simp (disch := decide) only [parseHelloRequest, bind_ok, ensure_ok, parseRecord_ok, token_ok,
    hexNumber_ok]
  constructor
  · rintro ⟨_, ⟨vs, hr, rfl⟩, _, hm, _, ⟨hch, rfl⟩, _, hk, _, ⟨id, rfl⟩, _,
      ⟨hn, rfl⟩, _, ⟨hah, rfl⟩, hre⟩
    cases hre
    have hc : vs.length = BrokerHost.helloKeys.length := hr.count
    simp only [get_zip hc] at *
    exact ⟨vs, hr, id, hn, hm, hah, hch, hk, rfl⟩
  rintro ⟨vs, hr, id, hn, hm, hah, hch, hk, rfl⟩
  have hc : vs.length = BrokerHost.helloKeys.length := hr.count
  refine ⟨_, ⟨vs, hr, rfl⟩, ?_⟩
  simp only [get_zip hc]
  exact ⟨(), hm, _, ⟨hch, rfl⟩, (), hk, _, ⟨id, rfl⟩, _, ⟨hn, rfl⟩, _, ⟨hah, rfl⟩, rfl⟩

theorem hello_agree :
    (vdParseHello data).toOption.map hostHello = (parseHelloRequest data).toOption :=
  toOption_agree fun r =>
    (vdParseHello_fields data r).trans (parseHelloRequest_fields data r).symm

def DiscoverFields (values : List Bytes) (request : DiscoverRequest) : Prop :=
  HexField (values.getD 0 []) 32 false ∧ HexField (values.getD 1 []) 64 false ∧
    HexField (values.getD 2 []) 16 false ∧ vdTitleIsValid (values.getD 3 []) = true ∧
    values.getD 4 [] = ascii "observe" ∧
    request = ⟨values.getD 0 [], values.getD 1 [], hexValue (values.getD 2 []), values.getD 3 []⟩

theorem vdParseDiscover_fields (r : DiscoverRequest) :
    (∃ raw, vdParseDiscover data = .ok raw ∧ hostDiscover raw = r) ↔
      ∃ vs, Record discoverHeader discoverKeys data vs ∧
        DiscoverFields vs r := by
  simp (disch := decide) only [vdParseDiscover, bind_ok, ensure_ok, vdParseRecord_ok,
    vdTokenIsValid_iff, vdParseHexU64_ok]
  constructor
  · rintro ⟨raw, ⟨vs, hr, _, id, _, hn, _, ⟨hg, hv⟩, _, ht, _, hm, hre⟩, rfl⟩
    cases hre
    refine ⟨vs, hr, id, hn, hg, ht, hm, ?_⟩
    rw [hostDiscover, hv]
  rintro ⟨vs, hr, id, hn, hg, ht, hm, rfl⟩
  have hv := ofNat_hexValue hg.2.1 hg.1 (le_refl 16)
  refine ⟨_, ⟨vs, hr, (), id, (), hn, _, ⟨hg, hv⟩, (), ht, (), hm,
    rfl⟩, ?_⟩
  rw [hostDiscover, hv]

theorem parseDiscoverRequest_fields (r : DiscoverRequest) :
    parseDiscoverRequest data = .ok r ↔
      ∃ vs, Record discoverHeader discoverKeys data vs ∧
        DiscoverFields vs r := by
  simp (disch := decide) only [parseDiscoverRequest, bind_ok, ensure_ok, parseRecord_ok, token_ok,
    hexNumber_ok, validateTitleId_ok]
  constructor
  · rintro ⟨_, ⟨vs, hr, rfl⟩, _, hm, _, ⟨id, rfl⟩, _, ⟨hn, rfl⟩, _,
      ⟨hg, rfl⟩, _, ⟨ht, rfl⟩, hre⟩
    cases hre
    have hc : vs.length = BrokerHost.discoverKeys.length := hr.count
    simp only [get_zip hc] at *
    exact ⟨vs, hr, id, hn, hg, ht, hm, rfl⟩
  rintro ⟨vs, hr, id, hn, hg, ht, hm, rfl⟩
  have hc : vs.length = BrokerHost.discoverKeys.length := hr.count
  refine ⟨_, ⟨vs, hr, rfl⟩, ?_⟩
  simp only [get_zip hc]
  exact ⟨(), hm, _, ⟨id, rfl⟩, _, ⟨hn, rfl⟩, _, ⟨hg, rfl⟩, _, ⟨ht, rfl⟩, rfl⟩

theorem discover_agree :
    (vdParseDiscover data).toOption.map hostDiscover = (parseDiscoverRequest data).toOption :=
  toOption_agree fun r =>
    (vdParseDiscover_fields data r).trans (parseDiscoverRequest_fields data r).symm

def ReleaseFields (values : List Bytes) (request : ReleaseRequest) : Prop :=
  HexField (values.getD 0 []) 32 false ∧ HexField (values.getD 1 []) 64 false ∧
    HexField (values.getD 2 []) 16 false ∧ HexField (values.getD 3 []) 64 false ∧
    request = ⟨values.getD 0 [], values.getD 1 [], hexValue (values.getD 2 []), values.getD 3 []⟩

theorem vdParseRelease_fields (r : ReleaseRequest) :
    (∃ raw, vdParseRelease data = .ok raw ∧ hostRelease raw = r) ↔
      ∃ vs, Record releaseHeader releaseKeys data vs ∧
        ReleaseFields vs r := by
  simp (disch := decide) only [vdParseRelease, bind_ok, ensure_ok, vdParseRecord_ok,
    vdTokenIsValid_iff, vdParseHexU64_ok]
  constructor
  · rintro ⟨raw, ⟨vs, hr, _, id, _, hn, _, ⟨hg, hv⟩, _, ht, hre⟩, rfl⟩
    cases hre
    refine ⟨vs, hr, id, hn, hg, ht, ?_⟩
    rw [hostRelease, hv]
  rintro ⟨vs, hr, id, hn, hg, ht, rfl⟩
  have hv := ofNat_hexValue hg.2.1 hg.1 (le_refl 16)
  refine ⟨_, ⟨vs, hr, (), id, (), hn, _, ⟨hg, hv⟩, (), ht, rfl⟩, ?_⟩
  rw [hostRelease, hv]

theorem parseReleaseRequest_fields (r : ReleaseRequest) :
    parseReleaseRequest data = .ok r ↔
      ∃ vs, Record releaseHeader releaseKeys data vs ∧
        ReleaseFields vs r := by
  simp (disch := decide) only [parseReleaseRequest, bind_ok, parseRecord_ok, token_ok, hexNumber_ok]
  constructor
  · rintro ⟨_, ⟨vs, hr, rfl⟩, _, ⟨id, rfl⟩, _, ⟨hn, rfl⟩, _, ⟨hg, rfl⟩, _, ⟨ht, rfl⟩, hre⟩
    cases hre
    have hc : vs.length = BrokerHost.releaseKeys.length := hr.count
    simp only [get_zip hc] at *
    exact ⟨vs, hr, id, hn, hg, ht, rfl⟩
  rintro ⟨vs, hr, id, hn, hg, ht, rfl⟩
  have hc : vs.length = BrokerHost.releaseKeys.length := hr.count
  refine ⟨_, ⟨vs, hr, rfl⟩, ?_⟩
  simp only [get_zip hc]
  exact ⟨_, ⟨id, rfl⟩, _, ⟨hn, rfl⟩, _, ⟨hg, rfl⟩, _, ⟨ht, rfl⟩, rfl⟩

theorem release_agree :
    (vdParseRelease data).toOption.map hostRelease = (parseReleaseRequest data).toOption :=
  toOption_agree fun r =>
    (vdParseRelease_fields data r).trans (parseReleaseRequest_fields data r).symm

end Requests

end VitaDebugger.BrokerRequests
