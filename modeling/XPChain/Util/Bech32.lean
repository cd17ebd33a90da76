import XPChain.Lib.XorFold
import XPChain.Lib.BitGroups
import XPChain.Lib.BitPack

/-!
# Bech32

`bech32::Encode` and `bech32::Decode` of `bech32.cpp`, with the checksum
helpers `PolyMod`, `ExpandHRP`, `VerifyChecksum` and `CreateChecksum`.
A string is a human-readable part, the separator `'1'`, and 5-bit values
written in the alphabet `CHARSET`, the last six of them a BCH checksum over
the expanded human-readable part and the values.

`PolyMod` keeps the remainder of a polynomial over `GF(32)` in a `uint32_t`:
each step multiplies it by `x` and adds the next value.  The step is `L c ^^^ v`
with `L` (`polyModShift`) linear over exclusive or, so the checksum is a linear
code (`XorFold`): `CreateChecksum` writes the six values that bring the
remainder to `1`, and `VerifyChecksum` finds it there.

Strings are lists of characters, compared by code point where the source
compares `unsigned char`s: `Decode` rejects every character outside `33..126`
before it reads one, so the two agree on what it accepts.  `CHARSET[c]` for a
value past `31` reads past the alphabet (its terminating NUL at `32`, undefined
behaviour beyond); the model reads `'\x00'` there.  `Decode`'s failure, an
empty pair, is `([], [])`.

## Main definitions

* `CHARSET`, `CHARSET_REV`, `polyModStep`, `PolyMod`, `ExpandHRP`,
  `VerifyChecksum`, `CreateChecksum`, `Encode`, `Decode`.
* `polyModShift` — `PolyMod`'s step with no value added.

## Main statements

* `polyModStep_eq`, `polyModShift_xor` — the step is linear.
* `VerifyChecksum_CreateChecksum` — a created checksum verifies.
* `Decode_Encode` — `Decode` reads back what `Encode` writes, for a non-empty
  human-readable part of printable characters with no uppercase letter.
-/

set_option autoImplicit false

namespace XPChain

namespace Bech32

/-! ## The alphabet -/

/-- The Bech32 character set for encoding. -/
def CHARSET : List Char := "qpzry9x8gf2tvdw0s3jn54khce6mua7l".toList

/-- The Bech32 character set for decoding: the place of a character in
`CHARSET`, in either case, or `-1`. -/
def CHARSET_REV : List ℤ := [
    -1, -1, -1, -1, -1, -1, -1, -1, -1, -1, -1, -1, -1, -1, -1, -1,
    -1, -1, -1, -1, -1, -1, -1, -1, -1, -1, -1, -1, -1, -1, -1, -1,
    -1, -1, -1, -1, -1, -1, -1, -1, -1, -1, -1, -1, -1, -1, -1, -1,
    15, -1, 10, 17, 21, 20, 26, 30,  7,  5, -1, -1, -1, -1, -1, -1,
    -1, 29, -1, 24, 13, 25,  9,  8, 23, -1, 18, 22, 31, 27, 19, -1,
     1,  0,  3, 16, 11, 28, 12, 14,  6,  4,  2, -1, -1, -1, -1, -1,
    -1, 29, -1, 24, 13, 25,  9,  8, 23, -1, 18, 22, 31, 27, 19, -1,
     1,  0,  3, 16, 11, 28, 12, 14,  6,  4,  2, -1, -1, -1, -1, -1]

/-- `CHARSET[c]`. -/
def charsetAt (c : UInt8) : Char := CHARSET.getD c.toNat '\x00'

/-! ## The checksum -/

/-- One round of `PolyMod`'s loop: `c(x) * x + v_i` modulo the generator,
the term `c0 * k(x)` added bit by bit of `c0`. -/
def polyModStep (c : UInt32) (v_i : UInt8) : UInt32 :=
  let c0 : UInt8 := (c >>> 25).toUInt8
  let c := ((c &&& 0x1ffffff) <<< 5) ^^^ v_i.toUInt32
  let c := if c0 &&& 1 ≠ 0 then c ^^^ 0x3b6a57b2 else c
  let c := if c0 &&& 2 ≠ 0 then c ^^^ 0x26508e6d else c
  let c := if c0 &&& 4 ≠ 0 then c ^^^ 0x1ea119fa else c
  let c := if c0 &&& 8 ≠ 0 then c ^^^ 0x3d4233dd else c
  let c := if c0 &&& 16 ≠ 0 then c ^^^ 0x2a1462b3 else c
  c

/-- `PolyMod`: the remainder of `1 x^n + v_0 x^(n-1) + ... + v_(n-1)` modulo
the Bech32 generator, six 5-bit coefficients packed in 30 bits. -/
def PolyMod (v : List UInt8) : UInt32 := v.foldl polyModStep 1

/-- `LowerCase`. -/
def LowerCase (c : Char) : Char :=
  if 'A' ≤ c ∧ c ≤ 'Z' then Char.ofNat (c.toNat - 'A'.toNat + 'a'.toNat) else c

/-- `ExpandHRP`: the high bits of each character, a zero, then the low five
bits of each character; the loop's writes `ret[i]` and `ret[i + size + 1]`. -/
def ExpandHRP (hrp : List Char) : List UInt8 :=
  hrp.map (fun c => c.toUInt8 >>> (5 : UInt8)) ++ [0] ++ hrp.map (fun c => c.toUInt8 &&& (0x1f : UInt8))

/-- `VerifyChecksum`: the remainder is `1`. -/
def VerifyChecksum (hrp : List Char) (values : List UInt8) : Bool :=
  PolyMod (ExpandHRP hrp ++ values) == 1

/-- The loop of `CreateChecksum`: the 5-bit groups of `mod` as checksum
values, most significant first. -/
def checksumValues (mod : UInt32) : List UInt8 :=
  (List.range 6).map fun i => ((mod >>> (5 * (5 - i)).toUInt32) &&& 31).toUInt8

/-- `CreateChecksum`: the six 5-bit groups of what to XOR into six zero values
to make the remainder `1`. -/
def CreateChecksum (hrp : List Char) (values : List UInt8) : List UInt8 :=
  let enc := ExpandHRP hrp ++ values ++ List.replicate 6 0
  let mod := PolyMod enc ^^^ 1
  checksumValues mod

/-- `bech32::Encode`. -/
def Encode (hrp : List Char) (values : List UInt8) : List Char :=
  let checksum := CreateChecksum hrp values
  let combined := values ++ checksum
  hrp ++ ['1'] ++ combined.map charsetAt

/-! ## Decoding -/

/-- One round of `Decode`'s first loop: it sets `lower` or `upper` at a
letter, and returns `{}` at a character outside `33..126`. -/
def caseStep (flags : Bool × Bool) (c : Char) : Option (Bool × Bool) :=
  if 'a' ≤ c ∧ c ≤ 'z' then some (true, flags.2)
  else if 'A' ≤ c ∧ c ≤ 'Z' then some (flags.1, true)
  else if c.toNat < 33 ∨ 126 < c.toNat then none
  else some flags

/-- `str.rfind(ch)`: the place of the last `ch`, or `none` for `npos`. -/
def rfind (ch : Char) : List Char → Option ℕ
  | [] => none
  | c :: cs =>
    match rfind ch cs with
    | some p => some (p + 1)
    | none => if c = ch then some 0 else none

/-- `CHARSET_REV[c]` as a value, or `none` where it is `-1`. -/
def charsetRev (c : Char) : Option UInt8 :=
  let rev := CHARSET_REV.getD c.toNat (-1)
  if rev = -1 then none else some rev.toNat.toUInt8

/-- `bech32::Decode`. -/
def Decode (str : List Char) : List Char × List UInt8 :=
  match str.foldlM caseStep (false, false) with
  | none => ([], [])
  | some (lower, upper) =>
    if lower && upper then ([], [])
    else
      match rfind '1' str with
      | none => ([], [])
      | some pos =>
        if 90 < str.length ∨ pos = 0 ∨ str.length < pos + 7 then ([], [])
        else
          match (str.drop (pos + 1)).mapM charsetRev with
          | none => ([], [])
          | some values =>
            let hrp := (str.take pos).map LowerCase
            if !VerifyChecksum hrp values then ([], [])
            else (hrp, values.take (values.length - 6))


/-! ## The step is linear -/

/-- The term `c0 * {2^n}k(x)` for the bit `k = 2^n` of `c0`: `g` where the
bit is set. -/
def genTerm (c : UInt32) (k : UInt8) (g : UInt32) : UInt32 :=
  if (c >>> 25).toUInt8 &&& k ≠ 0 then g else 0

/-- `PolyMod`'s step with no value added: `c(x) * x` modulo the generator. -/
def polyModShift (c : UInt32) : UInt32 :=
  ((c &&& 0x1ffffff) <<< 5) ^^^ genTerm c 1 0x3b6a57b2 ^^^ genTerm c 2 0x26508e6d ^^^
    genTerm c 4 0x1ea119fa ^^^ genTerm c 8 0x3d4233dd ^^^ genTerm c 16 0x2a1462b3

theorem ite_xor_eq (p : Prop) [Decidable p] (x g : UInt32) :
    (if p then x ^^^ g else x) = x ^^^ if p then g else 0 := by
  split <;> simp

theorem polyModStep_eq (c : UInt32) (v : UInt8) : polyModStep c v = polyModShift c ^^^ v.toUInt32 := by
  simp only [polyModStep, polyModShift, genTerm, ite_xor_eq]
  ac_rfl

/-- `PolyMod`'s loop is a fold of `XorFold.linearStep`. -/
theorem polyModStep_linear : polyModStep = XorFold.linearStep polyModShift UInt8.toUInt32 := by
  funext c v
  exact polyModStep_eq c v

/-- Bit `k = 2^j` of `c0` is bit `25 + j` of `c`. -/
theorem genTerm_eq (c : UInt32) {k : UInt8} {j : ℕ} (hk : k.toNat = 2 ^ j) (hj : j < 7) (g : UInt32) :
    genTerm c k g = if c.toNat.testBit (25 + j) then g else 0 := by
  have hbit : (c >>> 25).toUInt8 &&& k ≠ 0 ↔ c.toNat.testBit (25 + j) = true := by
    rw [ne_eq, ← UInt8.toNat_inj, UInt8.toNat_and, hk, UInt8.toNat_zero, ← ne_eq, BitPack.and_two_pow_ne_zero,
      UInt32.toNat_toUInt8, UInt32.toNat_shiftRight, Nat.testBit_mod_two_pow, Nat.testBit_shiftRight]
    simp [show j < 8 by omega]
  simp only [genTerm, hbit]

theorem genTerm_xor (a b : UInt32) {k : UInt8} {j : ℕ} (hk : k.toNat = 2 ^ j) (hj : j < 7) (g : UInt32) :
    genTerm (a ^^^ b) k g = genTerm a k g ^^^ genTerm b k g := by
  rw [genTerm_eq _ hk hj, genTerm_eq _ hk hj, genTerm_eq _ hk hj, UInt32.toNat_xor, Nat.testBit_xor]
  cases a.toNat.testBit (25 + j) <;> cases b.toNat.testBit (25 + j) <;> simp

theorem and_xor_distrib (a b m : UInt32) : (a ^^^ b) &&& m = (a &&& m) ^^^ (b &&& m) :=
  UInt32.toNat_inj.mp (by simp [Nat.and_xor_distrib_right])

/-- Multiplication by `x` modulo the generator is linear. -/
theorem polyModShift_xor : XorFold.XorLinear polyModShift := by
  intro a b
  simp only [polyModShift, and_xor_distrib, UInt32.shiftLeft_xor,
    genTerm_xor a b (by decide : (1 : UInt8).toNat = 2 ^ 0) (by decide),
    genTerm_xor a b (by decide : (2 : UInt8).toNat = 2 ^ 1) (by decide),
    genTerm_xor a b (by decide : (4 : UInt8).toNat = 2 ^ 2) (by decide),
    genTerm_xor a b (by decide : (8 : UInt8).toNat = 2 ^ 3) (by decide),
    genTerm_xor a b (by decide : (16 : UInt8).toNat = 2 ^ 4) (by decide)]
  ac_rfl

/-! ## Bounds -/

theorem toNat_genTerm_lt (c : UInt32) (k : UInt8) {g : UInt32} (hg : g.toNat < 2 ^ 30) :
    (genTerm c k g).toNat < 2 ^ 30 := by
  unfold genTerm
  split
  · exact hg
  · simp

/-- The remainder has six 5-bit coefficients. -/
theorem polyModShift_lt (c : UInt32) : (polyModShift c).toNat < 2 ^ 30 := by
  have hshift : ((c &&& 0x1ffffff) <<< 5).toNat < 2 ^ 30 := by
    have hm : (c &&& 0x1ffffff).toNat < 2 ^ 25 := by
      rw [UInt32.toNat_and]
      exact Nat.and_lt_two_pow _ (by decide)
    rw [UInt32.toNat_shiftLeft, show (5 : UInt32).toNat % 32 = 5 by decide, Nat.shiftLeft_eq,
      Nat.mod_eq_of_lt (by omega)]
    omega
  simp only [polyModShift, UInt32.toNat_xor]
  repeat' apply Nat.xor_lt_two_pow
  all_goals first
    | exact hshift
    | exact toNat_genTerm_lt c _ (by decide)

/-- Below `2^25` no coefficient is carried out: the step is a shift. -/
theorem polyModShift_of_lt {c : UInt32} (hc : c.toNat < 2 ^ 25) : (polyModShift c).toNat = c.toNat <<< 5 := by
  have hc0 : (c >>> 25).toUInt8 = 0 := by
    apply UInt8.toNat_inj.mp
    rw [UInt32.toNat_toUInt8, UInt32.toNat_shiftRight, show (25 : UInt32).toNat % 32 = 25 by decide,
      Nat.shiftRight_eq_div_pow, Nat.div_eq_of_lt hc]
    rfl
  have hmask : (c &&& 0x1ffffff).toNat = c.toNat := by
    rw [UInt32.toNat_and, show (0x1ffffff : UInt32).toNat = 2 ^ 25 - 1 by decide,
      Nat.and_two_pow_sub_one_eq_mod, Nat.mod_eq_of_lt hc]
  simp only [polyModShift, genTerm, hc0, UInt8.zero_and, ne_eq, not_true_eq_false, if_false,
    UInt32.xor_zero, UInt32.toNat_shiftLeft, hmask]
  rw [show (5 : UInt32).toNat % 32 = 5 by decide, Nat.shiftLeft_eq, Nat.mod_eq_of_lt (by omega)]

/-! ## The checksum -/

theorem PolyMod_append (a b : List UInt8) : PolyMod (a ++ b) = b.foldl polyModStep (PolyMod a) :=
  List.foldl_append

/-- From zero, at most six 5-bit values are read as the number they spell. -/
theorem foldl_polyModStep_zero {ds : List UInt8} (hds : ∀ d ∈ ds, d.toNat < 2 ^ 5) (hlen : ds.length ≤ 6) :
    (ds.foldl polyModStep 0).toNat = BitGroups.value 5 (ds.map UInt8.toNat) := by
  induction ds using List.reverseRecOn with
  | nil => rfl
  | append_singleton xs x ih =>
    have hxs : ∀ d ∈ xs, d.toNat < 2 ^ 5 := fun d hd => hds d (List.mem_append_left _ hd)
    have hx := hds x (List.mem_append_right _ (List.mem_singleton_self x))
    have hlen' : xs.length ≤ 5 := by
      rw [List.length_append, List.length_singleton] at hlen
      omega
    have hval := ih hxs (by omega)
    -- the number so far has at most 25 bits, so the step only shifts it
    have hsmall : (xs.foldl polyModStep 0).toNat < 2 ^ 25 := by
      rw [hval]
      calc BitGroups.value 5 (xs.map UInt8.toNat) < 2 ^ (5 * (xs.map UInt8.toNat).length) :=
            BitGroups.value_lt 5 (by simpa using hxs)
        _ ≤ 2 ^ 25 := Nat.pow_le_pow_right (by decide) (by simp; omega)
    rw [List.foldl_append, List.foldl_cons, List.foldl_nil, polyModStep_eq, UInt32.toNat_xor,
      polyModShift_of_lt hsmall, UInt8.toNat_toUInt32, BitGroups.shiftLeft_xor_eq_add _ hx, Nat.shiftLeft_eq,
      hval, List.map_append, List.map_singleton, BitGroups.value_append_singleton]

theorem length_checksumValues (mod : UInt32) : (checksumValues mod).length = 6 := by
  simp [checksumValues]

theorem checksumValues_lt (mod : UInt32) : ∀ d ∈ checksumValues mod, d.toNat < 2 ^ 5 := by
  intro d hd
  simp only [checksumValues, List.mem_map] at hd
  obtain ⟨i, -, rfl⟩ := hd
  rw [UInt32.toNat_toUInt8, UInt32.toNat_and, show (31 : UInt32).toNat = 2 ^ 5 - 1 by decide,
    Nat.and_two_pow_sub_one_eq_mod]
  exact Nat.lt_of_le_of_lt (Nat.mod_le _ _) (Nat.mod_lt _ (by decide))

/-- The checksum values spell `mod`. -/
theorem value_checksumValues {mod : UInt32} (hmod : mod.toNat < 2 ^ 30) :
    BitGroups.value 5 ((checksumValues mod).map UInt8.toNat) = mod.toNat := by
  have hand : ∀ x : ℕ, x &&& 31 = x % 32 := fun x => Nat.and_two_pow_sub_one_eq_mod x 5
  simp [checksumValues, List.range_succ, BitGroups.value, UInt32.toNat_toUInt8, hand, Nat.shiftRight_eq_div_pow]
  omega

/-- Read from zero, the checksum values give back `mod`. -/
theorem foldl_checksumValues {mod : UInt32} (hmod : mod.toNat < 2 ^ 30) :
    (checksumValues mod).foldl polyModStep 0 = mod := by
  apply UInt32.toNat_inj.mp
  rw [foldl_polyModStep_zero (checksumValues_lt mod) (by rw [length_checksumValues]),
    value_checksumValues hmod]

/-- What `CreateChecksum` XORs into six zeros: the remainder after the values,
moved six times, plus one. -/
theorem CreateChecksum_eq (hrp : List Char) (values : List UInt8) :
    CreateChecksum hrp values = checksumValues (polyModShift^[6] (PolyMod (ExpandHRP hrp ++ values)) ^^^ 1) := by
  rw [CreateChecksum, PolyMod_append, polyModStep_linear,
    XorFold.foldl_replicate_zero polyModShift_xor (by decide)]

theorem toNat_iterate_xor_one_lt (s : UInt32) : (polyModShift^[6] s ^^^ 1).toNat < 2 ^ 30 := by
  rw [UInt32.toNat_xor, Function.iterate_succ_apply']
  exact Nat.xor_lt_two_pow (polyModShift_lt _) (by decide)

/-- A created checksum verifies. -/
theorem VerifyChecksum_CreateChecksum (hrp : List Char) (values : List UInt8) :
    VerifyChecksum hrp (values ++ CreateChecksum hrp values) = true := by
  set s := PolyMod (ExpandHRP hrp ++ values)
  have hmod := toNat_iterate_xor_one_lt s
  have hds : (CreateChecksum hrp values).foldl (XorFold.linearStep polyModShift UInt8.toUInt32) 0 =
      polyModShift^[(CreateChecksum hrp values).length] s ^^^ 1 := by
    rw [CreateChecksum_eq, ← polyModStep_linear, foldl_checksumValues hmod, length_checksumValues]
  rw [VerifyChecksum, ← List.append_assoc, PolyMod_append, polyModStep_linear,
    XorFold.foldl_of_zero polyModShift_xor hds]
  rfl

/-- The checksum is the only one: six 5-bit values behind which the values
verify are the ones `CreateChecksum` writes. -/
theorem eq_CreateChecksum_of_verify {hrp : List Char} {values cs : List UInt8}
    (hv : VerifyChecksum hrp (values ++ cs) = true) (hlen : cs.length = 6) (hcs : ∀ c ∈ cs, c.toNat < 2 ^ 5) :
    cs = CreateChecksum hrp values := by
  set s := PolyMod (ExpandHRP hrp ++ values)
  have h1 : cs.foldl (XorFold.linearStep polyModShift UInt8.toUInt32) s = 1 := by
    rw [VerifyChecksum, ← List.append_assoc, PolyMod_append, beq_iff_eq, polyModStep_linear] at hv
    exact hv
  -- read from zero, the values give what `CreateChecksum` spells
  have h0 : cs.foldl polyModStep 0 = polyModShift^[6] s ^^^ 1 := by
    rw [XorFold.foldl_linearStep polyModShift_xor, hlen] at h1
    rw [polyModStep_linear, ← h1, XorFold.xor_cancel_left]
  rw [CreateChecksum_eq]
  apply (List.map_inj_right fun x y h => UInt8.toNat_inj.mp h).mp
  apply BitGroups.value_inj 5 (by simpa using hcs) (by simpa using checksumValues_lt _)
    (by rw [List.length_map, List.length_map, hlen, length_checksumValues])
  rw [← foldl_polyModStep_zero hcs (by omega), h0, value_checksumValues (toNat_iterate_xor_one_lt s)]

/-! ## Reading back -/

/-- A character that `Decode`'s first loop passes without setting `upper`:
printable, and no uppercase letter. -/
def IsHrpChar (c : Char) : Prop := 33 ≤ c.toNat ∧ c.toNat ≤ 126 ∧ ¬('A' ≤ c ∧ c ≤ 'Z')

instance (c : Char) : Decidable (IsHrpChar c) :=
  inferInstanceAs (Decidable (33 ≤ c.toNat ∧ c.toNat ≤ 126 ∧ ¬('A' ≤ c ∧ c ≤ 'Z')))

theorem caseStep_of_isHrpChar {c : Char} (hc : IsHrpChar c) (l : Bool) :
    ∃ l', caseStep (l, false) c = some (l', false) := by
  obtain ⟨hlo, hhi, hup⟩ := hc
  unfold caseStep
  by_cases hlower : 'a' ≤ c ∧ c ≤ 'z'
  · exact ⟨true, if_pos hlower⟩
  · have hrange : ¬(c.toNat < 33 ∨ 126 < c.toNat) := by omega
    exact ⟨l, by rw [if_neg hlower, if_neg hup, if_neg hrange]⟩

/-- Over characters of a human-readable part, the first loop finds no
uppercase letter and does not return. -/
theorem foldlM_caseStep {cs : List Char} (hcs : ∀ c ∈ cs, IsHrpChar c) (l : Bool) :
    ∃ l', cs.foldlM caseStep (l, false) = some (l', false) := by
  induction cs generalizing l with
  | nil => exact ⟨l, rfl⟩
  | cons c cs ih =>
    obtain ⟨l₁, h₁⟩ := caseStep_of_isHrpChar (hcs c List.mem_cons_self) l
    obtain ⟨l₂, h₂⟩ := ih (fun d hd => hcs d (List.mem_cons_of_mem c hd)) l₁
    exact ⟨l₂, by rw [List.foldlM_cons, h₁, Option.bind_eq_bind, Option.bind_some, h₂]⟩

theorem rfind_eq_none {ch : Char} : ∀ {cs : List Char}, ch ∉ cs → rfind ch cs = none
  | [], _ => rfl
  | c :: cs, h => by
    rw [rfind, rfind_eq_none (fun hm => h (List.mem_cons_of_mem c hm))]
    exact if_neg fun hc : c = ch => h (hc ▸ List.mem_cons_self)

/-- The last `ch` is the one before a tail without `ch`. -/
theorem rfind_append_cons (ch : Char) {rest : List Char} (hrest : ch ∉ rest) :
    ∀ pre : List Char, rfind ch (pre ++ ch :: rest) = some pre.length
  | [] => by rw [List.nil_append, rfind, rfind_eq_none hrest, if_pos rfl, List.length_nil]
  | c :: pre => by rw [List.cons_append, rfind, rfind_append_cons ch hrest pre, List.length_cons]

/-- Every character of the alphabet is printable, lowercase, no separator, and
decodes to its place. -/
theorem charsetAt_spec : ∀ n < 32, IsHrpChar (CHARSET.getD n '\x00') ∧ CHARSET.getD n '\x00' ≠ '1' ∧
    charsetRev (CHARSET.getD n '\x00') = some n.toUInt8 := by
  decide

theorem mapM_charsetRev {vs : List UInt8} (hvs : ∀ v ∈ vs, v.toNat < 32) :
    (vs.map charsetAt).mapM charsetRev = some vs := by
  induction vs with
  | nil => rfl
  | cons v vs ih =>
    have hv := (charsetAt_spec v.toNat (hvs v List.mem_cons_self)).2.2
    rw [Nat.toUInt8_eq, UInt8.ofNat_toNat] at hv
    rw [List.map_cons, List.mapM_cons, charsetAt, hv, ih fun w hw => hvs w (List.mem_cons_of_mem v hw)]
    rfl

theorem LowerCase_of_isHrpChar {c : Char} (hc : IsHrpChar c) : LowerCase c = c :=
  if_neg hc.2.2

/-- `Decode` reads back what `Encode` writes, for a non-empty human-readable
part of printable characters without uppercase letters, 5-bit values, and at
most 90 characters in all. -/
theorem Decode_Encode {hrp : List Char} (hne : hrp ≠ []) (hhrp : ∀ c ∈ hrp, IsHrpChar c)
    {values : List UInt8} (hvalues : ∀ v ∈ values, v.toNat < 32) (hlen : hrp.length + values.length + 7 ≤ 90) :
    Decode (Encode hrp values) = (hrp, values) := by
  set combined := values ++ CreateChecksum hrp values with hcombined
  have hcomb_lt : ∀ v ∈ combined, v.toNat < 32 := by
    intro v hv
    rcases List.mem_append.mp hv with hv | hv
    · exact hvalues v hv
    · rw [CreateChecksum_eq] at hv
      exact checksumValues_lt _ v hv
  have hclen : combined.length = values.length + 6 := by
    rw [List.length_append, CreateChecksum_eq, length_checksumValues]
  -- the data characters pass the first loop, and none of them is a separator
  have hdata : ∀ c ∈ combined.map charsetAt, IsHrpChar c ∧ c ≠ '1' := by
    intro c hc
    obtain ⟨v, hv, rfl⟩ := List.mem_map.mp hc
    exact ⟨(charsetAt_spec v.toNat (hcomb_lt v hv)).1, (charsetAt_spec v.toNat (hcomb_lt v hv)).2.1⟩
  have henc : Encode hrp values = hrp ++ '1' :: combined.map charsetAt := by
    simp [Encode, combined]
  have hall : ∀ c ∈ hrp ++ '1' :: combined.map charsetAt, IsHrpChar c := by
    intro c hc
    rcases List.mem_append.mp hc with hc | hc
    · exact hhrp c hc
    · rcases List.mem_cons.mp hc with rfl | hc
      · decide
      · exact (hdata c hc).1
  obtain ⟨l, hscan⟩ := foldlM_caseStep hall false
  have hrfind := rfind_append_cons '1' (fun h => (hdata '1' h).2 rfl) hrp
  have hsize : (hrp ++ '1' :: combined.map charsetAt).length = hrp.length + values.length + 7 := by
    simp only [List.length_append, List.length_cons, List.length_map, hclen]
    omega
  have hpos : hrp.length ≠ 0 := fun h => hne (List.length_eq_zero_iff.mp h)
  have hdrop : (hrp ++ '1' :: combined.map charsetAt).drop (hrp.length + 1) = combined.map charsetAt := by
    simp
  have htake : ((hrp ++ '1' :: combined.map charsetAt).take hrp.length).map LowerCase = hrp := by
    rw [List.take_left, List.map_congr_left fun c hc => LowerCase_of_isHrpChar (hhrp c hc), List.map_id']
  rw [henc, Decode, hscan]
  simp only [Bool.and_false, Bool.false_eq_true, if_false]
  rw [hrfind]
  dsimp only
  rw [hsize, if_neg (by omega), hdrop, mapM_charsetRev hcomb_lt]
  dsimp only
  have hverify : VerifyChecksum hrp combined = true := VerifyChecksum_CreateChecksum hrp values
  rw [htake, hverify, hclen, Nat.add_sub_cancel, hcombined, List.take_left]
  rfl

/-! ## What `Decode` accepts -/

theorem caseStep_le {flags flags' : Bool × Bool} {c : Char} (h : caseStep flags c = some flags') :
    c.toNat ≤ 126 := by
  unfold caseStep at h
  split_ifs at h with hlower hupper hrange
  · exact Nat.le_trans hlower.2 (by decide)
  · exact Nat.le_trans hupper.2 (by decide)
  · omega

/-- Every character the first loop passes is below `127`. -/
theorem foldlM_caseStep_le : ∀ {cs : List Char} {flags flags' : Bool × Bool},
    cs.foldlM caseStep flags = some flags' → ∀ c ∈ cs, c.toNat ≤ 126
  | [], _, _, _ => fun _ hc => absurd hc List.not_mem_nil
  | d :: cs, flags, flags', h => by
    rw [List.foldlM_cons] at h
    cases hd : caseStep flags d with
    | none =>
      rw [hd] at h
      cases h
    | some f =>
      rw [hd, Option.bind_eq_bind, Option.bind_some] at h
      intro c hc
      rcases List.mem_cons.mp hc with rfl | hc
      · exact caseStep_le hd
      · exact foldlM_caseStep_le h c hc

/-- `rfind` finds a `ch`. -/
theorem rfind_spec {ch : Char} : ∀ {cs : List Char} {p : ℕ}, rfind ch cs = some p → cs[p]? = some ch
  | [], _, h => by cases h
  | c :: cs, p, h => by
    rw [rfind] at h
    cases hr : rfind ch cs with
    | some q =>
      rw [hr] at h
      cases h
      rw [List.getElem?_cons_succ]
      exact rfind_spec hr
    | none =>
      rw [hr] at h
      dsimp only at h
      split_ifs at h with hc
      cases h
      rw [hc]
      rfl

/-- Every character of the decoding table below `128`: its value is a
5-bit value, written back in lowercase by the alphabet. -/
theorem charsetRev_spec : ∀ n < 128, (charsetRev (Char.ofNat n)).all
    (fun v => decide (v.toNat < 32) && charsetAt v == LowerCase (Char.ofNat n)) = true := by
  decide

theorem charsetAt_charsetRev {c : Char} (hc : c.toNat < 128) {v : UInt8} (hv : charsetRev c = some v) :
    v.toNat < 32 ∧ charsetAt v = LowerCase c := by
  have h := charsetRev_spec c.toNat hc
  rw [Char.ofNat_toNat, hv, Option.all_some, Bool.and_eq_true, decide_eq_true_eq, beq_iff_eq] at h
  exact h

theorem mapM_charsetRev_spec : ∀ {cs : List Char} {vs : List UInt8}, (∀ c ∈ cs, c.toNat < 128) →
    cs.mapM charsetRev = some vs → vs.map charsetAt = cs.map LowerCase ∧ ∀ v ∈ vs, v.toNat < 32
  | [], vs, _, h => by
    cases h
    exact ⟨rfl, fun _ hv => absurd hv List.not_mem_nil⟩
  | c :: cs, vs, hcs, h => by
    rw [List.mapM_cons] at h
    cases hc : charsetRev c with
    | none =>
      rw [hc] at h
      cases h
    | some v =>
      cases hrest : cs.mapM charsetRev with
      | none =>
        rw [hc, hrest] at h
        cases h
      | some ws =>
        rw [hc, hrest] at h
        cases h
        obtain ⟨hv, hat⟩ := charsetAt_charsetRev (hcs c List.mem_cons_self) hc
        obtain ⟨hmap, hws⟩ := mapM_charsetRev_spec (fun d hd => hcs d (List.mem_cons_of_mem c hd)) hrest
        refine ⟨by rw [List.map_cons, List.map_cons, hat, hmap], ?_⟩
        intro w hw
        rcases List.mem_cons.mp hw with rfl | hw
        · exact hv
        · exact hws w hw

/-- Every string `Decode` accepts is the encoding of what it returns, up to
case: `Encode` writes it back in lowercase. -/
theorem Encode_Decode {str : List Char} (h : Decode str ≠ ([], [])) :
    Encode (Decode str).1 (Decode str).2 = str.map LowerCase := by
  -- follow `Decode` to the branch that returns a value
  cases hscan : str.foldlM caseStep (false, false) with
  | none => simp [Decode, hscan] at h
  | some flags =>
  obtain ⟨lower, upper⟩ := flags
  by_cases hlu : (lower && upper) = true
  · simp [Decode, hscan, hlu] at h
  cases hr : rfind '1' str with
  | none => simp [Decode, hscan, hlu, hr] at h
  | some pos =>
  by_cases hcond : 90 < str.length ∨ pos = 0 ∨ str.length < pos + 7
  · simp [Decode, hscan, hlu, hr, hcond] at h
  cases hm : (str.drop (pos + 1)).mapM charsetRev with
  | none => simp [Decode, hscan, hlu, hr, hcond, hm] at h
  | some V =>
  by_cases hver : VerifyChecksum ((str.take pos).map LowerCase) V = true
  swap
  · simp [Decode, hscan, hlu, hr, hcond, hm, hver, -List.map_take] at h
  have hD : Decode str = ((str.take pos).map LowerCase, V.take (V.length - 6)) := by
    simp [Decode, hscan, hlu, hr, hcond, hm, hver, -List.map_take]
  rw [hD]
  -- the data characters are read back in lowercase, and the last six are the checksum
  have hsmall : ∀ c ∈ str.drop (pos + 1), c.toNat < 128 := fun c hc =>
    Nat.lt_of_le_of_lt (foldlM_caseStep_le hscan c (List.mem_of_mem_drop hc)) (by decide)
  obtain ⟨hmap, hV⟩ := mapM_charsetRev_spec hsmall hm
  have hVlen : V.length = str.length - (pos + 1) := by
    rw [← List.length_drop, ← List.length_map (f := charsetAt), hmap, List.length_map]
  have hsum : CreateChecksum ((str.take pos).map LowerCase) (V.take (V.length - 6)) = V.drop (V.length - 6) := by
    refine (eq_CreateChecksum_of_verify (by rw [List.take_append_drop]; exact hver) ?_ ?_).symm
    · rw [List.length_drop]
      omega
    · exact fun v hv => hV v (List.mem_of_mem_drop hv)
  have hsep : str = str.take pos ++ '1' :: str.drop (pos + 1) := by
    obtain ⟨hlt, hget⟩ := List.getElem?_eq_some_iff.mp (rfind_spec hr)
    rw [← hget, ← List.drop_eq_getElem_cons hlt, List.take_append_drop]
  simp only [Encode]
  rw [hsum, List.take_append_drop, hmap]
  conv_rhs => rw [hsep]
  rw [List.map_append, List.map_cons, List.append_assoc, List.singleton_append]
  rfl

/-- The uppercase string `A12UEL5L` is accepted and written back in
lowercase. -/
theorem Encode_Decode_A12UEL5L :
    Encode (Decode ['A', '1', '2', 'U', 'E', 'L', '5', 'L']).1 (Decode ['A', '1', '2', 'U', 'E', 'L', '5', 'L']).2 =
      ['A', '1', '2', 'U', 'E', 'L', '5', 'L'].map LowerCase :=
  Encode_Decode (by decide)

end Bech32

end XPChain
