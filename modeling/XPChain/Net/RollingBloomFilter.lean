import Mathlib.Data.List.GetD
import Mathlib.Algebra.Order.Group.Nat

/-!
# The rolling bloom filter

`CRollingBloomFilter` of `bloom.cpp` remembers the keys inserted recently.  It
keeps two to three generations of `nEntriesPerGeneration` keys each: every
position of the filter carries two bits, `data[2q]` and `data[2q+1]` at bit
`b`, read together as the generation (1, 2 or 3) that last set it, or 0 when
unset.  `insert` starts a new generation every `nEntriesPerGeneration` keys,
wiping every position tagged with the generation number it reuses, and then
tags the key's `nHashFuncs` positions with the current generation.
`contains` asks whether all of a key's positions are tagged.

`MurmurHash3` is a parameter, as is the random `nTweak` that `reset` draws.
The constructor computes `nHashFuncs` and `nFilterBits` from `fpRate` in
`double` arithmetic; the model takes the two values as they come out, and
does the rest of the constructor in `uint32_t`.  The `int` counters are
natural numbers.  An index past the end of `data` reads `0` and writes
nothing, where the source has undefined behaviour; only an empty table
(`nFilterBits + 63` wrapping past `2^32`, or `nFilterBits = 0`) reaches it.

## Main definitions

* `CRollingBloomFilter`, `RollingBloomHash`, `FastMod`.
* `CRollingBloomFilter.new`, `reset`, `insert`, `contains`.
* `CRollingBloomFilter.tag` — the generation a position is tagged with.

## Main statements

* `tag_setPosition`, `tag_wipeGeneration`, `contains_eq_true_iff` — the word
  operations read as operations on tags.
* `Window` and `Remembers` — the run invariant: which generations the recent
  keys went in, and that their positions are still tagged.
* `contains_recent` — no false negatives: with a non-empty table, each of the
  last `nElements` keys inserted since the last `reset` is contained.
* `contains_recent_new`, `contains_recent_after_reset` — so from the
  constructor, and after any calls and a later `reset`.
-/

set_option autoImplicit false

namespace XPChain

/-- The state of `CRollingBloomFilter`. -/
structure CRollingBloomFilter where
  nEntriesPerGeneration : ℕ
  nEntriesThisGeneration : ℕ
  nGeneration : ℕ
  data : List UInt64
  nTweak : UInt32
  nHashFuncs : ℕ
deriving DecidableEq

/-- `RollingBloomHash`: the `nHashNum`-th hash of a key, a `MurmurHash3` seeded
by the hash number and the tweak. -/
def RollingBloomHash (MurmurHash3 : UInt32 → List UInt8 → UInt32) (nHashNum : ℕ) (nTweak : UInt32)
    (vDataToHash : List UInt8) : UInt32 :=
  MurmurHash3 (nHashNum.toUInt32 * 0xFBA4C795 + nTweak) vDataToHash

/-- `FastMod`: `x * n / 2^32` in 64-bit arithmetic, a replacement for `x % n`. -/
def FastMod (x : UInt32) (n : ℕ) : UInt32 :=
  ((x.toUInt64 * n.toUInt64) >>> 32).toUInt32

theorem FastMod_toNat (x : UInt32) (n : ℕ) (hn : n < 2 ^ 32) :
    (FastMod x n).toNat = x.toNat * n / 2 ^ 32 := by
  have hprod : x.toNat * n < 2 ^ 64 := by
    calc x.toNat * n < 2 ^ 32 * 2 ^ 32 := Nat.mul_lt_mul'' x.toNat_lt hn
      _ = 2 ^ 64 := (Nat.pow_add 2 32 32).symm
  have hquot : x.toNat * n / 2 ^ 32 < 2 ^ 32 := Nat.div_lt_of_lt_mul (by omega)
  have hn64 : n % 2 ^ 64 = n := Nat.mod_eq_of_lt (by omega)
  have hshift : UInt64.toNat 32 % 64 = 32 := rfl
  simp only [FastMod, UInt64.toNat_toUInt32, UInt64.toNat_shiftRight, UInt64.toNat_mul,
    UInt32.toNat_toUInt64]
  rw [Nat.toUInt64_eq, UInt64.toNat_ofNat', hn64, Nat.mod_eq_of_lt hprod, hshift,
    Nat.shiftRight_eq_div_pow, Nat.mod_eq_of_lt hquot]

theorem FastMod_lt (x : UInt32) (n : ℕ) (hpos : 0 < n) (hn : n < 2 ^ 32) :
    (FastMod x n).toNat < n := by
  rw [FastMod_toNat x n hn]
  exact Nat.div_lt_of_lt_mul (Nat.mul_lt_mul_of_pos_right x.toNat_lt hpos)

/-! ## Index arithmetic

`pos & ~1` and `pos | 1` are the two words of the pair `pos / 2`; a generation
number below 4 is written one bit to each. -/

theorem toNat_and_not_one (pos : UInt32) : (pos &&& ~~~1).toNat = 2 * (pos.toNat / 2) := by
  have hpos : pos.toNat / 2 < 2 ^ 31 := by
    have := pos.toNat_lt
    omega
  apply Nat.eq_of_testBit_eq
  rintro (_ | j)
  · simp
  · have hmask : (UInt32.size - 1 - UInt32.toNat 1) / 2 = 2 ^ 31 - 1 := by decide
    rw [UInt32.toNat_and, UInt32.toNat_not, Nat.testBit_and, Nat.testBit_add_one, Nat.testBit_add_one,
      Nat.testBit_add_one, hmask, Nat.testBit_two_pow_sub_one, Nat.mul_div_cancel_left _ (by decide)]
    -- past bit 31 the mask is clear, and so is `pos / 2`
    by_cases hj : j < 31
    · simp [hj]
    · have hlt : pos.toNat / 2 < 2 ^ j :=
        Nat.lt_of_lt_of_le hpos (Nat.pow_le_pow_right Nat.zero_lt_two (not_lt.mp hj))
      simp [hj, Nat.testBit_lt_two_pow hlt]

theorem toNat_or_one (pos : UInt32) : (pos ||| 1).toNat = 2 * (pos.toNat / 2) + 1 := by
  apply Nat.eq_of_testBit_eq
  rintro (_ | j)
  · simp
  · have hhalf : (2 * (pos.toNat / 2) + 1) / 2 = pos.toNat / 2 := by omega
    rw [UInt32.toNat_or, Nat.testBit_or, Nat.testBit_add_one, Nat.testBit_add_one, Nat.testBit_add_one,
      hhalf]
    simp

theorem toNat_bit (h : UInt32) : (h &&& 0x3F).toUInt64.toNat = h.toNat % 64 := by
  rw [UInt32.toNat_toUInt64, UInt32.toNat_and]
  exact Nat.and_two_pow_sub_one_eq_mod h.toNat 6

theorem bit_lt (h : UInt32) : (h &&& 0x3F).toUInt64 < 64 := by
  rw [UInt64.lt_iff_toNat_lt, toNat_bit]
  exact Nat.mod_lt _ (by decide)

/-- `(w & ~(((uint64_t)1) << bit)) | ((uint64_t)v << bit)`, the word write of
`insert`: bit `bit` of `w` replaced by `v`. -/
def writeBit (w : UInt64) (v : ℕ) (bit : UInt64) : UInt64 :=
  (w &&& ~~~((1 : UInt64) <<< bit)) ||| (v.toUInt64 <<< bit)

theorem getLsbD_writeBit (w bit : UInt64) (v j : ℕ) (hv : v < 2) (hb : bit < 64) (hj : j < 64) :
    (writeBit w v bit).toBitVec.getLsbD j = if j = bit.toNat then decide (v = 1) else w.toBitVec.getLsbD j := by
  have hb' : bit.toNat < 64 := hb
  rw [writeBit]
  obtain rfl | rfl : v = 0 ∨ v = 1 := by omega
  all_goals
    rcases lt_trichotomy j bit.toNat with h | rfl | h
    · simp [Nat.mod_eq_of_lt hb', h, hj, h.ne]
    · simp [Nat.mod_eq_of_lt hb', hj]
    · simp [Nat.mod_eq_of_lt hb', hj, h.ne', not_lt.mpr h.le, Nat.sub_ne_zero_of_lt h]

/-- `0 - (uint64_t)v` for a single bit `v`: no bit or every bit. -/
theorem getLsbD_generationMask (v j : ℕ) (hv : v < 2) (hj : j < 64) :
    ((0 : UInt64) - v.toUInt64).toBitVec.getLsbD j = decide (v = 1) := by
  obtain rfl | rfl : v = 0 ∨ v = 1 := by omega
  · simp
  · have hones : ((0 : UInt64) - (1 : ℕ).toUInt64).toBitVec = BitVec.allOnes 64 := by decide
    rw [hones, BitVec.getLsbD_allOnes]
    simp [hj]

theorem getD_set_of_lt {α : Type*} (l : List α) (d v : α) (i j : ℕ) (hi : i < l.length) :
    (l.set i v).getD j d = if i = j then v else l.getD j d := by
  rw [List.getD_eq_getElem?_getD, List.getD_eq_getElem?_getD, List.getElem?_set]
  split_ifs <;> simp_all

/-! ## The filter's operations -/

namespace CRollingBloomFilter

variable (MurmurHash3 : UInt32 → List UInt8 → UInt32)

/-- `reset`: a new tweak, the first generation, and every position unset. -/
def reset (f : CRollingBloomFilter) (nTweak : UInt32) : CRollingBloomFilter :=
  { f with nTweak, nEntriesThisGeneration := 0, nGeneration := 1, data := f.data.map fun _ => 0 }

/-- The constructor `CRollingBloomFilter(nElements, fpRate)`.  `nHashRound` is
`(int)round(logFpRate / log(0.5))` and `nFilterBits` the `(uint32_t)ceil(...)`
it computes from `fpRate`; `nTweak` is what `reset` draws.  The fields `reset`
sets are left at `0` before it. -/
def new (nElements : UInt32) (nHashRound : ℤ) (nFilterBits nTweak : UInt32) : CRollingBloomFilter :=
  reset
    { nEntriesPerGeneration := ((nElements + 1) / 2).toNat
      nEntriesThisGeneration := 0
      nGeneration := 0
      data := List.replicate (((nFilterBits + 63) / 64) <<< 1).toNat 0
      nTweak := 0
      nHashFuncs := (max 1 (min nHashRound 50)).toNat }
    nTweak

/-- The wipe of `insert`: a pair of words at a time, every position tagged
`nGeneration` is cleared. -/
def wipeGeneration (nGeneration : ℕ) : List UInt64 → List UInt64
  | p1 :: p2 :: rest =>
    let nGenerationMask1 : UInt64 := (0 : UInt64) - (nGeneration &&& 1).toUInt64
    let nGenerationMask2 : UInt64 := (0 : UInt64) - (nGeneration >>> 1).toUInt64
    let mask := (p1 ^^^ nGenerationMask1) ||| (p2 ^^^ nGenerationMask2)
    (p1 &&& mask) :: (p2 &&& mask) :: wipeGeneration nGeneration rest
  | data => data

/-- One round of the hash loop of `insert`: the position of hash `h` is tagged
with `nGeneration`, its low bit in `data[pos & ~1]` and its high bit in
`data[pos | 1]`. -/
def setPosition (nGeneration : ℕ) (data : List UInt64) (h : UInt32) : List UInt64 :=
  let bit : UInt64 := (h &&& 0x3F).toUInt64
  let pos := FastMod h data.length
  let data := data.set (pos &&& ~~~1).toNat (writeBit (data.getD (pos &&& ~~~1).toNat 0) (nGeneration &&& 1) bit)
  data.set (pos ||| 1).toNat (writeBit (data.getD (pos ||| 1).toNat 0) (nGeneration >>> 1) bit)

/-- The first branch of `insert`: the generation number moves on through 1, 2,
3 and back to 1, and the positions still tagged with it are wiped. -/
def startGeneration (f : CRollingBloomFilter) : CRollingBloomFilter :=
  let nGeneration := if f.nGeneration + 1 = 4 then 1 else f.nGeneration + 1
  { f with nEntriesThisGeneration := 0, nGeneration, data := wipeGeneration nGeneration f.data }

/-- The rest of `insert`: one more entry in the generation, and the hash loop. -/
def addEntry (f : CRollingBloomFilter) (vKey : List UInt8) : CRollingBloomFilter :=
  { f with
    nEntriesThisGeneration := f.nEntriesThisGeneration + 1
    data := (List.range f.nHashFuncs).foldl
      (fun data n => setPosition f.nGeneration data (RollingBloomHash MurmurHash3 n f.nTweak vKey))
      f.data }

/-- `insert(vKey)`. -/
def insert (f : CRollingBloomFilter) (vKey : List UInt8) : CRollingBloomFilter :=
  addEntry MurmurHash3 (if f.nEntriesThisGeneration = f.nEntriesPerGeneration then f.startGeneration else f) vKey

/-- `contains(vKey)`: every position of the key has one of its two bits set. -/
def contains (f : CRollingBloomFilter) (vKey : List UInt8) : Bool :=
  (List.range f.nHashFuncs).all fun n =>
    let h := RollingBloomHash MurmurHash3 n f.nTweak vKey
    let bit : UInt64 := (h &&& 0x3F).toUInt64
    let pos := FastMod h f.data.length
    ((f.data.getD (pos &&& ~~~1).toNat 0 ||| f.data.getD (pos ||| 1).toNat 0) >>> bit) &&& 1 != 0

/-! ## Tags -/

/-- The generation bit `b` of the words `w₁`, `w₂` holds: bit `b` of `w₁`
plus twice bit `b` of `w₂`, `0` when unset. -/
def pairTag (w₁ w₂ : UInt64) (b : ℕ) : ℕ :=
  (w₁.toBitVec.getLsbD b).toNat + 2 * (w₂.toBitVec.getLsbD b).toNat

/-- The generation position `(q, b)` is tagged with, in the words `data[2q]`
and `data[2q+1]`. -/
def tag (data : List UInt64) (q b : ℕ) : ℕ :=
  pairTag (data.getD (2 * q) 0) (data.getD (2 * q + 1) 0) b

/-- A generation number below 4 is its low bit plus twice its high bit. -/
theorem generation_bits (g : ℕ) (hg : g < 4) :
    (decide (g &&& 1 = 1)).toNat + 2 * (decide (g >>> 1 = 1)).toNat = g := by
  rw [Nat.and_one_is_mod, Nat.shiftRight_one]
  have hlow : (decide (g % 2 = 1)).toNat = g % 2 := by
    rcases Nat.mod_two_eq_zero_or_one g with h | h <;> simp [h]
  have hhigh : (decide (g / 2 = 1)).toNat = g / 2 := by
    obtain h | h : g / 2 = 0 ∨ g / 2 = 1 := by omega
    all_goals simp [h]
  rw [hlow, hhigh]
  omega

/-- The two writes of one round of `insert` tag bit `bit` with `g` and leave
the other bits alone. -/
theorem pairTag_write (w₁ w₂ bit : UInt64) (g b : ℕ) (hg : g < 4) (hbit : bit < 64) (hb : b < 64) :
    pairTag (writeBit w₁ (g &&& 1) bit) (writeBit w₂ (g >>> 1) bit) b =
      if b = bit.toNat then g else pairTag w₁ w₂ b := by
  have hlow : g &&& 1 < 2 := by
    rw [Nat.and_one_is_mod]
    exact Nat.mod_lt g Nat.zero_lt_two
  have hhigh : g >>> 1 < 2 := by
    rw [Nat.shiftRight_one]
    omega
  rw [pairTag, pairTag, getLsbD_writeBit _ _ _ _ hlow hbit hb, getLsbD_writeBit _ _ _ _ hhigh hbit hb]
  split_ifs
  · exact generation_bits g hg
  · rfl

/-- The wipe of one bit, on every combination of the two bits and the two
bits of the generation number. -/
theorem wipe_bits : ∀ x y c d : Bool,
    (x && ((x ^^ c) || (y ^^ d))).toNat + 2 * (y && ((x ^^ c) || (y ^^ d))).toNat =
      if x.toNat + 2 * y.toNat = c.toNat + 2 * d.toNat then 0 else x.toNat + 2 * y.toNat := by
  decide

/-- The wipe of one pair of words clears the bits tagged `g`. -/
theorem pairTag_wipe (p1 p2 : UInt64) (g b : ℕ) (hg : g < 4) (hb : b < 64) :
    let mask := (p1 ^^^ ((0 : UInt64) - (g &&& 1).toUInt64)) ||| (p2 ^^^ ((0 : UInt64) - (g >>> 1).toUInt64))
    pairTag (p1 &&& mask) (p2 &&& mask) b = if pairTag p1 p2 b = g then 0 else pairTag p1 p2 b := by
  have hlow : g &&& 1 < 2 := by
    rw [Nat.and_one_is_mod]
    exact Nat.mod_lt g Nat.zero_lt_two
  have hhigh : g >>> 1 < 2 := by
    rw [Nat.shiftRight_one]
    omega
  simp only [pairTag, BitVec.getLsbD_and, UInt64.toBitVec_and, UInt64.toBitVec_or, UInt64.toBitVec_xor,
    BitVec.getLsbD_or, BitVec.getLsbD_xor]
  rw [getLsbD_generationMask _ _ hlow hb, getLsbD_generationMask _ _ hhigh hb]
  conv_rhs => rw [← generation_bits g hg]
  exact wipe_bits _ _ _ _

/-- The test of `contains` reads one bit of a word. -/
theorem testBit_word (w bit : UInt64) (hb : bit < 64) :
    (((w >>> bit) &&& 1) != 0) = w.toBitVec.getLsbD bit.toNat := by
  have hb' : bit.toNat < 64 := hb
  have hnat : ((w >>> bit) &&& 1).toNat = w.toNat / 2 ^ bit.toNat % 2 := by
    simp [UInt64.toNat_shiftRight, Nat.mod_eq_of_lt hb', Nat.shiftRight_eq_div_pow]
  rw [BitVec.getLsbD, UInt64.toNat_toBitVec, Nat.testBit_eq_decide_div_mod_eq, Bool.eq_iff_iff,
    bne_iff_ne, ne_eq, ← UInt64.toNat_inj, hnat, decide_eq_true_iff]
  simp only [UInt64.toNat_zero]
  omega

/-- The test of `contains` on a pair of words: the bit is tagged. -/
theorem contains_test (w₁ w₂ bit : UInt64) (hb : bit < 64) :
    ((((w₁ ||| w₂) >>> bit) &&& 1) != 0) = decide (pairTag w₁ w₂ bit.toNat ≠ 0) := by
  rw [testBit_word _ _ hb, UInt64.toBitVec_or, BitVec.getLsbD_or, pairTag]
  cases w₁.toBitVec.getLsbD bit.toNat <;> cases w₂.toBitVec.getLsbD bit.toNat <;> rfl

/-- The position hash `h` tags in a table of `size` words: the pair
`FastMod(h, size) / 2` and the bit `h & 0x3F`. -/
def position (size : ℕ) (h : UInt32) : ℕ × ℕ :=
  ((FastMod h size).toNat / 2, h.toNat % 64)

/-- The positions of a key: one per hash function. -/
def positions (f : CRollingBloomFilter) (vKey : List UInt8) : List (ℕ × ℕ) :=
  (List.range f.nHashFuncs).map fun n => position f.data.length (RollingBloomHash MurmurHash3 n f.nTweak vKey)

/-! ## The table -/

/-- The table shape every filter keeps: a whole number of pairs of words, at
least one, and few enough words for `FastMod`. -/
structure Shaped (data : List UInt64) : Prop where
  pos : 0 < data.length
  lt : data.length < 2 ^ 32
  even : data.length % 2 = 0

/-- The shape is a property of the length alone. -/
theorem Shaped.of_length_eq {data data' : List UInt64} (hs : Shaped data) (hlen : data'.length = data.length) :
    Shaped data' :=
  ⟨hlen ▸ hs.pos, hlen ▸ hs.lt, hlen ▸ hs.even⟩

/-- Writes to the two words of pair `i`, read at pair `q`. -/
theorem tag_set_pair (data : List UInt64) (i q b : ℕ) (v₁ v₂ : UInt64) (hi : 2 * i + 1 < data.length) :
    tag ((data.set (2 * i) v₁).set (2 * i + 1) v₂) q b = if q = i then pairTag v₁ v₂ b else tag data q b := by
  have hlen : 2 * i + 1 < (data.set (2 * i) v₁).length := by rwa [List.length_set]
  rw [tag, getD_set_of_lt _ _ _ _ _ hlen, getD_set_of_lt _ _ _ _ _ hlen,
    getD_set_of_lt _ _ _ _ _ (by omega), getD_set_of_lt _ _ _ _ _ (by omega)]
  by_cases hq : q = i
  · subst hq
    simp
  · have h₁ : 2 * i + 1 ≠ 2 * q := by omega
    have h₂ : 2 * i ≠ 2 * q := by omega
    have h₃ : 2 * i ≠ 2 * q + 1 := by omega
    simp [h₁, h₂, h₃, hq, tag]

/-- The second write of a round reads the high word, which the first write left alone. -/
theorem getD_set_succ (data : List UInt64) (i : ℕ) (v : UInt64) :
    (data.set (2 * i) v).getD (2 * i + 1) 0 = data.getD (2 * i + 1) 0 := by
  rw [List.getD_eq_getElem?_getD, List.getD_eq_getElem?_getD, List.getElem?_set_ne (by omega)]

@[simp] theorem length_setPosition (g : ℕ) (data : List UInt64) (h : UInt32) :
    (setPosition g data h).length = data.length := by
  simp [setPosition]

/-- One round of `insert` tags the position of its hash with `g`, and no other. -/
theorem tag_setPosition (g : ℕ) (data : List UInt64) (h : UInt32) (q b : ℕ) (hs : Shaped data)
    (hg : g < 4) (hb : b < 64) :
    tag (setPosition g data h) q b = if (q, b) = position data.length h then g else tag data q b := by
  obtain ⟨hpos, hlt, heven⟩ := hs
  have hp := FastMod_lt h data.length hpos hlt
  have hhi : 2 * ((FastMod h data.length).toNat / 2) + 1 < data.length := by omega
  simp only [setPosition, toNat_and_not_one, toNat_or_one]
  rw [getD_set_succ, tag_set_pair _ _ _ _ _ _ hhi, pairTag_write _ _ _ _ _ hg (bit_lt h) hb, toNat_bit, position]
  by_cases hq : q = (FastMod h data.length).toNat / 2
  · subst hq
    by_cases hbq : b = h.toNat % 64 <;> simp [hbq, tag]
  · simp [hq]

theorem length_foldl_setPosition (g : ℕ) (H : ℕ → UInt32) :
    ∀ (ns : List ℕ) (data : List UInt64), (ns.foldl (fun data n => setPosition g data (H n)) data).length = data.length
  | [], _ => rfl
  | n :: ns, data => by
    rw [List.foldl_cons, length_foldl_setPosition g H ns, length_setPosition]

/-- The hash loop of `insert` tags the positions of its hashes with `g`, and no others. -/
theorem tag_foldl_setPosition (g : ℕ) (H : ℕ → UInt32) (q b : ℕ) (hg : g < 4) (hb : b < 64) :
    ∀ (ns : List ℕ) (data : List UInt64), Shaped data →
      tag (ns.foldl (fun data n => setPosition g data (H n)) data) q b =
        if (q, b) ∈ ns.map (fun n => position data.length (H n)) then g else tag data q b
  | [], _, _ => by simp
  | n :: ns, data, hs => by
    have hs' : Shaped (setPosition g data (H n)) := hs.of_length_eq (length_setPosition _ _ _)
    rw [List.foldl_cons, tag_foldl_setPosition g H q b hg hb ns _ hs', tag_setPosition _ _ _ _ _ hs hg hb,
      length_setPosition]
    by_cases hin : (q, b) ∈ ns.map (fun n => position data.length (H n))
    · simp [hin]
    · by_cases hhere : (q, b) = position data.length (H n) <;> simp [hin, hhere]

@[simp] theorem length_wipeGeneration (g : ℕ) : ∀ data : List UInt64, (wipeGeneration g data).length = data.length
  | _ :: _ :: rest => by simp [wipeGeneration, length_wipeGeneration g rest]
  | [] | [_] => rfl

theorem tag_cons_cons (p1 p2 : UInt64) (rest : List UInt64) (q b : ℕ) :
    tag (p1 :: p2 :: rest) (q + 1) b = tag rest q b := by
  have h₁ : 2 * (q + 1) = 2 * q + 1 + 1 := by omega
  rw [tag, tag, h₁, List.getD_cons_succ, List.getD_cons_succ, List.getD_cons_succ, List.getD_cons_succ]

/-- Starting a generation wipes exactly the positions tagged with its number. -/
theorem tag_wipeGeneration (g b : ℕ) (hg : g < 4) (hb : b < 64) :
    ∀ (data : List UInt64) (q : ℕ), 2 * q + 1 < data.length →
      tag (wipeGeneration g data) q b = if tag data q b = g then 0 else tag data q b
  | p1 :: p2 :: rest, 0, _ => pairTag_wipe p1 p2 g b hg hb
  | p1 :: p2 :: rest, q + 1, hq => by
    rw [wipeGeneration, tag_cons_cons, tag_cons_cons]
    exact tag_wipeGeneration g b hg hb rest q (by simp at hq; omega)
  | [], _, hq | [_], _, hq => by simp at hq

/-- `contains` holds exactly when every position of the key is tagged. -/
theorem contains_eq_true_iff (MurmurHash3 : UInt32 → List UInt8 → UInt32) (f : CRollingBloomFilter)
    (vKey : List UInt8) :
    contains MurmurHash3 f vKey = true ↔ ∀ p ∈ positions MurmurHash3 f vKey, tag f.data p.1 p.2 ≠ 0 := by
  simp only [contains, positions, List.all_eq_true, List.forall_mem_map, position, toNat_and_not_one,
    toNat_or_one, contains_test _ _ _ (bit_lt _), toNat_bit, tag, decide_eq_true_eq]

/-! ## Generations

Generations are counted from the last `reset` on: the filter numbers
generation `G` as `G % 3 + 1`.  `Window` says which generations the keys went
in, oldest first: the last `this + d * per` of them went in at most `d`
generations ago, where `this` counts the keys of the current generation. -/

/-- The generations of the keys inserted so far, with `per` keys to a
generation, `this` in the current one, `G`. -/
structure Window (per this G : ℕ) (gens : List ℕ) : Prop where
  le : ∀ A ∈ gens, A ≤ G
  length_le : gens.length ≤ this + G * per
  recent : ∀ d j (hj : j < gens.length), gens.length ≤ j + (this + d * per) → G ≤ gens[j] + d

theorem window_nil (per : ℕ) : Window per 0 0 [] :=
  ⟨fun _ h => absurd h List.not_mem_nil, Nat.zero_le _, fun _ _ hj => absurd hj (Nat.not_lt_zero _)⟩

/-- Starting a generation when the current one is full. -/
theorem Window.start {per G : ℕ} {gens : List ℕ} (hw : Window per per G gens) : Window per 0 (G + 1) gens := by
  refine ⟨fun A hA => Nat.le_succ_of_le (hw.le A hA), ?_, ?_⟩
  · have := hw.length_le
    rw [Nat.succ_mul]
    omega
  · intro d j hj hlen
    -- the window of `d + 1` generations now is the window of `d` before
    rcases d with _ | d
    · omega
    · have := hw.recent d j hj (by rw [Nat.succ_mul] at hlen; omega)
      omega

/-- A key goes into the current generation. -/
theorem Window.push {per this G : ℕ} {gens : List ℕ} (hw : Window per this G gens) :
    Window per (this + 1) G (gens ++ [G]) := by
  refine ⟨?_, ?_, ?_⟩
  · intro A hA
    rcases List.mem_append.mp hA with hA | hA
    · exact hw.le A hA
    · rw [List.mem_singleton.mp hA]
  · have := hw.length_le
    simp only [List.length_append, List.length_singleton]
    omega
  · intro d j hj hlen
    simp only [List.length_append, List.length_singleton] at hj hlen
    rcases Nat.lt_succ_iff_lt_or_eq.mp hj with hj | rfl
    · rw [List.getElem_append_left hj]
      exact hw.recent d j hj (by omega)
    · simp

/-- The last `nElements` keys went in at most two generations ago, when two
generations hold `nElements` keys or one generation holds them all. -/
theorem Window.recent_two {per this G nElements : ℕ} {gens : List ℕ} (hw : Window per this G gens)
    (hper : per = 0 ∨ nElements ≤ 2 * per) (j : ℕ) (hj : j < gens.length) (hlast : gens.length ≤ j + nElements) :
    G ≤ gens[j] + 2 := by
  apply hw.recent 2 j hj
  rcases hper with hper | hper
  · have := hw.length_le
    rw [hper, Nat.mul_zero, Nat.add_zero] at this
    omega
  · omega

/-! ## What the filter remembers -/

theorem positions_of_eq {f f' : CRollingBloomFilter} (hlen : f'.data.length = f.data.length)
    (htweak : f'.nTweak = f.nTweak) (hfuncs : f'.nHashFuncs = f.nHashFuncs) (vKey : List UInt8) :
    positions MurmurHash3 f' vKey = positions MurmurHash3 f vKey := by
  rw [positions, positions, hlen, htweak, hfuncs]

/-- A position lies in the table: its pair is one of the table's, its bit one of 64. -/
theorem mem_positions_bound {f : CRollingBloomFilter} {vKey : List UInt8} {p : ℕ × ℕ}
    (hs : Shaped f.data) (hp : p ∈ positions MurmurHash3 f vKey) : 2 * p.1 + 1 < f.data.length ∧ p.2 < 64 := by
  obtain ⟨n, -, rfl⟩ := List.mem_map.mp hp
  have := FastMod_lt (RollingBloomHash MurmurHash3 n f.nTweak vKey) f.data.length hs.pos hs.lt
  have := hs.even
  exact ⟨by simp only [position]; omega, Nat.mod_lt _ (by decide)⟩

theorem startGeneration_data (f : CRollingBloomFilter) :
    f.startGeneration.data = wipeGeneration f.startGeneration.nGeneration f.data := rfl

/-- What the filter holds of the run since the last `reset`: `log` lists the
keys inserted, oldest first, each with the generation it went in, and `G` is
the current generation.  Each key of the last three generations has every
position still tagged, with a generation from its own on. -/
structure Remembers (f : CRollingBloomFilter) (log : List (List UInt8 × ℕ)) (G : ℕ) : Prop where
  shaped : Shaped f.data
  nGeneration_eq : f.nGeneration = G % 3 + 1
  window : Window f.nEntriesPerGeneration f.nEntriesThisGeneration G (log.map Prod.snd)
  tagged : ∀ e ∈ log, G ≤ e.2 + 2 → ∀ p ∈ positions MurmurHash3 f e.1,
    ∃ A, e.2 ≤ A ∧ A ≤ G ∧ tag f.data p.1 p.2 = A % 3 + 1

theorem remembers_reset (f : CRollingBloomFilter) (nTweak : UInt32) (hs : Shaped f.data) :
    Remembers MurmurHash3 (f.reset nTweak) [] 0 := by
  exact ⟨hs.of_length_eq (List.length_map _), rfl, window_nil _, fun _ he => absurd he List.not_mem_nil⟩

/-- Starting generation `G + 1` wipes the number of generation `G - 2`, older
than any key the invariant still covers. -/
theorem remembers_startGeneration {f : CRollingBloomFilter} {log : List (List UInt8 × ℕ)} {G : ℕ}
    (hr : Remembers MurmurHash3 f log G) (hfull : f.nEntriesThisGeneration = f.nEntriesPerGeneration) :
    Remembers MurmurHash3 f.startGeneration log (G + 1) := by
  have hlen : f.startGeneration.data.length = f.data.length := length_wipeGeneration _ _
  have hgen : f.startGeneration.nGeneration = (G + 1) % 3 + 1 := by
    have := hr.nGeneration_eq
    simp only [startGeneration]
    split_ifs <;> omega
  refine ⟨hr.shaped.of_length_eq hlen, hgen, ?_, ?_⟩
  · have hw := hr.window
    rw [hfull] at hw
    exact hw.start
  · intro e he hG p hp
    rw [positions_of_eq MurmurHash3 hlen rfl rfl] at hp
    obtain ⟨A, hA, hAG, htag⟩ := hr.tagged e he (by omega) p hp
    obtain ⟨hq, hb⟩ := mem_positions_bound MurmurHash3 hr.shaped hp
    have hne : tag f.data p.1 p.2 ≠ f.startGeneration.nGeneration := by
      rw [htag, hgen]
      omega
    refine ⟨A, hA, Nat.le_succ_of_le hAG, ?_⟩
    rw [startGeneration_data, tag_wipeGeneration _ _ (by omega) hb _ _ hq, if_neg hne, htag]

theorem addEntry_data (f : CRollingBloomFilter) (vKey : List UInt8) :
    (addEntry MurmurHash3 f vKey).data = (List.range f.nHashFuncs).foldl
      (fun data n => setPosition f.nGeneration data (RollingBloomHash MurmurHash3 n f.nTweak vKey)) f.data := rfl

/-- The new key goes into generation `G` with all its positions tagged `G`;
older keys whose positions it shares move up to `G`. -/
theorem remembers_addEntry {f : CRollingBloomFilter} {log : List (List UInt8 × ℕ)} {G : ℕ}
    (hr : Remembers MurmurHash3 f log G) (vKey : List UInt8) :
    Remembers MurmurHash3 (addEntry MurmurHash3 f vKey) (log ++ [(vKey, G)]) G := by
  have hlen : (addEntry MurmurHash3 f vKey).data.length = f.data.length := length_foldl_setPosition _ _ _ _
  have hg : f.nGeneration < 4 := by
    rw [hr.nGeneration_eq]
    omega
  have htag : ∀ p : ℕ × ℕ, p.2 < 64 → tag (addEntry MurmurHash3 f vKey).data p.1 p.2 =
      if p ∈ positions MurmurHash3 f vKey then G % 3 + 1 else tag f.data p.1 p.2 := by
    intro p hb
    rw [addEntry_data, tag_foldl_setPosition _ _ _ _ hg hb _ _ hr.shaped, hr.nGeneration_eq]
    rfl
  have hw : Window f.nEntriesPerGeneration (f.nEntriesThisGeneration + 1) G ((log ++ [(vKey, G)]).map Prod.snd) := by
    rw [List.map_append]
    exact hr.window.push
  refine ⟨hr.shaped.of_length_eq hlen, hr.nGeneration_eq, hw, ?_⟩
  · intro e he hG p hp
    rw [positions_of_eq MurmurHash3 hlen rfl rfl] at hp
    rw [htag p (mem_positions_bound MurmurHash3 hr.shaped hp).2]
    split_ifs with hin
    · exact ⟨G, hw.le e.2 (List.mem_map_of_mem he), le_refl G, rfl⟩
    · rcases List.mem_append.mp he with he | he
      · exact hr.tagged e he hG p hp
      · rw [List.mem_singleton.mp he] at hp
        exact absurd hp hin

/-- One `insert`: the key goes into the current generation, or into a new one
when the current one is full. -/
theorem remembers_insert {f : CRollingBloomFilter} {log : List (List UInt8 × ℕ)} {G : ℕ}
    (hr : Remembers MurmurHash3 f log G) (vKey : List UInt8) :
    ∃ G', Remembers MurmurHash3 (insert MurmurHash3 f vKey) (log ++ [(vKey, G')]) G' := by
  by_cases hfull : f.nEntriesThisGeneration = f.nEntriesPerGeneration
  · refine ⟨G + 1, ?_⟩
    rw [insert, if_pos hfull]
    exact remembers_addEntry MurmurHash3 (remembers_startGeneration MurmurHash3 hr hfull) vKey
  · refine ⟨G, ?_⟩
    rw [insert, if_neg hfull]
    exact remembers_addEntry MurmurHash3 hr vKey

/-- A run of inserts keeps the invariant, with one log entry per key. -/
theorem remembers_foldl_insert {f : CRollingBloomFilter} {log : List (List UInt8 × ℕ)} {G : ℕ}
    (hr : Remembers MurmurHash3 f log G) :
    ∀ keys : List (List UInt8), ∃ log' G', log'.map Prod.fst = keys ∧
      Remembers MurmurHash3 (keys.foldl (insert MurmurHash3) f) (log ++ log') G'
  | [] => ⟨[], G, rfl, by simpa using hr⟩
  | k :: keys => by
    obtain ⟨G₁, hr₁⟩ := remembers_insert MurmurHash3 hr k
    obtain ⟨log', G', hkeys, hr'⟩ := remembers_foldl_insert hr₁ keys
    refine ⟨(k, G₁) :: log', G', by simp [hkeys], ?_⟩
    simpa using hr'

@[simp] theorem insert_nEntriesPerGeneration (f : CRollingBloomFilter) (vKey : List UInt8) :
    (insert MurmurHash3 f vKey).nEntriesPerGeneration = f.nEntriesPerGeneration := by
  rw [insert]
  split_ifs <;> rfl

theorem foldl_insert_nEntriesPerGeneration :
    ∀ (keys : List (List UInt8)) (f : CRollingBloomFilter),
      (keys.foldl (insert MurmurHash3) f).nEntriesPerGeneration = f.nEntriesPerGeneration
  | [], _ => rfl
  | k :: keys, f => by
    rw [List.foldl_cons, foldl_insert_nEntriesPerGeneration keys, insert_nEntriesPerGeneration]

/-- `(nElements + 1) / 2` in `uint32_t`: two generations hold `nElements`
keys, unless the sum wraps to `0`. -/
theorem nEntriesPerGeneration_cases (nElements : UInt32) :
    ((nElements + 1) / 2).toNat = 0 ∨ nElements.toNat ≤ 2 * ((nElements + 1) / 2).toNat := by
  have := nElements.toNat_lt
  have htwo : (2 : UInt32).toNat = 2 := rfl
  simp only [UInt32.toNat_div, UInt32.toNat_add, UInt32.toNat_one, htwo]
  omega

/-- No false negatives: after a `reset` and any run of inserts, each of the
last `nElements` keys is contained, whatever was inserted before them and
however their positions overlap. -/
theorem contains_recent (f : CRollingBloomFilter) (nTweak nElements : UInt32)
    (hper : f.nEntriesPerGeneration = ((nElements + 1) / 2).toNat) (hs : Shaped f.data)
    (keys : List (List UInt8)) (k : List UInt8) (hk : k ∈ keys.drop (keys.length - nElements.toNat)) :
    contains MurmurHash3 (keys.foldl (insert MurmurHash3) (f.reset nTweak)) k = true := by
  obtain ⟨log, G, hkeys, hr⟩ :=
    remembers_foldl_insert MurmurHash3 (remembers_reset MurmurHash3 f nTweak hs) keys
  rw [List.nil_append] at hr
  -- the key's place `j` in the run, among the last `nElements`
  obtain ⟨i, hi, rfl⟩ := List.mem_iff_getElem.mp hk
  rw [List.length_drop] at hi
  have hlen : log.length = keys.length := by rw [← hkeys, List.length_map]
  have hj : keys.length - nElements.toNat + i < log.length := by omega
  have hkey : (keys.drop (keys.length - nElements.toNat))[i] = log[_ + i].1 := by
    simp only [List.getElem_drop, ← hkeys, List.getElem_map]
  -- it went in at most two generations ago
  have hper' : (keys.foldl (insert MurmurHash3) (f.reset nTweak)).nEntriesPerGeneration = 0 ∨
      nElements.toNat ≤ 2 * (keys.foldl (insert MurmurHash3) (f.reset nTweak)).nEntriesPerGeneration := by
    have hcases := nEntriesPerGeneration_cases nElements
    rw [← hper] at hcases
    rw [foldl_insert_nEntriesPerGeneration]
    exact hcases
  have hG := hr.window.recent_two hper' _ (by simpa using hj) (by simp only [List.length_map]; omega)
  rw [List.getElem_map] at hG
  -- so every one of its positions is still tagged
  rw [contains_eq_true_iff, hkey]
  intro p hp
  obtain ⟨A, -, -, htag⟩ := hr.tagged _ (List.getElem_mem hj) hG p hp
  rw [htag]
  exact Nat.succ_ne_zero _

@[simp] theorem length_insert_data (f : CRollingBloomFilter) (vKey : List UInt8) :
    (insert MurmurHash3 f vKey).data.length = f.data.length := by
  rw [insert, addEntry_data, length_foldl_setPosition]
  split_ifs
  · exact length_wipeGeneration _ _
  · rfl

@[simp] theorem insert_nHashFuncs (f : CRollingBloomFilter) (vKey : List UInt8) :
    (insert MurmurHash3 f vKey).nHashFuncs = f.nHashFuncs := by
  rw [insert]
  split_ifs <;> rfl

/-- The constructor's table is shaped when it is not empty. -/
theorem shaped_new (nElements : UInt32) (nHashRound : ℤ) (nFilterBits nTweak : UInt32)
    (hsize : 0 < (((nFilterBits + 63) / 64) <<< 1).toNat) :
    Shaped (new nElements nHashRound nFilterBits nTweak).data := by
  have hlt : ((nFilterBits + 63) / 64).toNat < 2 ^ 31 := by
    rw [UInt32.toNat_div]
    have := (nFilterBits + 63).toNat_lt
    have h64 : (64 : UInt32).toNat = 64 := rfl
    rw [h64]
    omega
  have hwords : (((nFilterBits + 63) / 64) <<< 1).toNat = 2 * ((nFilterBits + 63) / 64).toNat := by
    have hone : (1 : UInt32).toNat % 32 = 1 := rfl
    rw [UInt32.toNat_shiftLeft, hone, Nat.shiftLeft_eq, Nat.pow_one, Nat.mod_eq_of_lt (by omega)]
    omega
  have hlen : (new nElements nHashRound nFilterBits nTweak).data.length =
      (((nFilterBits + 63) / 64) <<< 1).toNat := by
    simp [new, reset]
  refine ⟨?_, ?_, ?_⟩ <;> rw [hlen] <;> omega

/-- No false negatives after construction: with a non-empty table, each of the
last `nElements` keys inserted is contained. -/
theorem contains_recent_new (nElements : UInt32) (nHashRound : ℤ) (nFilterBits nTweak : UInt32)
    (hsize : 0 < (((nFilterBits + 63) / 64) <<< 1).toNat) (keys : List (List UInt8)) (k : List UInt8)
    (hk : k ∈ keys.drop (keys.length - nElements.toNat)) :
    contains MurmurHash3 (keys.foldl (insert MurmurHash3) (new nElements nHashRound nFilterBits nTweak)) k = true :=
  contains_recent MurmurHash3 _ nTweak nElements rfl
    (by simpa [new, reset] using shaped_new nElements nHashRound nFilterBits nTweak hsize) keys k hk

theorem contains_recent_new_three :
    0 < ((((256 : UInt32) + 63) / 64) <<< 1).toNat ∧
      [2] ∈ ([[1], [2], [3], [4]] : List (List UInt8)).drop (4 - (3 : UInt32).toNat) ∧
      contains (fun s k => s + (k.headD 0).toUInt32 * 0x9E3779B9)
        (([[1], [2], [3], [4]] : List (List UInt8)).foldl
          (insert (fun s k => s + (k.headD 0).toUInt32 * 0x9E3779B9)) (new 3 2 256 5)) [2] = true :=
  ⟨by decide, by decide,
    contains_recent_new (fun s k => s + (k.headD 0).toUInt32 * 0x9E3779B9) 3 2 256 5 (by decide)
      [[1], [2], [3], [4]] [2] (by decide)⟩

/-- With two keys to a generation, the third key starts generation 2 and
the fourth wipes nothing yet: all four are still there. -/
example : ([[1], [2], [3], [4]] : List (List UInt8)).all
    (contains (fun s k => s + (k.headD 0).toUInt32 * 0x9E3779B9)
      (([[1], [2], [3], [4]] : List (List UInt8)).foldl
        (insert (fun s k => s + (k.headD 0).toUInt32 * 0x9E3779B9)) (new 3 2 256 5))) = true := by
  decide

/-- The constructor's table is empty when `nFilterBits + 63` wraps past `2^32`
or `nFilterBits` is `0`; then a key just inserted is not contained. -/
theorem contains_insert_empty_table (nElements : UInt32) (nHashRound : ℤ) (nFilterBits nTweak : UInt32)
    (hbits : (nFilterBits + 63) / 64 = 0) (vKey : List UInt8) :
    contains MurmurHash3 (insert MurmurHash3 (new nElements nHashRound nFilterBits nTweak) vKey) vKey = false := by
  have hempty : (insert MurmurHash3 (new nElements nHashRound nFilterBits nTweak) vKey).data = [] := by
    apply List.eq_nil_of_length_eq_zero
    simp [new, reset, hbits]
  have hfuncs : 0 < (insert MurmurHash3 (new nElements nHashRound nFilterBits nTweak) vKey).nHashFuncs := by
    simp [new, reset]
  rw [Bool.eq_false_iff, ne_eq, contains_eq_true_iff]
  intro hall
  -- the first hash function's position reads two missing words
  refine hall _ (List.mem_map.mpr ⟨0, List.mem_range.mpr hfuncs, rfl⟩) ?_
  rw [hempty]
  simp [tag, pairTag]

theorem contains_insert_max_elements :
    contains (fun _ _ => 0) (insert (fun _ _ => 0) (new 4294967295 7 0 0) []) [] = false :=
  contains_insert_empty_table (fun _ _ => 0) 4294967295 7 0 0 (by decide) []

/-! ## Runs of calls -/

/-- A call on the filter: `insert`, or `reset` with the tweak it draws. -/
inductive Call
  | insert (vKey : List UInt8)
  | reset (nTweak : UInt32)

/-- The filter after a call. -/
def call (f : CRollingBloomFilter) : Call → CRollingBloomFilter
  | .insert vKey => insert MurmurHash3 f vKey
  | .reset nTweak => f.reset nTweak

/-- Calls keep the generation size and the table size. -/
theorem foldl_call_keeps :
    ∀ (calls : List Call) (f : CRollingBloomFilter),
      (calls.foldl (call MurmurHash3) f).nEntriesPerGeneration = f.nEntriesPerGeneration ∧
        (calls.foldl (call MurmurHash3) f).data.length = f.data.length
  | [], _ => ⟨rfl, rfl⟩
  | .insert vKey :: calls, f => by
    obtain ⟨hper, hlen⟩ := foldl_call_keeps calls (insert MurmurHash3 f vKey)
    exact ⟨hper.trans (insert_nEntriesPerGeneration _ _ _), hlen.trans (length_insert_data _ _ _)⟩
  | .reset nTweak :: calls, f => by
    obtain ⟨hper, hlen⟩ := foldl_call_keeps calls (f.reset nTweak)
    exact ⟨hper, hlen.trans (List.length_map _)⟩

/-- No false negatives after any later `reset`: whatever calls came between
the construction and the `reset`, each of the last `nElements` keys inserted
since is contained. -/
theorem contains_recent_after_reset (nElements : UInt32) (nHashRound : ℤ) (nFilterBits nTweak : UInt32)
    (hsize : 0 < (((nFilterBits + 63) / 64) <<< 1).toNat) (calls : List Call) (nTweak' : UInt32)
    (keys : List (List UInt8)) (k : List UInt8) (hk : k ∈ keys.drop (keys.length - nElements.toNat)) :
    contains MurmurHash3 (keys.foldl (insert MurmurHash3)
      ((calls.foldl (call MurmurHash3) (new nElements nHashRound nFilterBits nTweak)).reset nTweak')) k = true := by
  obtain ⟨hper, hlen⟩ := foldl_call_keeps MurmurHash3 calls (new nElements nHashRound nFilterBits nTweak)
  exact contains_recent MurmurHash3 _ nTweak' nElements hper
    ((shaped_new nElements nHashRound nFilterBits nTweak hsize).of_length_eq hlen) keys k hk

theorem contains_recent_after_reset_insert_reset :
    0 < ((((256 : UInt32) + 63) / 64) <<< 1).toNat ∧
      [2] ∈ ([[2]] : List (List UInt8)).drop (1 - (3 : UInt32).toNat) ∧
      contains (fun s k => s + (k.headD 0).toUInt32 * 0x9E3779B9)
        (([[2]] : List (List UInt8)).foldl (insert (fun s k => s + (k.headD 0).toUInt32 * 0x9E3779B9))
          ((([.insert [1], .reset 7] : List Call).foldl
            (call (fun s k => s + (k.headD 0).toUInt32 * 0x9E3779B9)) (new 3 2 256 5)).reset 9)) [2] = true :=
  ⟨by decide, by decide,
    contains_recent_after_reset (fun s k => s + (k.headD 0).toUInt32 * 0x9E3779B9) 3 2 256 5 (by decide)
      [.insert [1], .reset 7] 9 [[2]] [2] (by decide)⟩

end CRollingBloomFilter

end XPChain
