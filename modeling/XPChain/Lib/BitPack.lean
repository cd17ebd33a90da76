import Mathlib.Data.Nat.Bitwise
import Mathlib.Data.UInt

/-!
# Flags packed eight to a byte

A list of flags is stored as bytes, least significant bit first: flag `p`
is bit `p % 8` of byte `p / 8`.  The writer clears `(n + 7) / 8` bytes and
ORs each flag into its bit; the reader tests every bit of every byte, so it
reads back the flags followed by the padding of the last byte.

## Main definitions

* `BitPack.testByte`, `BitPack.orBit` — one bit of a byte read and set.
* `BitPack.pack`, `BitPack.unpack`.

## Main statements

* `testByte_orBit` — setting one bit leaves the others.
* `testByte_pack` — which flag each bit of the packed bytes holds.
* `unpack_pack` — the round trip, up to the padding.
-/

set_option autoImplicit false

namespace BitPack

/-- Bit `k` of the byte `b`, read as `(b & (1 << k)) != 0`. -/
def testByte (b : UInt8) (k : ℕ) : Bool := b &&& 1 <<< k.toUInt8 != 0

/-- The flag `f` ORed into bit `k` of the byte `b`: `b |= f << k`. -/
def orBit (b : UInt8) (f : Bool) (k : ℕ) : UInt8 := b ||| (if f then 1 else 0) <<< k.toUInt8

/-- One pass of the packing loop: `bytes[p / 8] |= flags[p] << (p % 8)`. -/
def packStep (flags : List Bool) (bytes : List UInt8) (p : ℕ) : List UInt8 :=
  bytes.modify (p / 8) fun b => orBit b (flags.getD p false) (p % 8)

/-- The flags packed eight to a byte, least significant bit first. -/
def pack (flags : List Bool) : List UInt8 :=
  (List.range flags.length).foldl (packStep flags) (List.replicate ((flags.length + 7) / 8) 0)

/-- Eight flags read from each byte: flag `p` is bit `p % 8` of byte `p / 8`. -/
def unpack (bytes : List UInt8) : List Bool :=
  (List.range (bytes.length * 8)).map fun p => testByte (bytes.getD (p / 8) 0) (p % 8)

/-! ## One byte -/

theorem toNat_toUInt8_mod_eight {k : ℕ} (hk : k < 8) : k.toUInt8.toNat % 8 = k := by
  simp [Nat.toUInt8_eq]
  omega

theorem toNat_one_shiftLeft {k : ℕ} (hk : k < 8) : ((1 : UInt8) <<< k.toUInt8).toNat = 2 ^ k := by
  rw [UInt8.toNat_shiftLeft, UInt8.toNat_one, toNat_toUInt8_mod_eight hk, Nat.one_shiftLeft]
  exact Nat.mod_eq_of_lt (Nat.pow_lt_pow_right (by decide : 1 < 2) hk)

theorem and_two_pow_ne_zero (x k : ℕ) : x &&& 2 ^ k ≠ 0 ↔ x.testBit k = true := by
  constructor
  · intro h
    by_contra hb
    apply h
    apply Nat.eq_of_testBit_eq
    intro i
    simp only [Nat.testBit_and, Nat.testBit_two_pow, Nat.zero_testBit]
    by_cases hi : k = i
    · subst hi
      simpa using hb
    · simp [hi]
  · intro h h0
    have := congrArg (Nat.testBit · k) h0
    simp [Nat.testBit_and, h] at this

theorem testByte_eq_testBit (b : UInt8) {k : ℕ} (hk : k < 8) : testByte b k = b.toNat.testBit k := by
  rw [Bool.eq_iff_iff, testByte, bne_iff_ne, ne_eq, ← UInt8.toNat_inj, UInt8.toNat_and, toNat_one_shiftLeft hk]
  exact and_two_pow_ne_zero b.toNat k

theorem toNat_orBit {b : UInt8} {f : Bool} {k : ℕ} (hk : k < 8) :
    (orBit b f k).toNat = b.toNat ||| (if f then 2 ^ k else 0) := by
  cases f <;> simp [orBit, UInt8.toNat_or, toNat_one_shiftLeft hk]

theorem testByte_orBit (b : UInt8) (f : Bool) {k j : ℕ} (hk : k < 8) (hj : j < 8) :
    testByte (orBit b f k) j = (testByte b j || f && decide (k = j)) := by
  rw [testByte_eq_testBit _ hj, testByte_eq_testBit _ hj, toNat_orBit hk, Nat.testBit_or]
  cases f <;> simp [Nat.testBit_two_pow]

/-! ## The packing loop -/

@[simp] theorem length_packStep (flags : List Bool) (bytes : List UInt8) (p : ℕ) :
    (packStep flags bytes p).length = bytes.length :=
  List.length_modify _ _ _

theorem getD_packStep (flags : List Bool) (bytes : List UInt8) (p i : ℕ) :
    (packStep flags bytes p).getD i 0 =
      if p / 8 = i ∧ i < bytes.length then orBit (bytes.getD i 0) (flags.getD p false) (p % 8)
      else bytes.getD i 0 := by
  rw [List.getD_eq_getElem?_getD, List.getD_eq_getElem?_getD, packStep, List.getElem?_modify]
  by_cases hi : i < bytes.length
  · rw [List.getElem?_eq_getElem hi]
    by_cases hp : p / 8 = i <;> simp [hp, hi]
  · rw [List.getElem?_eq_none (by omega)]
    simp [hi]

theorem length_foldl_packStep (flags : List Bool) (bytes₀ : List UInt8) (m : ℕ) :
    ((List.range m).foldl (packStep flags) bytes₀).length = bytes₀.length := by
  induction m with
  | zero => rfl
  | succ m ih => rw [List.range_succ, List.foldl_append, List.foldl_cons, List.foldl_nil, length_packStep, ih]

@[simp] theorem testByte_zero (k : ℕ) : testByte 0 k = false := by
  simp [testByte]

/-- After `m` passes, the bits set are those of the first `m` flags. -/
theorem testByte_foldl_packStep (flags : List Bool) (bytes₀ : List UInt8) (h₀ : ∀ i, bytes₀.getD i 0 = 0)
    (q : ℕ) (hq : q / 8 < bytes₀.length) :
    ∀ m, testByte (((List.range m).foldl (packStep flags) bytes₀).getD (q / 8) 0) (q % 8) =
      (decide (q < m) && flags.getD q false)
  | 0 => by rw [List.range_zero, List.foldl_nil, h₀, testByte_zero]; simp
  | m + 1 => by
    have hlen : ((List.range m).foldl (packStep flags) bytes₀).length = bytes₀.length :=
      length_foldl_packStep flags bytes₀ m
    rw [List.range_succ, List.foldl_append, List.foldl_cons, List.foldl_nil, getD_packStep, hlen]
    by_cases hm : m / 8 = q / 8
    · rw [if_pos ⟨hm, hq⟩, testByte_orBit _ _ (Nat.mod_lt _ (by decide)) (Nat.mod_lt _ (by decide)),
        testByte_foldl_packStep flags bytes₀ h₀ q hq m]
      -- the pass sets bit `m % 8` of the byte, which is bit `q % 8` only for `q = m`
      by_cases hqm : q = m
      · subst hqm
        simp
      · have hmod : m % 8 ≠ q % 8 := by omega
        have hlt : q < m + 1 ↔ q < m := by omega
        simp [hmod, hlt]
    · rw [if_neg (fun h => hm h.1), testByte_foldl_packStep flags bytes₀ h₀ q hq m]
      have hlt : q < m + 1 ↔ q < m := by
        have hqm : q ≠ m := fun h => hm (h ▸ rfl)
        omega
      simp [hlt]

theorem length_pack (flags : List Bool) : (pack flags).length = (flags.length + 7) / 8 := by
  rw [pack, length_foldl_packStep, List.length_replicate]

/-- Flag `p` read from the packed bytes is flag `p` of the list, `false`
past its end. -/
theorem testByte_pack (flags : List Bool) {p : ℕ} (hp : p / 8 < (pack flags).length) :
    testByte ((pack flags).getD (p / 8) 0) (p % 8) = flags.getD p false := by
  have hzero : ∀ i, (List.replicate ((flags.length + 7) / 8) (0 : UInt8)).getD i 0 = 0 := by
    intro i
    simp
  rw [length_pack] at hp
  rw [pack, testByte_foldl_packStep flags _ hzero p (by rwa [List.length_replicate])]
  by_cases hlt : p < flags.length
  · simp [hlt]
  · simp [hlt]

/-- Packing then reading back gives the flags, padded with `false` to a
whole number of bytes. -/
theorem unpack_pack (flags : List Bool) :
    unpack (pack flags) = flags ++ List.replicate ((flags.length + 7) / 8 * 8 - flags.length) false := by
  apply List.ext_getElem
  · simp only [unpack, List.length_map, List.length_range, length_pack, List.length_append,
      List.length_replicate]
    omega
  · intro p h₁ h₂
    have hp : p / 8 < (pack flags).length := by
      simp only [unpack, List.length_map, List.length_range] at h₁
      omega
    simp only [unpack, List.getElem_map, List.getElem_range]
    rw [testByte_pack flags hp]
    by_cases hlt : p < flags.length
    · rw [List.getElem_append_left hlt, List.getD_eq_getElem _ _ hlt]
    · rw [List.getElem_append_right (Nat.le_of_not_lt hlt), List.getElem_replicate,
        List.getD_eq_default _ _ (Nat.le_of_not_lt hlt)]

end BitPack
