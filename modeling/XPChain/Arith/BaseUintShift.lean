import XPChain.Arith.BaseUint

/-!
# Shifts and division of fixed-width integers

`operator<<=`, `operator>>=` and `operator/=` of `base_uint<BITS>` in
`arith_uint256.cpp`.  A shift ORs each limb of the old value, cut at the bit
shift, into the two result limbs it straddles; after the loop every result limb
is the OR of two pieces, and the value is read off bit by bit through
`Limbs.testBit_value`.  Division is shift-and-subtract: the divisor is aligned
under the dividend's top bit and walked back down a bit a pass.

## Main definitions

* `shiftLeft`, `shiftRight` — `operator<<=` and `operator>>=`.
* `setBit`, `divLoop`, `div` — `operator/=`, which throws on a zero divisor.

## Main statements

* `toNat_shiftLeft`, `toNat_shiftRight` — the shifts on the value.
* `toNat_div`, `div_eq_error` — the quotient rounded down, and the throw.
-/

set_option autoImplicit false

namespace BaseUint

open Limbs

variable {WIDTH : ℕ}

/-! ## Bits of a shifted limb -/

theorem testBit_shiftLeft_limb (x : UInt32) {s : ℕ} (hs : s < 32) (b : ℕ) :
    (x <<< UInt32.ofNat s).toNat.testBit b = (decide (b < 32) && (decide (b ≥ s) && x.toNat.testBit (b - s))) := by
  rw [UInt32.toNat_shiftLeft, UInt32.toNat_ofNat_of_lt' (lt_trans hs (by decide)), Nat.mod_eq_of_lt hs,
    Nat.testBit_mod_two_pow, Nat.testBit_shiftLeft]

theorem testBit_shiftRight_limb (x : UInt32) {s : ℕ} (hs : s < 32) (b : ℕ) :
    (x >>> UInt32.ofNat s).toNat.testBit b = x.toNat.testBit (s + b) := by
  rw [UInt32.toNat_shiftRight, UInt32.toNat_ofNat_of_lt' (lt_trans hs (by decide)), Nat.mod_eq_of_lt hs,
    Nat.testBit_shiftRight]

/-- A limb has no bit from `32` on. -/
theorem testBit_limb_of_ge (x : UInt32) {b : ℕ} (hb : 32 ≤ b) : x.toNat.testBit b = false :=
  Nat.testBit_lt_two_pow (lt_of_lt_of_le x.toNat_lt (Nat.pow_le_pow_right (by norm_num) hb))

/-! ## Left shift -/

/-- Pass `i` of the loop of `operator<<=`: limb `i` of the old value `a`, moved
up by `k` limbs and `s` bits, ORed into the two limbs it straddles. -/
def shiftLeftStep (WIDTH : ℕ) (a : List UInt32) (k s : ℕ) (pn : List UInt32) (i : ℕ) : List UInt32 :=
  let pn :=
    if i + k + 1 < WIDTH ∧ s ≠ 0 then pn.modify (i + k + 1) (· ||| a.getD i 0 >>> UInt32.ofNat (32 - s)) else pn
  if i + k < WIDTH then pn.modify (i + k) (· ||| a.getD i 0 <<< UInt32.ofNat s) else pn

theorem length_shiftLeftStep (a : List UInt32) (k s : ℕ) (pn : List UInt32) (i : ℕ) :
    (shiftLeftStep WIDTH a k s pn i).length = pn.length := by
  simp only [shiftLeftStep]
  split_ifs <;> simp

/-- What a pass does to each limb. -/
theorem getD_shiftLeftStep (a : List UInt32) (k s : ℕ) {pn : List UInt32} (hlen : pn.length = WIDTH) (i m : ℕ) :
    (shiftLeftStep WIDTH a k s pn i).getD m 0 =
      if m = i + k + 1 ∧ m < WIDTH ∧ s ≠ 0 then pn.getD m 0 ||| a.getD i 0 >>> UInt32.ofNat (32 - s)
      else if m = i + k ∧ m < WIDTH then pn.getD m 0 ||| a.getD i 0 <<< UInt32.ofNat s
      else pn.getD m 0 := by
  simp only [shiftLeftStep]
  split_ifs <;>
    (try rw [getD_modify_or _ (by simp [hlen]; omega)]) <;> (try rw [getD_modify_or _ (by simp [hlen]; omega)]) <;>
    (try split_ifs) <;> first | rfl | omega

theorem length_shiftLeftLoop (a : List UInt32) (k s : ℕ) (l : List ℕ) :
    (l.foldl (shiftLeftStep WIDTH a k s) (List.replicate WIDTH 0)).length = WIDTH := by
  apply List.foldlRecOn (motive := fun pn : List UInt32 => pn.length = WIDTH) _ _ (by rw [List.length_replicate])
  intro pn hpn i _
  rw [length_shiftLeftStep, hpn]

/-- Limb `m` after the first `n` passes: the top of old limb `m - k - 1` and the
bottom of old limb `m - k`, each once its pass has run. -/
def shiftLeftLimb (a : List UInt32) (k s n m : ℕ) : UInt32 :=
  (if s ≠ 0 ∧ k + 1 ≤ m ∧ m < n + k + 1 then a.getD (m - k - 1) 0 >>> UInt32.ofNat (32 - s) else 0) |||
    (if k ≤ m ∧ m < n + k then a.getD (m - k) 0 <<< UInt32.ofNat s else 0)

theorem getD_shiftLeftLoop (a : List UInt32) (k s : ℕ) {n : ℕ} (hn : n ≤ WIDTH) {m : ℕ} (hm : m < WIDTH) :
    ((List.range n).foldl (shiftLeftStep WIDTH a k s) (List.replicate WIDTH 0)).getD m 0 =
      shiftLeftLimb a k s n m := by
  induction n with
  | zero =>
    rw [List.range_zero, List.foldl_nil, getD_replicate_zero, shiftLeftLimb, if_neg (by omega), if_neg (by omega)]
    rfl
  | succ n ih =>
    rw [List.range_succ, List.foldl_append, List.foldl_cons, List.foldl_nil,
      getD_shiftLeftStep a k s (length_shiftLeftLoop a k s _),
      ih (by omega)]
    -- pass `n` completes limb `n + k + 1` from below and limb `n + k` from above
    rcases (show m = n + k ∨ m = n + k + 1 ∨ (m ≠ n + k ∧ m ≠ n + k + 1) by omega) with rfl | rfl | ⟨h1, h2⟩
    · simp only [shiftLeftLimb, true_and, Nat.add_sub_cancel]
      split_ifs <;> first | rfl | omega | simp
    · simp only [shiftLeftLimb, true_and, show n + k + 1 - k - 1 = n by omega]
      split_ifs <;> first | rfl | omega | simp
    · simp only [shiftLeftLimb]
      split_ifs <;> first | rfl | omega

/-- `operator<<=(shift)`: whole limbs `k = shift / 32`, then the bits
`shift % 32`, into a value cleared first. -/
def shiftLeft (a : BaseUint WIDTH) (shift : ℕ) : BaseUint WIDTH :=
  ⟨(List.range WIDTH).foldl (shiftLeftStep WIDTH a.pn (shift / 32) (shift % 32)) (List.replicate WIDTH 0),
    length_shiftLeftLoop _ _ _ _⟩

theorem toNat_shiftLeft (a : BaseUint WIDTH) (shift : ℕ) :
    (a.shiftLeft shift).toNat = a.toNat * 2 ^ shift % 2 ^ (32 * WIDTH) := by
  apply Nat.eq_of_testBit_eq
  intro n
  rw [← Nat.shiftLeft_eq, Nat.testBit_mod_two_pow, Nat.testBit_shiftLeft, toNat, toNat, testBit_value,
    testBit_value]
  by_cases hn : n < 32 * WIDTH
  swap
  · -- past the width there is no limb, and the product is reduced
    rw [List.getD_eq_default _ _ (by rw [(a.shiftLeft shift).length_pn]; omega)]
    simp [hn]
  have hlimb : (a.shiftLeft shift).pn.getD (n / 32) 0 = shiftLeftLimb a.pn (shift / 32) (shift % 32) WIDTH (n / 32) :=
    getD_shiftLeftLoop _ _ _ le_rfl (by omega)
  have hs : shift % 32 < 32 := Nat.mod_lt _ (by norm_num)
  have hb32 : n % 32 < 32 := Nat.mod_lt _ (by norm_num)
  rw [hlimb, shiftLeftLimb, UInt32.toNat_or, Nat.testBit_or, decide_eq_true hn, Bool.true_and]
  by_cases hb : shift % 32 ≤ n % 32
  · -- the bit comes from old limb `n / 32 - k`, moved up by `shift % 32`
    have hlo : (if shift % 32 ≠ 0 ∧ shift / 32 + 1 ≤ n / 32 ∧ n / 32 < WIDTH + shift / 32 + 1 then
        a.pn.getD (n / 32 - shift / 32 - 1) 0 >>> UInt32.ofNat (32 - shift % 32) else 0).toNat.testBit (n % 32) =
        false := by
      split_ifs
      · rw [testBit_shiftRight_limb _ (by omega), testBit_limb_of_ge _ (by omega)]
      · simp
    rw [hlo, Bool.false_or]
    by_cases hk : shift / 32 ≤ n / 32
    · rw [if_pos ⟨hk, by omega⟩, testBit_shiftLeft_limb _ hs, decide_eq_true hb32, decide_eq_true hb,
        decide_eq_true (show n ≥ shift by omega), show (n - shift) / 32 = n / 32 - shift / 32 by omega,
        show (n - shift) % 32 = n % 32 - shift % 32 by omega]
      simp
    · rw [if_neg (by omega), decide_eq_false (show ¬n ≥ shift by omega)]
      simp
  · -- the bit comes from the top of old limb `n / 32 - k - 1`
    have hhi : (if shift / 32 ≤ n / 32 ∧ n / 32 < WIDTH + shift / 32 then
        a.pn.getD (n / 32 - shift / 32) 0 <<< UInt32.ofNat (shift % 32) else 0).toNat.testBit (n % 32) = false := by
      split_ifs
      · rw [testBit_shiftLeft_limb _ hs, decide_eq_false (show ¬n % 32 ≥ shift % 32 by omega)]
        simp
      · simp
    rw [hhi, Bool.or_false]
    by_cases hk : shift / 32 + 1 ≤ n / 32
    · rw [if_pos ⟨by omega, hk, by omega⟩, testBit_shiftRight_limb _ (by omega),
        decide_eq_true (show n ≥ shift by omega), show (n - shift) / 32 = n / 32 - shift / 32 - 1 by omega,
        show (n - shift) % 32 = 32 - shift % 32 + n % 32 by omega]
      simp
    · rw [if_neg (by omega), decide_eq_false (show ¬n ≥ shift by omega)]
      simp

/-! ## Right shift -/

/-- Pass `i` of the loop of `operator>>=`: limb `i` of the old value `a`, moved
down by `k` limbs and `s` bits, ORed into the two limbs it straddles (the
source's `i - k - 1 >= 0` and `i - k >= 0` on signed indices). -/
def shiftRightStep (a : List UInt32) (k s : ℕ) (pn : List UInt32) (i : ℕ) : List UInt32 :=
  let pn := if k + 1 ≤ i ∧ s ≠ 0 then pn.modify (i - k - 1) (· ||| a.getD i 0 <<< UInt32.ofNat (32 - s)) else pn
  if k ≤ i then pn.modify (i - k) (· ||| a.getD i 0 >>> UInt32.ofNat s) else pn

theorem length_shiftRightStep (a : List UInt32) (k s : ℕ) (pn : List UInt32) (i : ℕ) :
    (shiftRightStep a k s pn i).length = pn.length := by
  simp only [shiftRightStep]
  split_ifs <;> simp

theorem length_shiftRightLoop (a : List UInt32) (k s : ℕ) (l : List ℕ) :
    (l.foldl (shiftRightStep a k s) (List.replicate WIDTH 0)).length = WIDTH := by
  apply List.foldlRecOn (motive := fun pn : List UInt32 => pn.length = WIDTH) _ _ (by rw [List.length_replicate])
  intro pn hpn i _
  rw [length_shiftRightStep, hpn]

/-- What a pass does to each limb. -/
theorem getD_shiftRightStep (a : List UInt32) (k s : ℕ) {pn : List UInt32} (hlen : pn.length = WIDTH) {i : ℕ}
    (hi : i < WIDTH) (m : ℕ) :
    (shiftRightStep a k s pn i).getD m 0 =
      if m + k + 1 = i ∧ s ≠ 0 then pn.getD m 0 ||| a.getD i 0 <<< UInt32.ofNat (32 - s)
      else if m + k = i then pn.getD m 0 ||| a.getD i 0 >>> UInt32.ofNat s
      else pn.getD m 0 := by
  simp only [shiftRightStep]
  split_ifs <;>
    (try rw [getD_modify_or _ (by simp [hlen]; omega)]) <;> (try rw [getD_modify_or _ (by simp [hlen]; omega)]) <;>
    (try split_ifs) <;> first | rfl | omega

/-- Limb `m` after the first `n` passes: the top of old limb `m + k`, shifted
down, and the bottom of old limb `m + k + 1`, each once its pass has run. -/
def shiftRightLimb (a : List UInt32) (k s n m : ℕ) : UInt32 :=
  (if m + k < n then a.getD (m + k) 0 >>> UInt32.ofNat s else 0) |||
    (if s ≠ 0 ∧ m + k + 1 < n then a.getD (m + k + 1) 0 <<< UInt32.ofNat (32 - s) else 0)

theorem getD_shiftRightLoop (a : List UInt32) (k s : ℕ) {n : ℕ} (hn : n ≤ WIDTH) (m : ℕ) :
    ((List.range n).foldl (shiftRightStep a k s) (List.replicate WIDTH 0)).getD m 0 =
      shiftRightLimb a k s n m := by
  induction n with
  | zero =>
    rw [List.range_zero, List.foldl_nil, getD_replicate_zero, shiftRightLimb, if_neg (by omega), if_neg (by omega)]
    rfl
  | succ n ih =>
    rw [List.range_succ, List.foldl_append, List.foldl_cons, List.foldl_nil,
      getD_shiftRightStep a k s (length_shiftRightLoop a k s _) (by omega), ih (by omega)]
    -- pass `n` completes limb `n - k` from above and limb `n - k - 1` from below
    rcases (show n = m + k ∨ n = m + k + 1 ∨ (n ≠ m + k ∧ n ≠ m + k + 1) by omega) with rfl | rfl | ⟨h1, h2⟩
    · simp only [shiftRightLimb]
      split_ifs <;> first | rfl | omega | simp
    · simp only [shiftRightLimb, true_and]
      split_ifs <;> first | rfl | omega | simp
    · simp only [shiftRightLimb]
      split_ifs <;> first | rfl | omega

/-- `operator>>=(shift)`: whole limbs `k = shift / 32`, then the bits
`shift % 32`, into a value cleared first. -/
def shiftRight (a : BaseUint WIDTH) (shift : ℕ) : BaseUint WIDTH :=
  ⟨(List.range WIDTH).foldl (shiftRightStep a.pn (shift / 32) (shift % 32)) (List.replicate WIDTH 0),
    length_shiftRightLoop _ _ _ _⟩

theorem toNat_shiftRight (a : BaseUint WIDTH) (shift : ℕ) : (a.shiftRight shift).toNat = a.toNat / 2 ^ shift := by
  apply Nat.eq_of_testBit_eq
  intro n
  rw [← Nat.shiftRight_eq_div_pow, Nat.testBit_shiftRight, toNat, toNat, testBit_value, testBit_value]
  by_cases hn : n < 32 * WIDTH
  swap
  · -- past the width there is no limb, in the result or in `a` above the shift
    rw [List.getD_eq_default _ _ (by rw [(a.shiftRight shift).length_pn]; omega),
      List.getD_eq_default _ _ (by rw [a.length_pn]; omega)]
    simp
  have hlimb : (a.shiftRight shift).pn.getD (n / 32) 0 =
      shiftRightLimb a.pn (shift / 32) (shift % 32) WIDTH (n / 32) :=
    getD_shiftRightLoop _ _ _ le_rfl _
  have hs : shift % 32 < 32 := Nat.mod_lt _ (by norm_num)
  have hb32 : n % 32 < 32 := Nat.mod_lt _ (by norm_num)
  rw [hlimb, shiftRightLimb, UInt32.toNat_or, Nat.testBit_or]
  by_cases hb : n % 32 + shift % 32 < 32
  · -- the bit comes from old limb `n / 32 + k`, moved down by `shift % 32`
    have hhi : (if shift % 32 ≠ 0 ∧ n / 32 + shift / 32 + 1 < WIDTH then
        a.pn.getD (n / 32 + shift / 32 + 1) 0 <<< UInt32.ofNat (32 - shift % 32) else 0).toNat.testBit (n % 32) =
        false := by
      split_ifs
      · rw [testBit_shiftLeft_limb _ (by omega), decide_eq_false (show ¬n % 32 ≥ 32 - shift % 32 by omega)]
        simp
      · simp
    rw [hhi, Bool.or_false, show (shift + n) / 32 = n / 32 + shift / 32 by omega,
      show (shift + n) % 32 = shift % 32 + n % 32 by omega]
    by_cases hk : n / 32 + shift / 32 < WIDTH
    · rw [if_pos hk, testBit_shiftRight_limb _ hs]
    · rw [if_neg hk, List.getD_eq_default _ _ (by rw [a.length_pn]; omega)]
      simp
  · -- the bit comes from the bottom of old limb `n / 32 + k + 1`
    have hlo : (if n / 32 + shift / 32 < WIDTH then
        a.pn.getD (n / 32 + shift / 32) 0 >>> UInt32.ofNat (shift % 32) else 0).toNat.testBit (n % 32) = false := by
      split_ifs
      · rw [testBit_shiftRight_limb _ hs, testBit_limb_of_ge _ (by omega)]
      · simp
    rw [hlo, Bool.false_or, show (shift + n) / 32 = n / 32 + shift / 32 + 1 by omega,
      show (shift + n) % 32 = n % 32 - (32 - shift % 32) by omega]
    by_cases hk : n / 32 + shift / 32 + 1 < WIDTH
    · rw [if_pos ⟨by omega, hk⟩, testBit_shiftLeft_limb _ (by omega), decide_eq_true hb32,
        decide_eq_true (show n % 32 ≥ 32 - shift % 32 by omega)]
      simp
    · rw [if_neg (by omega), List.getD_eq_default _ _ (by rw [a.length_pn]; omega)]
      simp

/-! ## Division -/

/-- `pn[shift / 32] |= (1 << (shift & 31))`: bit `shift` of the quotient set. -/
def setBit (q : BaseUint WIDTH) (shift : ℕ) : BaseUint WIDTH :=
  ⟨q.pn.modify (shift / 32) (· ||| 1 <<< UInt32.ofNat (shift &&& 31)), by rw [List.length_modify, q.length_pn]⟩

theorem toNat_setBit (q : BaseUint WIDTH) {shift : ℕ} (hs : shift < 32 * WIDTH) :
    (q.setBit shift).toNat = q.toNat ||| 2 ^ shift := by
  have hand : shift &&& 31 = shift % 32 := Nat.and_two_pow_sub_one_eq_mod shift 5
  apply Nat.eq_of_testBit_eq
  intro n
  dsimp only [setBit, toNat]
  rw [testBit_value, Nat.testBit_or, testBit_value, Nat.testBit_two_pow,
    getD_modify_or _ (by rw [q.length_pn]; omega)]
  split_ifs with h
  · rw [UInt32.toNat_or, Nat.testBit_or, hand, toNat_one_shiftLeft (Nat.mod_lt _ (by norm_num)),
      Nat.testBit_two_pow]
    congr 1
    simp only [decide_eq_decide]
    omega
  · rw [decide_eq_false (by omega), Bool.or_false]

/-- The state of the loop of `operator/=`: the quotient `*this`, the remainder
`num` and the shifted divisor `div`. -/
structure DivState (WIDTH : ℕ) where
  q : BaseUint WIDTH
  num : BaseUint WIDTH
  div : BaseUint WIDTH

/-- One pass of the loop of `operator/=` at bit `shift`: where the aligned
divisor fits, it is subtracted and the bit set; the divisor then moves down a
bit. -/
def DivState.step (st : DivState WIDTH) (shift : ℕ) : DivState WIDTH :=
  if st.num.ge st.div then ⟨st.q.setBit shift, st.num.sub st.div, st.div.shiftRight 1⟩
  else ⟨st.q, st.num, st.div.shiftRight 1⟩

/-- `while (shift >= 0) { …; shift--; }`: the passes at `shift`, `shift - 1`,
…, `0`. -/
def divLoop : ℕ → DivState WIDTH → DivState WIDTH
  | 0, st => st.step 0
  | shift + 1, st => divLoop shift (st.step (shift + 1))

/-- `operator/=`: throws `uint_error("Division by zero")` when `b` is zero, and
otherwise aligns `b` under the top bit of `a` and runs the loop. -/
def div (a b : BaseUint WIDTH) : Except String (BaseUint WIDTH) :=
  let numBits := a.bits
  let divBits := b.bits
  if divBits = 0 then .error "Division by zero"
  else if divBits > numBits then .ok zero
  else
    let shift := numBits - divBits
    .ok (divLoop shift ⟨zero, a, b.shiftLeft shift⟩).q

section DivInv

variable (a b : ℕ)

/-- The loop invariant before the pass at bit `shift`: the divisor sits at
`b * 2 ^ shift`, `a = q * b + num` with `num` below twice that, and the bits
of `q` from `shift` down are still clear. -/
structure DivInv (shift : ℕ) (st : DivState WIDTH) : Prop where
  div_eq : st.div.toNat = b * 2 ^ shift
  decomp : a = st.q.toNat * b + st.num.toNat
  num_lt : st.num.toNat < b * 2 ^ (shift + 1)
  dvd_q : 2 ^ (shift + 1) ∣ st.q.toNat
  shift_lt : shift < 32 * WIDTH

variable {a b}

/-- What the pass at bit `shift` leaves: `num` is now below `b * 2 ^ shift`. -/
theorem DivInv.step {shift : ℕ} {st : DivState WIDTH} (h : DivInv a b shift st) :
    (st.step shift).div.toNat = b * 2 ^ shift / 2 ∧
      a = (st.step shift).q.toNat * b + (st.step shift).num.toNat ∧
      (st.step shift).num.toNat < b * 2 ^ shift ∧ 2 ^ shift ∣ (st.step shift).q.toNat := by
  have hdvd : 2 ^ shift ∣ st.q.toNat := Nat.dvd_trans (Nat.pow_dvd_pow 2 (Nat.le_succ shift)) h.dvd_q
  have hpow : b * 2 ^ (shift + 1) = b * 2 ^ shift + b * 2 ^ shift := by rw [Nat.pow_succ]; ring
  rw [DivState.step]
  split_ifs with hge
  · -- the divisor fits: `num -= div` and bit `shift` is set
    rw [ge_iff, h.div_eq] at hge
    obtain ⟨Q, hQ⟩ := h.dvd_q
    have hnum := st.num.toNat_lt
    have hlt := h.num_lt
    rw [hpow] at hlt
    have hor : st.q.toNat ||| 2 ^ shift = st.q.toNat + 2 ^ shift := by
      rw [hQ, ← Nat.two_pow_add_eq_or_of_lt (Nat.pow_lt_pow_right (by norm_num) (Nat.lt_succ_self shift))]
    have hsub : (st.num.sub st.div).toNat = st.num.toNat - b * 2 ^ shift := by
      rw [toNat_sub, h.div_eq, show st.num.toNat + 2 ^ (32 * WIDTH) - b * 2 ^ shift =
        st.num.toNat - b * 2 ^ shift + 2 ^ (32 * WIDTH) by omega, Nat.add_mod_right, Nat.mod_eq_of_lt (by omega)]
    refine ⟨?_, ?_, ?_, ?_⟩
    · rw [toNat_shiftRight, h.div_eq, Nat.pow_one]
    · rw [toNat_setBit _ h.shift_lt, hor, hsub, h.decomp, Nat.add_mul, Nat.mul_comm (2 ^ shift) b]
      omega
    · rw [hsub]
      omega
    · rw [toNat_setBit _ h.shift_lt, hor]
      exact Nat.dvd_add hdvd (Nat.dvd_refl _)
  · rw [ge_iff, h.div_eq, not_le] at hge
    exact ⟨by rw [toNat_shiftRight, h.div_eq, Nat.pow_one], h.decomp, hge, hdvd⟩

/-- A pass at bit `shift + 1` leaves the invariant for bit `shift`. -/
theorem DivInv.step_succ {shift : ℕ} {st : DivState WIDTH} (h : DivInv a b (shift + 1) st) :
    DivInv a b shift (st.step (shift + 1)) := by
  obtain ⟨hdiv, hdecomp, hnum, hdvd⟩ := h.step
  refine ⟨?_, hdecomp, hnum, hdvd, by have := h.shift_lt; omega⟩
  rw [hdiv, Nat.pow_succ, ← Nat.mul_assoc, Nat.mul_div_cancel _ (by norm_num)]

/-- The loop ends with `a = q * b + num` and `num < b`. -/
theorem DivInv.divLoop {shift : ℕ} {st : DivState WIDTH} (h : DivInv a b shift st) :
    a = (divLoop shift st).q.toNat * b + (divLoop shift st).num.toNat ∧ (divLoop shift st).num.toNat < b := by
  induction shift generalizing st with
  | zero =>
    obtain ⟨-, hdecomp, hnum, -⟩ := h.step
    rw [Nat.pow_zero, Nat.mul_one] at hnum
    exact ⟨hdecomp, hnum⟩
  | succ shift ih => exact ih h.step_succ

end DivInv

theorem bits_eq_size (a : BaseUint WIDTH) : a.bits = a.toNat.size := by
  rw [bits_eq, ArithUint256.bits_eq_size]

/-- The state `operator/=` enters its loop with: `b` moved up by the difference
of the bit lengths, under the top bit of `a`. -/
theorem divInv_init (a b : BaseUint WIDTH) (hb : b.bits ≠ 0) (hle : b.bits ≤ a.bits) :
    DivInv a.toNat b.toNat (a.bits - b.bits) ⟨zero, a, b.shiftLeft (a.bits - b.bits)⟩ := by
  have ha := Nat.lt_size_self a.toNat
  have hbhi := Nat.lt_size_self b.toNat
  have hblo : 2 ^ (b.bits - 1) ≤ b.toNat := by
    rw [bits_eq_size] at hb ⊢
    exact Nat.lt_size.mp (by omega)
  have haW : a.bits ≤ 32 * WIDTH := by
    rw [bits_eq_size]
    exact Nat.size_le.mpr a.toNat_lt
  rw [← bits_eq_size] at ha
  rw [← bits_eq_size] at hbhi
  have hexp : 2 ^ a.bits = 2 ^ b.bits * 2 ^ (a.bits - b.bits) := by rw [← Nat.pow_add]; congr 1; omega
  have hexp' : 2 ^ a.bits = 2 ^ (b.bits - 1) * 2 ^ (a.bits - b.bits + 1) := by
    rw [← Nat.pow_add]; congr 1; omega
  refine ⟨?_, ?_, ?_, ?_, by omega⟩
  · -- the aligned divisor does not wrap
    have hfit : b.toNat * 2 ^ (a.bits - b.bits) < 2 ^ (32 * WIDTH) :=
      calc b.toNat * 2 ^ (a.bits - b.bits) < 2 ^ b.bits * 2 ^ (a.bits - b.bits) :=
            Nat.mul_lt_mul_of_pos_right hbhi (Nat.two_pow_pos _)
        _ = 2 ^ a.bits := hexp.symm
        _ ≤ 2 ^ (32 * WIDTH) := Nat.pow_le_pow_right (by norm_num) haW
    exact (toNat_shiftLeft b _).trans (Nat.mod_eq_of_lt hfit)
  · simp
  · calc a.toNat < 2 ^ a.bits := ha
      _ = 2 ^ (b.bits - 1) * 2 ^ (a.bits - b.bits + 1) := hexp'
      _ ≤ b.toNat * 2 ^ (a.bits - b.bits + 1) := Nat.mul_le_mul_right _ hblo
  · simp

/-- `operator/=` throws exactly on a zero divisor. -/
theorem div_eq_error (a : BaseUint WIDTH) {b : BaseUint WIDTH} (hb : b.toNat = 0) :
    a.div b = .error "Division by zero" := by
  have hbits : b.bits = 0 := by rw [bits_eq, hb]; rfl
  simp only [div]
  rw [if_pos hbits]

/-- On a nonzero divisor, `operator/=` returns the quotient rounded down. -/
theorem toNat_div (a : BaseUint WIDTH) {b : BaseUint WIDTH} (hb : b.toNat ≠ 0) :
    ∃ q, a.div b = .ok q ∧ q.toNat = a.toNat / b.toNat := by
  have hbits : b.bits ≠ 0 := by
    rw [bits_eq_size]
    exact Nat.size_pos.mpr (Nat.pos_of_ne_zero hb) |>.ne'
  simp only [div]
  rw [if_neg hbits]
  split_ifs with hgt
  · -- `b` is longer than `a`, so the quotient is zero
    refine ⟨zero, rfl, ?_⟩
    have ha := Nat.lt_size_self a.toNat
    have hblo : 2 ^ (b.bits - 1) ≤ b.toNat := by
      rw [bits_eq_size] at hbits ⊢
      exact Nat.lt_size.mp (by omega)
    rw [← bits_eq_size] at ha
    have hab : a.toNat < b.toNat :=
      lt_of_lt_of_le ha (le_trans (Nat.pow_le_pow_right (by norm_num) (by omega)) hblo)
    rw [toNat_zero, Nat.div_eq_of_lt hab]
  · refine ⟨_, rfl, ?_⟩
    obtain ⟨hdecomp, hlt⟩ := (divInv_init a b hbits (by omega)).divLoop
    rw [eq_comm]
    apply Nat.div_eq_of_lt_le
    · omega
    · rw [Nat.succ_mul]
      omega

/-- `base_uint<BITS>` is arithmetic modulo `2 ^ BITS`, `BITS = 32 * WIDTH`:
each operator computes its counterpart on the values of the limbs, the
comparisons order the values, `/=` rounds down and throws on a zero divisor
alone, and `bits()` is the binary length. -/
theorem ops_mod_two_pow (a b : BaseUint WIDTH) (b32 : UInt32) (shift : ℕ) :
    (a.add b).toNat = (a.toNat + b.toNat) % 2 ^ (32 * WIDTH) ∧
    ((a.sub b).toNat : ℤ) = ((a.toNat : ℤ) - b.toNat) % 2 ^ (32 * WIDTH) ∧
    (a.neg.toNat : ℤ) = -(a.toNat : ℤ) % 2 ^ (32 * WIDTH) ∧
    a.inc.toNat = (a.toNat + 1) % 2 ^ (32 * WIDTH) ∧
    (a.dec.toNat : ℤ) = ((a.toNat : ℤ) - 1) % 2 ^ (32 * WIDTH) ∧
    (a.mul32 b32).toNat = a.toNat * b32.toNat % 2 ^ (32 * WIDTH) ∧
    (a.mul b).toNat = a.toNat * b.toNat % 2 ^ (32 * WIDTH) ∧
    (a.shiftLeft shift).toNat = a.toNat * 2 ^ shift % 2 ^ (32 * WIDTH) ∧
    (a.shiftRight shift).toNat = a.toNat / 2 ^ shift ∧
    a.CompareTo b = Int.sign ((a.toNat : ℤ) - b.toNat) ∧
    (a.eq b = true ↔ a.toNat = b.toNat) ∧
    (a.lt b = true ↔ a.toNat < b.toNat) ∧
    ((∃ e, a.div b = .error e) ↔ b.toNat = 0) ∧
    (b.toNat ≠ 0 → ∃ q, a.div b = .ok q ∧ q.toNat = a.toNat / b.toNat) ∧
    a.bits = a.toNat.size := by
  have ha := a.toNat_lt
  have hb := b.toNat_lt
  have hpos : 1 ≤ 2 ^ (32 * WIDTH) := Nat.one_le_two_pow
  refine ⟨toNat_add a b, ?_, ?_, toNat_inc a, ?_, toNat_mul32 a b32, toNat_mul a b, toNat_shiftLeft a shift,
    toNat_shiftRight a shift, CompareTo_eq_sign a b, eq_iff a b, lt_iff a b, ?_, fun hb0 => toNat_div a hb0,
    bits_eq_size a⟩
  · rw [toNat_sub, natCast_add_sub_mod _ hb.le]
    push_cast
    rfl
  · have h := natCast_add_sub_mod 0 ha.le
    rw [Nat.zero_add, Nat.cast_zero, Int.zero_sub] at h
    rw [toNat_neg, h]
    push_cast
    rfl
  · rw [toNat_dec, natCast_add_sub_mod _ hpos]
    push_cast
    rfl
  · constructor
    · -- a nonzero divisor gives a quotient, not a throw
      rintro ⟨e, he⟩
      by_contra hb0
      obtain ⟨q, hq, -⟩ := toNat_div a hb0
      rw [hq] at he
      cases he
    · intro hb0
      exact ⟨_, div_eq_error a hb0⟩

theorem ops_mod_two_pow_seven_div_two :
    ∃ q, (ofUInt64 7 : BaseUint 8).div (ofUInt64 2) = .ok q ∧ q.toNat = 3 := by
  have h := (ops_mod_two_pow (ofUInt64 7 : BaseUint 8) (ofUInt64 2) 0 0).2.2.2.2.2.2.2.2.2.2.2.2.2.1
  rw [toNat_ofUInt64 (by decide), toNat_ofUInt64 (by decide)] at h
  exact h (by decide)

end BaseUint
