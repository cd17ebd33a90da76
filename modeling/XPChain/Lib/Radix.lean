import Mathlib.Data.Nat.Digits.Lemmas
import Mathlib.Algebra.Order.GroupWithZero.Basic

/-!
# In-place radix conversion

A number held in a buffer of fixed size as digits of base `base`, least
significant first, of which the first `length` are in use, and the loop that
multiplies it by `mul` and adds a carry in place.  The carry runs through the
digits in use and on while it is not zero; what is left of it when the buffer
ends did not fit.  Reading digits of base `mul` one at a time into such a
buffer converts a number from base `mul` to base `base`.

A state that holds `n` keeps its digits below `base` and zero from `length`
on (`Represents`).  One round holds `mul * n + carry` exactly when that is
below `base ^ size`, and leaves a carry otherwise; the digits in use, with
their leading zeros dropped, are the digits of `n`.

## Main definitions

* `mulAddLoop` — the loop of one multiply-add.
* `Represents` — a buffer and its `length` hold a number.

## Main statements

* `Represents.mulAdd` — one round of the loop on a buffer that holds `n`.
* `Represents.dropWhile_reverse` — the digits in use, most significant first,
  without their leading zeros.
* `pow_lt_pow_div_succ` — the size of a buffer that holds `m` digits of another base.
-/

set_option autoImplicit false

namespace Radix

open Nat

variable (base mul : ℕ)

/-- The loop `for (it = b.rbegin(); (carry != 0 || i < length) && it != b.rend(); ++it, ++i)`
of one multiply-add, on the buffer from its least significant digit: each
digit becomes `(carry + mul * digit) % base` and the carry the quotient.  It
returns the buffer, the carry left and `i`. -/
def mulAddLoop (length : ℕ) : List ℕ → ℕ → ℕ → List ℕ × ℕ × ℕ
  | [], carry, i => ([], carry, i)
  | d :: ds, carry, i =>
    if carry ≠ 0 ∨ i < length then
      let c := carry + mul * d
      let r := mulAddLoop length ds (c / base) (i + 1)
      (c % base :: r.1, r.2.1, r.2.2)
    else (d :: ds, carry, i)

variable {base mul}

@[simp] theorem length_mulAddLoop (length : ℕ) (buf : List ℕ) (carry i : ℕ) :
    (mulAddLoop base mul length buf carry i).1.length = buf.length := by
  induction buf generalizing carry i with
  | nil => rfl
  | cons d ds ih =>
    simp only [mulAddLoop]
    split_ifs
    · simp [ih]
    · rfl

theorem mulAddLoop_lt (hbase : 0 < base) (length : ℕ) {buf : List ℕ} (hbuf : ∀ d ∈ buf, d < base)
    (carry i : ℕ) : ∀ d ∈ (mulAddLoop base mul length buf carry i).1, d < base := by
  induction buf generalizing carry i with
  | nil => simp [mulAddLoop]
  | cons d ds ih =>
    simp only [mulAddLoop]
    split_ifs
    · intro x hx
      rcases List.mem_cons.mp hx with rfl | hx
      · exact Nat.mod_lt _ hbase
      · exact ih (fun y hy => hbuf y (List.mem_cons_of_mem d hy)) _ _ x hx
    · exact hbuf

/-- Zeros from `length - i` on in `d :: ds` are zeros from `length - (i + 1)`
on in `ds`: the loop's condition one digit further. -/
theorem zero_drop_cons {length i d : ℕ} {ds : List ℕ} (h : ∀ x ∈ (d :: ds).drop (length - i), x = 0) :
    ∀ x ∈ ds.drop (length - (i + 1)), x = 0 := by
  intro x hx
  apply h x
  rcases Nat.eq_zero_or_pos (length - i) with h0 | hpos
  · rw [h0, List.drop_zero]
    exact List.mem_cons_of_mem d (List.mem_of_mem_drop hx)
  · obtain ⟨k, hk⟩ := Nat.exists_eq_succ_of_ne_zero hpos.ne'
    rw [hk, List.drop_succ_cons]
    rwa [show length - (i + 1) = k by omega] at hx

/-- The loop multiplies the buffer by `mul` and adds the carry, the carry left
counting in units of the whole buffer, when the digits it does not visit are
zero. -/
theorem mulAddLoop_value (length : ℕ) {buf : List ℕ} (carry i : ℕ)
    (hzero : ∀ d ∈ buf.drop (length - i), d = 0) :
    ofDigits base (mulAddLoop base mul length buf carry i).1 +
        base ^ buf.length * (mulAddLoop base mul length buf carry i).2.1 =
      mul * ofDigits base buf + carry := by
  induction buf generalizing carry i with
  | nil => simp [mulAddLoop]
  | cons d ds ih =>
    simp only [mulAddLoop]
    split_ifs with hrun
    · have hnext := ih ((carry + mul * d) / base) (i + 1) (zero_drop_cons hzero)
      have hdiv := Nat.mod_add_div (carry + mul * d) base
      simp only [ofDigits_cons, List.length_cons, pow_succ]
      calc (carry + mul * d) % base + base * ofDigits base (mulAddLoop base mul length ds _ _).1 +
            base ^ ds.length * base * (mulAddLoop base mul length ds _ _).2.1
          = (carry + mul * d) % base + base * (ofDigits base (mulAddLoop base mul length ds _ _).1 +
            base ^ ds.length * (mulAddLoop base mul length ds _ _).2.1) := by ring
        _ = mul * (d + base * ofDigits base ds) + carry := by rw [hnext]; linarith
    · -- past `length` with no carry: the buffer is all zeros
      have hlen : length - i = 0 := by omega
      rw [hlen, List.drop_zero] at hzero
      have hnil : ofDigits base (d :: ds) = 0 := by
        rw [List.eq_replicate_of_mem hzero, ofDigits_replicate_zero]
      simp only [not_or, not_not] at hrun
      simp [hnil, hrun.1]

/-- The digits the loop does not reach stay as they were: zero from the new
`i` on, when they were zero from `length` on. -/
theorem mulAddLoop_zero_tail (length : ℕ) {buf : List ℕ} (carry i : ℕ)
    (hzero : ∀ d ∈ buf.drop (length - i), d = 0) :
    i ≤ (mulAddLoop base mul length buf carry i).2.2 ∧
      ∀ d ∈ (mulAddLoop base mul length buf carry i).1.drop ((mulAddLoop base mul length buf carry i).2.2 - i),
        d = 0 := by
  induction buf generalizing carry i with
  | nil => simp [mulAddLoop]
  | cons d ds ih =>
    simp only [mulAddLoop]
    split_ifs with hrun
    · obtain ⟨hle, htail⟩ := ih ((carry + mul * d) / base) (i + 1) (zero_drop_cons hzero)
      dsimp only
      refine ⟨by omega, ?_⟩
      rw [show (mulAddLoop base mul length ds ((carry + mul * d) / base) (i + 1)).2.2 - i =
        (mulAddLoop base mul length ds ((carry + mul * d) / base) (i + 1)).2.2 - (i + 1) + 1 by omega,
        List.drop_succ_cons]
      exact htail
    · have hlen : length - i = 0 := by omega
      rw [hlen] at hzero
      simpa using hzero

/-! ## A buffer that holds a number -/

/-- The buffer `st.1` of `size` digits, in use up to `st.2`, holds `n`: its
digits are below `base`, zero from `st.2` on, and denote `n`. -/
structure Represents (base size : ℕ) (st : List ℕ × ℕ) (n : ℕ) : Prop where
  length_eq : st.1.length = size
  lt_base : ∀ d ∈ st.1, d < base
  zero_tail : ∀ d ∈ st.1.drop st.2, d = 0
  value : ofDigits base st.1 = n

theorem represents_init (hbase : 0 < base) (size : ℕ) : Represents base size (List.replicate size 0, 0) 0 where
  length_eq := List.length_replicate
  lt_base := by
    intro d hd
    rw [List.eq_of_mem_replicate hd]
    exact hbase
  zero_tail := by simp
  value := ofDigits_replicate_zero

/-- One round of the loop on a buffer that holds `n`: no carry is left exactly
when `mul * n + carry` fits in the buffer, and the buffer then holds it, in use
up to the loop's `i`. -/
theorem Represents.mulAdd {size : ℕ} {st : List ℕ × ℕ} {n : ℕ} (h : Represents base size st n)
    (hbase : 1 < base) (carry : ℕ) :
    ((mulAddLoop base mul st.2 st.1 carry 0).2.1 = 0 ↔ mul * n + carry < base ^ size) ∧
      ((mulAddLoop base mul st.2 st.1 carry 0).2.1 = 0 →
        Represents base size ((mulAddLoop base mul st.2 st.1 carry 0).1, (mulAddLoop base mul st.2 st.1 carry 0).2.2)
          (mul * n + carry)) := by
  have hzero : ∀ d ∈ st.1.drop (st.2 - 0), d = 0 := by simpa using h.zero_tail
  have hvalue := @mulAddLoop_value base mul st.2 st.1 carry 0 hzero
  have hdigits := @mulAddLoop_lt base mul (by omega) st.2 st.1 h.lt_base carry 0
  have hlt : ofDigits base (mulAddLoop base mul st.2 st.1 carry 0).1 < base ^ size := by
    rw [← h.length_eq, ← @length_mulAddLoop base mul st.2 st.1 carry 0]
    exact ofDigits_lt_base_pow_length hbase hdigits
  rw [h.length_eq, h.value] at hvalue
  refine ⟨⟨fun h0 => ?_, fun hfit => ?_⟩, fun h0 => ⟨?_, hdigits, ?_, ?_⟩⟩
  · rw [h0, mul_zero, add_zero] at hvalue
    rwa [← hvalue]
  · by_contra hc
    have hle : base ^ size ≤ base ^ size * (mulAddLoop base mul st.2 st.1 carry 0).2.1 :=
      Nat.le_mul_of_pos_right _ (Nat.pos_of_ne_zero hc)
    omega
  · rw [length_mulAddLoop, h.length_eq]
  · simpa using (@mulAddLoop_zero_tail base mul st.2 st.1 carry 0 hzero).2
  · rw [h0, mul_zero, add_zero] at hvalue
    exact hvalue

/-- The digits of a buffer most significant first, without their leading zeros,
are the digits of the number they denote. -/
theorem dropWhile_eq_digits (hbase : 1 < base) {be : List ℕ} (hbe : ∀ d ∈ be, d < base) :
    be.dropWhile (· == 0) = (digits base (ofDigits base be.reverse)).reverse := by
  induction be with
  | nil => simp
  | cons d be ih =>
    have hbe' : ∀ x ∈ be, x < base := fun x hx => hbe x (List.mem_cons_of_mem d hx)
    by_cases hd : d = 0
    · subst hd
      rw [List.dropWhile_cons_of_pos (by simp), ih hbe', List.reverse_cons, ofDigits_append]
      simp
    · rw [List.dropWhile_cons_of_neg (by simpa using hd), List.reverse_cons,
        digits_ofDigits base hbase _ (fun x hx => hbe x (by simpa [or_comm] using hx)) (by simp [hd]),
        List.reverse_append, List.reverse_reverse]
      rfl

/-- Digits most significant first, with no leading zero, are the digits of the
number they denote. -/
theorem digits_ofDigits_reverse (hbase : 1 < base) {be : List ℕ} (hbe : ∀ d ∈ be, d < base)
    (hhead : ∀ d ∈ be.head?, d ≠ 0) : (digits base (ofDigits base be.reverse)).reverse = be := by
  rw [← dropWhile_eq_digits hbase hbe]
  cases be with
  | nil => rfl
  | cons d be => exact List.dropWhile_cons_of_neg (by simpa using hhead d rfl)

/-- The most significant digit is not zero. -/
theorem head?_reverse_digits (base n : ℕ) : ∀ d ∈ (digits base n).reverse.head?, d ≠ 0 := by
  intro d hd
  rcases Nat.eq_zero_or_pos n with rfl | hn
  · simp at hd
  · rw [List.head?_reverse, List.getLast?_eq_some_getLast (digits_ne_nil_iff_ne_zero.mpr hn.ne'),
      Option.mem_some_iff] at hd
    rw [← hd]
    exact getLast_digit_ne_zero base hn.ne'

/-- The digits in use, most significant first and without their leading zeros,
are the digits of the number the buffer holds. -/
theorem Represents.dropWhile_reverse {size : ℕ} {st : List ℕ × ℕ} {n : ℕ} (h : Represents base size st n)
    (hbase : 1 < base) : (st.1.take st.2).reverse.dropWhile (· == 0) = (digits base n).reverse := by
  rw [dropWhile_eq_digits hbase fun d hd => h.lt_base d (List.mem_of_mem_take (List.mem_reverse.mp hd)),
    List.reverse_reverse, ← h.value]
  conv_rhs => rw [← List.take_append_drop st.2 st.1]
  rw [ofDigits_append, List.eq_replicate_of_mem h.zero_tail, ofDigits_replicate_zero, mul_zero, add_zero]

/-- `m` digits of base `a` fit in `m * p / q + 1` digits of base `b` when
`a ^ q ≤ b ^ p`. -/
theorem pow_lt_pow_div_succ {a b p q : ℕ} (hq : 0 < q) (hb : 1 < b) (hab : a ^ q ≤ b ^ p) (m : ℕ) :
    a ^ m < b ^ (m * p / q + 1) := by
  have hlt : m * p < q * (m * p / q + 1) := Nat.lt_mul_div_succ (m * p) hq
  have hpow : (a ^ m) ^ q < (b ^ (m * p / q + 1)) ^ q :=
    calc (a ^ m) ^ q = (a ^ q) ^ m := by rw [← pow_mul, ← pow_mul, mul_comm]
      _ ≤ (b ^ p) ^ m := Nat.pow_le_pow_left hab m
      _ = b ^ (m * p) := by rw [← pow_mul, mul_comm]
      _ < b ^ (q * (m * p / q + 1)) := Nat.pow_lt_pow_right hb hlt
      _ = (b ^ (m * p / q + 1)) ^ q := by rw [← pow_mul, mul_comm]
  exact lt_of_pow_lt_pow_left₀ q (Nat.zero_le _) hpow

end Radix
