import Mathlib.Data.Nat.Digits.Lemmas

/-!
# Decimal digit strings

The characters `%d` prints for a natural number, and the value a reader that
accumulates `acc * 10 + (c - '0')` gives a string of digits.  The printer is
stated through Mathlib's `Nat.digits`, so that its value lemma is
`Nat.ofDigits_digits`.

## Main definitions

* `digitChar d`, `digitValue c` — a digit and its character.
* `toDigits q` — the decimal digits of `q`, most significant first.
* `digitsValue cs` — the value of a string of digits.

## Main statements

* `digitsValue_toDigits` — the printed digits read back as the number.
* `digitsValue_append`, `digitsValue_leftpad` — how the value of a string
  composes, and that leading zeros do not change it.
-/

set_option autoImplicit false

namespace Decimal

/-- The character of a digit `d < 10`. -/
def digitChar (d : ℕ) : Char := Char.ofNat (d + 48)

/-- The digit a character stands for, `c - '0'`. -/
def digitValue (c : Char) : ℕ := c.toNat - 48

/-- The decimal digits of `q`, most significant first; `0` is `"0"`. -/
def toDigits (q : ℕ) : List Char :=
  if q = 0 then ['0'] else ((Nat.digits 10 q).map digitChar).reverse

/-- The value of a string of digits, read most significant first. -/
def digitsValue (cs : List Char) : ℕ :=
  cs.foldl (fun acc c => acc * 10 + digitValue c) 0

@[simp] theorem digitsValue_nil : digitsValue [] = 0 := rfl

/-- `Char.isDigit` in terms of the character's code. -/
theorem isDigit_iff (c : Char) : c.isDigit = true ↔ 48 ≤ c.toNat ∧ c.toNat ≤ 57 := by
  simp only [Char.isDigit, Bool.and_eq_true, decide_eq_true_eq, ge_iff_le]
  rfl

theorem toNat_digitChar {d : ℕ} (h : d < 10) : (digitChar d).toNat = d + 48 := by
  have hv : (d + 48).isValidChar := Or.inl (by omega)
  rw [digitChar, Char.ofNat, dif_pos hv]
  rfl

@[simp] theorem digitValue_digitChar {d : ℕ} (h : d < 10) : digitValue (digitChar d) = d := by
  simp [digitValue, toNat_digitChar h]

theorem isDigit_digitChar {d : ℕ} (h : d < 10) : (digitChar d).isDigit = true := by
  rw [isDigit_iff, toNat_digitChar h]
  omega

theorem digitValue_of_isDigit {c : Char} (hc : c.isDigit = true) :
    ((digitValue c : ℕ) : ℤ) = (c.toNat - 48 : ℤ) := by
  have := (isDigit_iff c).mp hc
  simp only [digitValue]
  omega

theorem foldl_digitsValue (a : ℕ) (cs : List Char) :
    cs.foldl (fun acc c => acc * 10 + digitValue c) a = a * 10 ^ cs.length + digitsValue cs := by
  induction cs generalizing a with
  | nil => simp [digitsValue]
  | cons c cs ih =>
    simp only [List.foldl_cons, digitsValue, List.length_cons] at ih ⊢
    rw [ih, ih (0 * 10 + digitValue c), pow_succ]
    ring

theorem digitsValue_append (xs ys : List Char) :
    digitsValue (xs ++ ys) = digitsValue xs * 10 ^ ys.length + digitsValue ys := by
  rw [digitsValue, List.foldl_append, foldl_digitsValue]
  rfl

theorem digitsValue_cons (c : Char) (cs : List Char) :
    digitsValue (c :: cs) = digitValue c * 10 ^ cs.length + digitsValue cs := by
  rw [← List.singleton_append, digitsValue_append]
  simp [digitsValue]

/-- A string of `k` digits is worth less than `10 ^ k`. -/
theorem digitsValue_lt_pow {cs : List Char} (hcs : ∀ c ∈ cs, c.isDigit = true) :
    digitsValue cs < 10 ^ cs.length := by
  induction cs with
  | nil => simp [digitsValue]
  | cons c cs ih =>
    have hc : digitValue c < 10 := by
      have := (isDigit_iff c).mp (hcs c List.mem_cons_self)
      simp only [digitValue]
      omega
    have hlt := ih fun d hd => hcs d (List.mem_cons_of_mem c hd)
    rw [digitsValue_cons, List.length_cons, pow_succ]
    nlinarith

@[simp] theorem digitsValue_replicate_zero (k : ℕ) : digitsValue (List.replicate k '0') = 0 := by
  induction k with
  | zero => rfl
  | succ k ih =>
    rw [List.replicate_succ, digitsValue_cons, ih]
    simp [digitValue]

/-- Leading zeros do not change the value. -/
theorem digitsValue_leftpad (n : ℕ) (cs : List Char) :
    digitsValue (List.leftpad n '0' cs) = digitsValue cs := by
  rw [List.leftpad, digitsValue_append, digitsValue_replicate_zero]
  simp

/-- Trailing zeros scale the value by ten each. -/
theorem digitsValue_append_zeros (cs : List Char) (k : ℕ) :
    digitsValue (cs ++ List.replicate k '0') = digitsValue cs * 10 ^ k := by
  rw [digitsValue_append, digitsValue_replicate_zero, List.length_replicate, Nat.add_zero]

theorem digitsValue_map_digitChar_reverse {ds : List ℕ} (hds : ∀ d ∈ ds, d < 10) :
    digitsValue (ds.map digitChar).reverse = Nat.ofDigits 10 ds := by
  induction ds with
  | nil => rfl
  | cons d ds ih =>
    rw [List.map_cons, List.reverse_cons, digitsValue_append,
      ih fun e he => hds e (List.mem_cons_of_mem d he), Nat.ofDigits_cons]
    simp [digitsValue, digitValue_digitChar (hds d List.mem_cons_self)]
    ring

/-- The printed digits read back as the number. -/
theorem digitsValue_toDigits (q : ℕ) : digitsValue (toDigits q) = q := by
  unfold toDigits
  split_ifs with hq
  · subst hq; rfl
  · rw [digitsValue_map_digitChar_reverse fun d hd => Nat.digits_lt_base (by decide) hd,
      Nat.ofDigits_digits]

theorem isDigit_of_mem_toDigits {q : ℕ} {c : Char} (hc : c ∈ toDigits q) : c.isDigit = true := by
  unfold toDigits at hc
  split_ifs at hc
  · simp only [List.mem_singleton] at hc
    subst hc
    rfl
  · obtain ⟨d, hd, rfl⟩ := List.mem_map.mp (List.mem_reverse.mp hc)
    exact isDigit_digitChar (Nat.digits_lt_base (by decide) hd)

theorem length_toDigits_le {q k : ℕ} (hk : 0 < k) (h : q < 10 ^ k) : (toDigits q).length ≤ k := by
  unfold toDigits
  split_ifs
  · simpa using Nat.one_le_iff_ne_zero.mpr (Nat.pos_iff_ne_zero.mp hk)
  · simpa using (Nat.digits_length_le_iff (by decide) q).mpr h

/-- A positive number's digits start with a digit from `1` to `9`. -/
theorem toDigits_eq_cons {q : ℕ} (hq : q ≠ 0) :
    ∃ c cs, toDigits q = c :: cs ∧ '1' ≤ c ∧ c ≤ '9' := by
  have hne : Nat.digits 10 q ≠ [] := Nat.digits_ne_nil_iff_ne_zero.mpr hq
  have hlast := Nat.getLast_digit_ne_zero 10 hq
  have hlt : (Nat.digits 10 q).getLast hne < 10 :=
    Nat.digits_lt_base (by decide) (List.getLast_mem hne)
  obtain ⟨init, hinit⟩ : ∃ init, Nat.digits 10 q = init ++ [(Nat.digits 10 q).getLast hne] :=
    ⟨_, (List.dropLast_append_getLast hne).symm⟩
  refine ⟨digitChar ((Nat.digits 10 q).getLast hne), (init.map digitChar).reverse, ?_, ?_, ?_⟩
  · unfold toDigits
    rw [if_neg hq]
    conv_lhs => rw [hinit]
    simp
  · show 49 ≤ (digitChar _).toNat
    rw [toNat_digitChar hlt]
    omega
  · show (digitChar _).toNat ≤ 57
    rw [toNat_digitChar hlt]
    omega

/-- `%0kd`: the digits of `r < 10 ^ k` padded with zeros to exactly `k`. -/
theorem length_leftpad_toDigits {k r : ℕ} (hk : 0 < k) (hr : r < 10 ^ k) :
    (List.leftpad k '0' (toDigits r)).length = k := by
  rw [List.length_leftpad, max_eq_left (length_toDigits_le hk hr)]

theorem isDigit_of_mem_leftpad_toDigits {k r : ℕ} {c : Char}
    (hc : c ∈ List.leftpad k '0' (toDigits r)) : c.isDigit = true := by
  rw [List.leftpad, List.mem_append, List.mem_replicate] at hc
  rcases hc with ⟨-, rfl⟩ | hc
  · rfl
  · exact isDigit_of_mem_toDigits hc

end Decimal
