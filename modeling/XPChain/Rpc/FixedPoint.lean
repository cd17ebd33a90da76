import XPChain.Rpc.Amount

/-!
# The grammar of `ParseFixedPoint`

`ParseFixedPoint` reads a JSON number of the grammar
`-?(0|[1-9][0-9]*)(\.[0-9]+)?([eE][+-]?[0-9]+)?` into a whole number of
`10 ^ -decimals`.  Here the grammar is the type `NumberLit` of the numbers that
can be built, each with the exact rational it denotes, and the parser is shown
to accept only such strings, to return the value they denote, and to accept
every one whose value is a representable nonzero integer.

The parser's digit loops are monadic folds of their checked step
(`readMantissaDigits_append`, `readExponentDigits_append`).  Each fold fails
or returns the fold without checks, and it returns that whenever the result
stays in range.  The mantissa is kept without its trailing zeros, so it is
never a multiple of ten; that is why a value that is an integer never needs a
negative exponent.

## Main definitions

* `NumberLit`, `NumberLit.render`, `NumberLit.value` — the grammar and the
  exact value of a number.
* `mantissaStep` — `ProcessMantissaDigit` without its overflow check.
* `finalizeFixedPoint` — the part of `ParseFixedPoint` after the string is read.

## Main statements

* `parseFixedPoint_render` — `ParseFixedPoint` on a number of the grammar, as
  the checked folds and `finalizeFixedPoint`.
* `exists_render_of_parseFixedPoint` — what it accepts is in the grammar.
* `parseFixedPoint_render_eq` — on a number of the grammar it returns the
  number's value in units of `10 ^ -decimals`.
* `parseFixedPoint_render_of_eq` — it accepts every number of the grammar whose
  value is a nonzero count of units in range.
* `parseFixedPoint_grammar` — the three together.
-/

set_option autoImplicit false

namespace XPChain

open Decimal

/-! ## The grammar -/

/-- The integer part, `0|[1-9][0-9]*`. -/
def IsIntPart (I : List Char) : Prop :=
  I = ['0'] ∨ ∃ c ds, I = c :: ds ∧ '1' ≤ c ∧ c ≤ '9' ∧ ∀ d ∈ ds, d.isDigit = true

/-- `[0-9]+`. -/
def IsDigits (D : List Char) : Prop := D ≠ [] ∧ ∀ d ∈ D, d.isDigit = true

/-- The exponent, `[eE][+-]?[0-9]+`. -/
structure ExpField where
  marker : Char
  sign : Option Char
  digits : List Char
  marker_mem : marker = 'e' ∨ marker = 'E'
  sign_mem : sign = none ∨ sign = some '+' ∨ sign = some '-'
  digits_ok : IsDigits digits

/-- A number of the grammar `-?(0|[1-9][0-9]*)(\.[0-9]+)?([eE][+-]?[0-9]+)?`,
by its parts. -/
structure NumberLit where
  neg : Bool
  intDigits : List Char
  /-- the digits after a `'.'`, if there is one -/
  fracDigits : Option (List Char)
  exp : Option ExpField
  intDigits_ok : IsIntPart intDigits
  fracDigits_ok : ∀ F ∈ fracDigits, IsDigits F

namespace ExpField

def render (E : ExpField) : List Char := E.marker :: (E.sign.toList ++ E.digits)

/-- The exponent's value. -/
def value (E : ExpField) : ℤ :=
  if E.sign = some '-' then -(digitsValue E.digits : ℤ) else digitsValue E.digits

end ExpField

namespace NumberLit

def fracRender (L : NumberLit) : List Char :=
  match L.fracDigits with
  | none => []
  | some F => '.' :: F

def expRender (L : NumberLit) : List Char :=
  match L.exp with
  | none => []
  | some E => E.render

/-- The characters of a number. -/
def render (L : NumberLit) : List Char :=
  (if L.neg then ['-'] else []) ++ L.intDigits ++ L.fracRender ++ L.expRender

/-- The digits after the point; none without a point. -/
def frac (L : NumberLit) : List Char := L.fracDigits.getD []

/-- The exponent's digits; none without an exponent. -/
def expDigits (L : NumberLit) : List Char :=
  match L.exp with
  | none => []
  | some E => E.digits

def expValue (L : NumberLit) : ℤ :=
  match L.exp with
  | none => 0
  | some E => E.value

/-- The digits `ParseFixedPoint` passes to `ProcessMantissaDigit`: all but a
lone integer part `0`, which it steps over. -/
def mantissaDigits (L : NumberLit) : List Char :=
  (if L.intDigits = ['0'] then [] else L.intDigits) ++ L.frac

/-- Whether the exponent has a `-`. -/
def expNeg (L : NumberLit) : Bool :=
  match L.exp with
  | none => false
  | some E => E.sign = some '-'

/-- The exact rational a number denotes. -/
def value (L : NumberLit) : ℚ :=
  (if L.neg then -1 else 1) * ((digitsValue L.intDigits : ℚ) + digitsValue L.frac / 10 ^ L.frac.length) *
    10 ^ L.expValue

end NumberLit

/-! ## The mantissa loop as a fold -/

/-- `ProcessMantissaDigit` without its overflow check: a zero is a trailing
zero, another digit multiplies the trailing zeros in. -/
def mantissaStep (p : ℤ × ℕ) (ch : Char) : ℤ × ℕ :=
  if ch = '0' then (p.1, p.2 + 1) else (p.1 * 10 ^ (p.2 + 1) + (ch.toNat - 48 : ℤ), 0)

/-- `ProcessMantissaDigit` on the pair of the mantissa and its trailing zeros. -/
def checkedMantissaStep (p : ℤ × ℕ) (ch : Char) : Option (ℤ × ℕ) := processMantissaDigit ch p.1 p.2

theorem eq_of_mulTenChecked {k : ℕ} {m m' : ℤ} (h : mulTenChecked k m = some m') : m' = m * 10 ^ k := by
  induction k generalizing m with
  | zero => simpa [mulTenChecked, eq_comm] using h
  | succ k ih =>
    rw [mulTenChecked] at h
    split_ifs at h
    rw [ih h]
    ring

/-- The checked step fails or takes the unchecked one. -/
theorem eq_of_checkedMantissaStep {p q : ℤ × ℕ} {c : Char} (h : checkedMantissaStep p c = some q) :
    q = mantissaStep p c := by
  simp only [checkedMantissaStep, processMantissaDigit, mantissaStep] at h ⊢
  split_ifs at h ⊢
  · exact (Option.some.inj h).symm
  · obtain ⟨m', hm', rfl⟩ := Option.map_eq_some_iff.mp h
    rw [eq_of_mulTenChecked hm']

/-- The checked step succeeds when the unchecked one stays in range. -/
theorem checkedMantissaStep_of_le {p : ℤ × ℕ} {c : Char} (hp : 0 ≤ p.1) (hc : c.isDigit = true)
    (h : (mantissaStep p c).1 ≤ UPPER_BOUND) : checkedMantissaStep p c = some (mantissaStep p c) := by
  have hd := digitValue_of_isDigit hc
  simp only [checkedMantissaStep, processMantissaDigit, mantissaStep] at h ⊢
  split_ifs at h ⊢ with h0
  · rfl
  · have hdig : (0 : ℤ) ≤ c.toNat - 48 := by rw [← hd]; positivity
    rw [mulTenChecked_of_le hp (by omega), Option.map_some]

theorem digitValue_cast {c : Char} (hc : c.isDigit = true) : ((digitValue c : ℕ) : ℤ) = c.toNat - 48 :=
  digitValue_of_isDigit hc

/-- The unchecked step keeps `mantissa * 10 ^ mantissa_tzeros` the value of
the digits read. -/
theorem mantissaStep_value (p : ℤ × ℕ) {c : Char} (hc : c.isDigit = true) :
    (mantissaStep p c).1 * 10 ^ (mantissaStep p c).2 = p.1 * 10 ^ p.2 * 10 + digitValue c := by
  unfold mantissaStep
  split_ifs with h0
  · subst h0
    simp only [pow_succ, show digitValue '0' = 0 from rfl, Nat.cast_zero, add_zero]
    ring
  · rw [digitValue_cast hc]
    ring

theorem foldl_mantissaStep_value (p : ℤ × ℕ) {D : List Char} (hD : ∀ c ∈ D, c.isDigit = true) :
    (D.foldl mantissaStep p).1 * 10 ^ (D.foldl mantissaStep p).2 = p.1 * 10 ^ p.2 * 10 ^ D.length + digitsValue D := by
  induction D generalizing p with
  | nil => simp
  | cons c D ih =>
    rw [List.foldl_cons, ih _ fun d hd => hD d (List.mem_cons_of_mem c hd),
      mantissaStep_value p (hD c List.mem_cons_self), digitsValue_cons, List.length_cons]
    push_cast
    ring

/-- The mantissa only grows. -/
theorem le_mantissaStep {p : ℤ × ℕ} (hp : 0 ≤ p.1) {c : Char} (hc : c.isDigit = true) :
    p.1 ≤ (mantissaStep p c).1 := by
  unfold mantissaStep
  split_ifs
  · exact le_rfl
  · have hdig : (0 : ℤ) ≤ c.toNat - 48 := by rw [← digitValue_cast hc]; positivity
    have hpow : (1 : ℤ) ≤ 10 ^ (p.2 + 1) := one_le_pow₀ (by norm_num)
    nlinarith

theorem le_foldl_mantissaStep {p : ℤ × ℕ} (hp : 0 ≤ p.1) {D : List Char} (hD : ∀ c ∈ D, c.isDigit = true) :
    p.1 ≤ (D.foldl mantissaStep p).1 := by
  induction D generalizing p with
  | nil => exact le_rfl
  | cons c D ih =>
    have hstep := le_mantissaStep hp (hD c List.mem_cons_self)
    exact hstep.trans (ih (hp.trans hstep) fun d hd => hD d (List.mem_cons_of_mem c hd))

/-- The mantissa never ends in a zero digit: the zeros are counted apart. -/
theorem mantissaStep_not_dvd {p : ℤ × ℕ} (hp : p.1 = 0 ∨ ¬ (10 : ℤ) ∣ p.1) {c : Char} (hc : c.isDigit = true) :
    (mantissaStep p c).1 = 0 ∨ ¬ (10 : ℤ) ∣ (mantissaStep p c).1 := by
  unfold mantissaStep
  split_ifs with h0
  · exact hp
  · right
    have hd := (isDigit_iff c).mp hc
    have h48 : c.toNat ≠ 48 := fun h => h0 (Char.toNat_inj.mp h)
    rw [pow_succ, ← mul_assoc]
    omega

theorem foldl_mantissaStep_not_dvd {p : ℤ × ℕ} (hp : p.1 = 0 ∨ ¬ (10 : ℤ) ∣ p.1) {D : List Char}
    (hD : ∀ c ∈ D, c.isDigit = true) :
    (D.foldl mantissaStep p).1 = 0 ∨ ¬ (10 : ℤ) ∣ (D.foldl mantissaStep p).1 := by
  induction D generalizing p with
  | nil => exact hp
  | cons c D ih =>
    exact ih (mantissaStep_not_dvd hp (hD c List.mem_cons_self)) fun d hd => hD d (List.mem_cons_of_mem c hd)

/-- The checked loop fails or gives the unchecked fold. -/
theorem eq_of_foldlM_checkedMantissaStep {p q : ℤ × ℕ} {D : List Char}
    (h : D.foldlM checkedMantissaStep p = some q) : q = D.foldl mantissaStep p := by
  induction D generalizing p with
  | nil => simpa [eq_comm] using h
  | cons c D ih =>
    obtain ⟨r, hr, hrest⟩ := Option.bind_eq_some_iff.mp h
    rw [List.foldl_cons, ← eq_of_checkedMantissaStep hr]
    exact ih hrest

/-- The checked loop gives the unchecked fold when that ends in range: the
mantissa only grows, so every step stays in range too. -/
theorem foldlM_checkedMantissaStep_of_le {p : ℤ × ℕ} (hp : 0 ≤ p.1) {D : List Char}
    (hD : ∀ c ∈ D, c.isDigit = true) (h : (D.foldl mantissaStep p).1 ≤ UPPER_BOUND) :
    D.foldlM checkedMantissaStep p = some (D.foldl mantissaStep p) := by
  induction D generalizing p with
  | nil => rfl
  | cons c D ih =>
    have hc := hD c List.mem_cons_self
    have hD' : ∀ d ∈ D, d.isDigit = true := fun d hd => hD d (List.mem_cons_of_mem c hd)
    have hstep := le_mantissaStep hp hc
    have hlast := le_foldl_mantissaStep (hp.trans hstep) hD'
    rw [List.foldl_cons] at h ⊢
    rw [List.foldlM_cons, checkedMantissaStep_of_le hp hc (hlast.trans h)]
    exact ih (hp.trans hstep) hD' h

/-! ## The exponent loop as a fold -/

/-- One round of the exponent's loop, with its check against `UPPER_BOUND / 10`. -/
def checkedExponentStep (exponent : ℤ) (ch : Char) : Option ℤ :=
  if UPPER_BOUND / 10 < exponent then none else some (exponent * 10 + (ch.toNat - 48 : ℤ))

theorem eq_of_foldlM_checkedExponentStep {x y : ℤ} {D : List Char} (hD : ∀ c ∈ D, c.isDigit = true)
    (h : D.foldlM checkedExponentStep x = some y) : y = x * 10 ^ D.length + digitsValue D := by
  induction D generalizing x with
  | nil => simpa [eq_comm] using h
  | cons c D ih =>
    obtain ⟨r, hr, hrest⟩ := Option.bind_eq_some_iff.mp h
    simp only [checkedExponentStep] at hr
    split_ifs at hr
    cases hr
    rw [ih (fun d hd => hD d (List.mem_cons_of_mem c hd)) hrest, digitsValue_cons, List.length_cons,
      ← digitValue_cast (hD c List.mem_cons_self)]
    push_cast
    ring

/-- The exponent's loop succeeds while the exponent stays below `10 ^ 18`:
before each digit it is then at most `UPPER_BOUND / 10`. -/
theorem foldlM_checkedExponentStep_of_lt {x : ℤ} (hx : 0 ≤ x) {D : List Char} (hD : ∀ c ∈ D, c.isDigit = true)
    (h : x * 10 ^ D.length + digitsValue D < 10 ^ 18) :
    D.foldlM checkedExponentStep x = some (x * 10 ^ D.length + digitsValue D) := by
  induction D generalizing x with
  | nil => simp
  | cons c D ih =>
    have hc := digitValue_cast (hD c List.mem_cons_self)
    have hdc : (0 : ℤ) ≤ digitValue c := Nat.cast_nonneg _
    have hdv : (0 : ℤ) ≤ digitsValue D := Nat.cast_nonneg _
    have hpow : (1 : ℤ) ≤ 10 ^ D.length := one_le_pow₀ (by norm_num)
    have hval : x * 10 ^ (c :: D).length + (digitsValue (c :: D) : ℤ) =
        (x * 10 + digitValue c) * 10 ^ D.length + digitsValue D := by
      rw [digitsValue_cons, List.length_cons]
      push_cast
      ring
    rw [hval] at h ⊢
    have hx10 : x * 10 < 10 ^ 18 := by nlinarith
    have hle : ¬ UPPER_BOUND / 10 < x := by
      simp only [UPPER_BOUND]
      omega
    rw [List.foldlM_cons, checkedExponentStep, if_neg hle, ← hc]
    exact ih (by positivity) (fun d hd => hD d (List.mem_cons_of_mem c hd)) h

/-! ## The readers on digits -/

/-- The mantissa loop over digits followed by a non-digit is the checked fold. -/
theorem readMantissaDigits_eq_foldlM {D rest : List Char} (hD : ∀ c ∈ D, c.isDigit = true)
    (hrest : ∀ c ∈ rest.head?, c.isDigit = false) (m : ℤ) (t k : ℕ) :
    readMantissaDigits (D ++ rest) m t k =
      (D.foldlM checkedMantissaStep (m, t)).map fun p => (p.1, p.2, k + D.length, rest) := by
  induction D generalizing m t k with
  | nil =>
    cases rest with
    | nil => rfl
    | cons c cs => simp [readMantissaDigits, hrest c rfl]
  | cons c D ih =>
    rw [List.cons_append, readMantissaDigits, if_pos (hD c List.mem_cons_self), List.foldlM_cons]
    cases hstep : processMantissaDigit c m t with
    | none => simp [checkedMantissaStep, hstep]
    | some r =>
      simp only [checkedMantissaStep, hstep, Option.bind_some,
        ih (fun d hd => hD d (List.mem_cons_of_mem c hd)), List.length_cons, Nat.add_assoc, Nat.add_comm 1]
      rfl

/-- The exponent's digit loop over digits followed by a non-digit is the
checked fold. -/
theorem readExponentDigits_eq_foldlM {D rest : List Char} (hD : ∀ c ∈ D, c.isDigit = true)
    (hrest : ∀ c ∈ rest.head?, c.isDigit = false) (x : ℤ) :
    readExponentDigits (D ++ rest) x = (D.foldlM checkedExponentStep x).map fun X => (X, rest) := by
  induction D generalizing x with
  | nil =>
    cases rest with
    | nil => rfl
    | cons c cs => simp [readExponentDigits, hrest c rfl]
  | cons c D ih =>
    rw [List.cons_append, readExponentDigits, if_pos (hD c List.mem_cons_self), List.foldlM_cons,
      checkedExponentStep]
    split_ifs
    · rfl
    · exact ih (fun d hd => hD d (List.mem_cons_of_mem c hd)) _

/-! ## The readers on a number of the grammar -/

theorem isDigit_of_one_le {c : Char} (h1 : '1' ≤ c) (h9 : c ≤ '9') : c.isDigit = true := by
  have h1' : (49 : ℕ) ≤ c.toNat := h1
  have h9' : c.toNat ≤ 57 := h9
  rw [isDigit_iff]
  omega

theorem ne_zero_of_one_le {c : Char} (h1 : '1' ≤ c) : c ≠ '0' := by
  rintro rfl
  exact absurd h1 (by decide)

theorem NumberLit.head_expRender (L : NumberLit) : ∀ c ∈ L.expRender.head?, c = 'e' ∨ c = 'E' := by
  intro c hc
  unfold expRender at hc
  split at hc
  · simp at hc
  · rename_i E _
    simp only [ExpField.render, List.head?_cons, Option.mem_def, Option.some.injEq] at hc
    exact hc ▸ E.marker_mem

/-- After the digits of a number comes a `'.'`, an `e`, an `E` or the end;
never a digit. -/
theorem NumberLit.head_expRender_isDigit (L : NumberLit) : ∀ c ∈ L.expRender.head?, c.isDigit = false := by
  intro c hc
  rcases L.head_expRender c hc with rfl | rfl <;> rfl

theorem NumberLit.head_fracRender_isDigit (L : NumberLit) :
    ∀ c ∈ (L.fracRender ++ L.expRender).head?, c.isDigit = false := by
  unfold fracRender
  split
  · exact L.head_expRender_isDigit
  · intro c hc
    simp only [List.cons_append, List.head?_cons, Option.mem_def, Option.some.injEq] at hc
    rw [← hc]
    rfl

/-- The integer part: a lone `0` is stepped over, other digits go through the
mantissa loop. -/
theorem readIntegerPart_append {I rest : List Char} (hI : IsIntPart I)
    (hrest : ∀ c ∈ rest.head?, c.isDigit = false) :
    readIntegerPart (I ++ rest) =
      ((if I = ['0'] then [] else I).foldlM checkedMantissaStep (0, 0)).map fun p => (p.1, p.2, rest) := by
  rcases hI with rfl | ⟨c, ds, rfl, h1, h9, hds⟩
  · rfl
  · have hc0 := ne_zero_of_one_le h1
    have hD : ∀ d ∈ c :: ds, d.isDigit = true := by
      intro d hd
      rcases List.mem_cons.mp hd with rfl | hd
      · exact isDigit_of_one_le h1 h9
      · exact hds d hd
    rw [if_neg (by simp [hc0]), List.cons_append, readIntegerPart, if_neg hc0, if_pos ⟨h1, h9⟩,
      ← List.cons_append, readMantissaDigits_eq_foldlM hD hrest, Option.map_map]
    rfl

/-- The fraction: without a point nothing is read; after one, its digits go
through the mantissa loop and are counted in `point_ofs`. -/
theorem readFraction_fracRender (L : NumberLit) (m : ℤ) (t : ℕ) :
    readFraction m t (L.fracRender ++ L.expRender) =
      (L.frac.foldlM checkedMantissaStep (m, t)).map fun p => (p.1, p.2, L.frac.length, L.expRender) := by
  have hstop := L.head_expRender_isDigit
  have hmarker := L.head_expRender
  unfold NumberLit.fracRender NumberLit.frac
  split
  · rename_i hF
    rw [hF]
    cases he : L.expRender with
    | nil => rfl
    | cons c cs =>
      have hc : c ≠ '.' := by
        rcases hmarker c (by simp [he]) with rfl | rfl <;> decide
      simp only [List.nil_append, readFraction, if_neg hc]
      rfl
  · rename_i F hF
    rw [hF]
    obtain ⟨hne, hdig⟩ := L.fracDigits_ok F hF
    obtain ⟨d, ds, rfl⟩ := List.exists_cons_of_ne_nil hne
    simp only [List.cons_append, readFraction, if_true, hdig d List.mem_cons_self]
    rw [← List.cons_append, readMantissaDigits_eq_foldlM hdig hstop, Nat.zero_add]
    rfl

/-- The exponent: its sign, and its digits through the exponent's loop. -/
theorem readExponent_expRender (L : NumberLit) :
    readExponent L.expRender = (L.expDigits.foldlM checkedExponentStep 0).map fun X => (L.expNeg, X, []) := by
  unfold NumberLit.expRender NumberLit.expDigits NumberLit.expNeg
  split
  · rfl
  · rename_i E _
    obtain ⟨hne, hdig⟩ := E.digits_ok
    obtain ⟨d, ds, hds⟩ := List.exists_cons_of_ne_nil hne
    have hd := hdig d (by simp [hds])
    have hsign : d ≠ '+' ∧ d ≠ '-' := by
      constructor <;> rintro rfl <;> exact absurd hd (by decide)
    have hread := @readExponentDigits_eq_foldlM _ [] hdig (by simp) 0
    rw [List.append_nil] at hread
    simp only [ExpField.render, readExponent, if_pos E.marker_mem]
    rw [hds] at hread
    rcases E.sign_mem with h | h | h
    · -- no sign: the sign's match falls through to its last case
      simp only [h, Option.toList, List.nil_append, hds]
      split
      · rename_i heq
        split at heq <;> simp_all
      · -- the sign's first two cases need a `+` or a `-` where a digit is
        rename_i c cs heq
        split at heq <;> split <;> simp_all
        rfl
    · simp only [h, Option.toList, List.cons_append, List.nil_append, hds, hd, if_true, hread, Option.map_map]
      rfl
    · simp only [h, Option.toList, List.cons_append, List.nil_append, hds, hd, if_true, hread, Option.map_map]
      rfl

/-! ## `ParseFixedPoint` on a number of the grammar -/

/-- The part of `ParseFixedPoint` after the string is read: the exponent
finalized with the point and the trailing zeros, the sign, the decimals, the
range checks on the exponent, the scaling loop and the last range check. -/
def finalizeFixedPoint (mantissa_sign : Bool) (mantissa : ℤ) (mantissa_tzeros point_ofs : ℕ)
    (exponent decimals : ℤ) : Option ℤ :=
  let exponent := exponent - point_ofs + mantissa_tzeros
  let mantissa := if mantissa_sign then -mantissa else mantissa
  let exponent := exponent + decimals
  if exponent < 0 then none
  else if 18 ≤ exponent then none
  else do
    let mantissa ← scaleChecked exponent.toNat mantissa
    if UPPER_BOUND < mantissa ∨ mantissa < -UPPER_BOUND then none else some mantissa

/-- `ParseFixedPoint` on a number of the grammar: the mantissa loop over its
digits, the exponent's loop, and the final steps. -/
theorem parseFixedPoint_render (L : NumberLit) (decimals : ℤ) :
    parseFixedPoint L.render decimals =
      (L.mantissaDigits.foldlM checkedMantissaStep (0, 0)).bind fun p =>
        (L.expDigits.foldlM checkedExponentStep 0).bind fun X =>
          finalizeFixedPoint L.neg p.1 p.2 L.frac.length (if L.expNeg then -X else X) decimals := by
  have hint := readIntegerPart_append L.intDigits_ok L.head_fracRender_isDigit
  have hfirst : ∀ c ∈ L.intDigits.head?, c ≠ '-' := by
    intro c hc
    rcases L.intDigits_ok with h | ⟨d, ds, h, h1, -, -⟩ <;> rw [h] at hc <;>
      simp only [List.head?_cons, Option.mem_def, Option.some.injEq] at hc <;> rw [← hc]
    · decide
    · rintro rfl
      exact absurd h1 (by decide)
  obtain ⟨c, cs, hcs⟩ : ∃ c cs, L.intDigits = c :: cs := by
    rcases L.intDigits_ok with h | ⟨d, ds, h, -⟩
    · exact ⟨'0', [], h⟩
    · exact ⟨d, ds, h⟩
  have hc : c ≠ '-' := hfirst c (by simp [hcs])
  have hsplit : L.render = (if L.neg then ['-'] else []) ++ (L.intDigits ++ (L.fracRender ++ L.expRender)) := by
    simp only [NumberLit.render, List.append_assoc]
  rw [hsplit]
  -- the sign: a `-` is taken, and the first digit is not
  cases hneg : L.neg <;>
    simp only [Bool.false_eq_true, if_false, if_true, List.nil_append, List.cons_append, parseFixedPoint, hcs,
      if_neg hc] <;>
    rw [← List.cons_append, ← hcs, hint] <;>
    -- then the three readers, each a fold over its part
    simp only [Option.bind_eq_bind, Option.bind_map, Function.comp_def, readFraction_fracRender, readExponent_expRender,
      NumberLit.mantissaDigits, List.foldlM_append, Option.bind_assoc, ne_eq, not_true_eq_false, if_false,
      finalizeFixedPoint, Bool.false_eq_true, if_true]

/-! ## The final steps -/

/-- The scaling loop's check is the same on both sides of zero. -/
theorem scaleChecked_neg (k : ℕ) (m : ℤ) : scaleChecked k (-m) = (scaleChecked k m).map Neg.neg := by
  induction k generalizing m with
  | zero => rfl
  | succ k ih =>
    simp only [scaleChecked]
    by_cases h : UPPER_BOUND / 10 < m ∨ m < -(UPPER_BOUND / 10)
    · rw [if_pos h, if_pos (by omega)]
      rfl
    · rw [if_neg h, if_neg (by omega), neg_mul, ih]

/-- What the final steps accept: an exponent from `0` to `17`, and the signed
mantissa scaled by it, in range. -/
theorem eq_of_finalizeFixedPoint {s : Bool} {M : ℤ} {T p : ℕ} {X d v : ℤ}
    (h : finalizeFixedPoint s M T p X d = some v) :
    ∃ e : ℕ, (e : ℤ) = X - p + T + d ∧ v = (if s then -M else M) * 10 ^ e ∧ |v| ≤ UPPER_BOUND := by
  simp only [finalizeFixedPoint] at h
  generalize (if s = true then -M else M) = m at h ⊢
  split_ifs at h with h0 h18
  obtain ⟨w, hw, hv⟩ := Option.bind_eq_some_iff.mp h
  split_ifs at hv with hr
  cases hv
  exact ⟨(X - p + T + d).toNat, by omega, eq_of_scaleChecked hw, abs_le.mpr ⟨by omega, by omega⟩⟩

/-- The final steps accept a mantissa whose scaling stays in range. -/
theorem finalizeFixedPoint_of_le (s : Bool) {M : ℤ} (hM : 0 ≤ M) {T p : ℕ} {X d : ℤ} {e : ℕ}
    (he : (e : ℤ) = X - p + T + d) (he18 : e < 18) (hle : M * 10 ^ e ≤ UPPER_BOUND) :
    finalizeFixedPoint s M T p X d = some ((if s then -M else M) * 10 ^ e) := by
  have hMe : 0 ≤ M * 10 ^ e := by positivity
  have hscale : scaleChecked e (if s then -M else M) = some ((if s then -M else M) * 10 ^ e) := by
    cases s
    · exact scaleChecked_of_le hM hle
    · rw [if_pos rfl, scaleChecked_neg, scaleChecked_of_le hM hle, Option.map_some, neg_mul]
  simp only [finalizeFixedPoint, ← he, if_neg (show ¬ (e : ℤ) < 0 by omega),
    if_neg (show ¬ (18 : ℤ) ≤ e by omega), Int.toNat_natCast, hscale, Option.bind_eq_bind, Option.bind_some]
  rw [if_neg]
  cases s <;> simp only [if_true, Bool.false_eq_true, if_false, neg_mul] <;> omega

/-! ## The value a number denotes -/

theorem NumberLit.mantissaDigits_isDigit (L : NumberLit) : ∀ c ∈ L.mantissaDigits, c.isDigit = true := by
  intro c hc
  rcases List.mem_append.mp hc with hc | hc
  · rcases L.intDigits_ok with h | ⟨d, ds, h, h1, h9, hds⟩
    · simp [h] at hc
    · rw [if_neg (by simp [h, ne_zero_of_one_le h1]), h] at hc
      rcases List.mem_cons.mp hc with rfl | hc
      · exact isDigit_of_one_le h1 h9
      · exact hds c hc
  · unfold NumberLit.frac at hc
    cases hF : L.fracDigits with
    | none => simp [hF] at hc
    | some F => exact (L.fracDigits_ok F hF).2 c (by simpa [hF] using hc)

theorem NumberLit.expDigits_isDigit (L : NumberLit) : ∀ c ∈ L.expDigits, c.isDigit = true := by
  unfold NumberLit.expDigits
  split
  · simp
  · rename_i E _
    exact E.digits_ok.2

theorem NumberLit.expValue_eq (L : NumberLit) :
    L.expValue = if L.expNeg then -(digitsValue L.expDigits : ℤ) else digitsValue L.expDigits := by
  unfold NumberLit.expValue NumberLit.expNeg NumberLit.expDigits ExpField.value
  split <;> simp

/-- The digits the mantissa loop reads are worth the integer part and the
fraction as one number. -/
theorem NumberLit.digitsValue_mantissaDigits (L : NumberLit) :
    digitsValue L.mantissaDigits = digitsValue L.intDigits * 10 ^ L.frac.length + digitsValue L.frac := by
  unfold NumberLit.mantissaDigits
  rw [digitsValue_append]
  split_ifs with h
  · simp [h, digitsValue, digitValue]
  · rfl

/-- A number's value, scaled by `10 ^ decimals`: its sign, the mantissa the
unchecked loop gives, and ten to the exponent the final steps compute. -/
theorem NumberLit.value_mul_pow (L : NumberLit) (decimals : ℕ) :
    L.value * 10 ^ decimals = (if L.neg then -1 else 1) * ((L.mantissaDigits.foldl mantissaStep (0, 0)).1 : ℚ) *
      (10 : ℚ) ^ (L.expValue - L.frac.length + (L.mantissaDigits.foldl mantissaStep (0, 0)).2 + decimals) := by
  have hMT := foldl_mantissaStep_value (0, 0) L.mantissaDigits_isDigit
  rw [L.digitsValue_mantissaDigits] at hMT
  simp only [zero_mul, zero_add] at hMT
  have hMTq : ((L.mantissaDigits.foldl mantissaStep (0, 0)).1 : ℚ) * 10 ^ (L.mantissaDigits.foldl mantissaStep (0, 0)).2 =
      digitsValue L.intDigits * 10 ^ L.frac.length + digitsValue L.frac := by
    exact_mod_cast hMT
  have h10 : (10 : ℚ) ≠ 0 := by norm_num
  have hn : (10 : ℚ) ^ L.frac.length ≠ 0 := pow_ne_zero _ h10
  rw [NumberLit.value, zpow_add₀ h10, zpow_add₀ h10, zpow_sub₀ h10, zpow_natCast, zpow_natCast, zpow_natCast]
  calc _ = (if L.neg then -1 else 1 : ℚ) *
          (((digitsValue L.intDigits : ℚ) * 10 ^ L.frac.length + digitsValue L.frac) / 10 ^ L.frac.length) *
          10 ^ L.expValue * 10 ^ decimals := by
        rw [add_div, mul_div_cancel_right₀ _ hn]
    _ = _ := by
        rw [← hMTq]
        ring

theorem signed_intCast (b : Bool) (m : ℤ) : ((if b then -m else m : ℤ) : ℚ) = (if b then -1 else 1) * (m : ℚ) := by
  cases b <;> simp

/-- An integer that is `m * 10 ^ z`, with `m` no multiple of ten, has `0 ≤ z`:
the parser never needs to divide. -/
theorem nonneg_of_intCast_eq_mul_zpow {v m : ℤ} (hm : ¬ (10 : ℤ) ∣ m) {z : ℤ} (h : (v : ℚ) = m * 10 ^ z) :
    0 ≤ z := by
  by_contra hz
  obtain ⟨k, hk⟩ : ∃ k : ℕ, z = -((k + 1 : ℕ) : ℤ) := ⟨(-z - 1).toNat, by omega⟩
  have hq : (v : ℚ) * 10 ^ (k + 1) = m := by
    rw [h, hk, zpow_neg, zpow_natCast, mul_assoc, inv_mul_cancel₀ (pow_ne_zero _ (by norm_num)), mul_one]
  have hmul : v * 10 ^ (k + 1) = m := by exact_mod_cast hq
  exact hm ⟨v * 10 ^ k, by rw [← hmul]; ring⟩

/-! ## What the parser accepts -/

/-- A digit loop that stops at a non-digit has read the digit it started on. -/
theorem ne_nil_of_split {c : Char} {cs D rest : List Char} (hc : c.isDigit = true) (h : c :: cs = D ++ rest)
    (hstop : ∀ x ∈ rest.head?, x.isDigit = false) : D ≠ [] := by
  rintro rfl
  rw [List.nil_append] at h
  subst h
  exact absurd (hstop c rfl) (by simp [hc])

/-- The mantissa loop reads digits up to a non-digit or the end. -/
theorem readMantissaDigits_split {l rest : List Char} {m m' : ℤ} {t t' n n' : ℕ}
    (h : readMantissaDigits l m t n = some (m', t', n', rest)) :
    ∃ D, l = D ++ rest ∧ (∀ c ∈ D, c.isDigit = true) ∧ ∀ c ∈ rest.head?, c.isDigit = false := by
  induction l generalizing m t n with
  | nil =>
    simp only [readMantissaDigits, Option.some.injEq, Prod.mk.injEq] at h
    obtain ⟨-, -, -, rfl⟩ := h
    exact ⟨[], rfl, by simp, by simp⟩
  | cons c cs ih =>
    rw [readMantissaDigits] at h
    split_ifs at h with hc
    · obtain ⟨r, -, hr⟩ := Option.bind_eq_some_iff.mp h
      obtain ⟨D, rfl, hD, hstop⟩ := ih hr
      exact ⟨c :: D, rfl, List.forall_mem_cons.mpr ⟨hc, hD⟩, hstop⟩
    · cases h
      exact ⟨[], rfl, by simp, by simpa using hc⟩

theorem readExponentDigits_split {l rest : List Char} {x y : ℤ}
    (h : readExponentDigits l x = some (y, rest)) :
    ∃ D, l = D ++ rest ∧ (∀ c ∈ D, c.isDigit = true) ∧ ∀ c ∈ rest.head?, c.isDigit = false := by
  induction l generalizing x with
  | nil =>
    simp only [readExponentDigits, Option.some.injEq, Prod.mk.injEq] at h
    obtain ⟨-, rfl⟩ := h
    exact ⟨[], rfl, by simp, by simp⟩
  | cons c cs ih =>
    rw [readExponentDigits] at h
    split_ifs at h with hc
    · obtain ⟨D, rfl, hD, hstop⟩ := ih h
      exact ⟨c :: D, rfl, List.forall_mem_cons.mpr ⟨hc, hD⟩, hstop⟩
    · cases h
      exact ⟨[], rfl, by simp, by simpa using hc⟩

/-- The exponent reads nothing, or a marker, a sign and at least one digit. -/
theorem readExponent_split {s2 s3 : List Char} {b : Bool} {x : ℤ} (h : readExponent s2 = some (b, x, s3)) :
    s3 = s2 ∨ ∃ E : ExpField, s2 = E.render ++ s3 := by
  cases s2 with
  | nil =>
    cases h
    exact Or.inl rfl
  | cons c cs =>
    simp only [readExponent] at h
    split_ifs at h with hc
    · split at h
      · cases h
      · rename_i d ds hds
        obtain ⟨sign, hsign, hcs⟩ : ∃ sign : Option Char,
            (sign = none ∨ sign = some '+' ∨ sign = some '-') ∧ cs = sign.toList ++ d :: ds := by
          split at hds
          · exact ⟨some '+', by simp, by simp_all⟩
          · exact ⟨some '-', by simp, by simp_all⟩
          · exact ⟨none, by simp, by simp_all⟩
        split_ifs at h with hd
        obtain ⟨⟨y, rest⟩, hr, hr'⟩ := Option.map_eq_some_iff.mp h
        simp only [Prod.mk.injEq] at hr'
        obtain ⟨-, -, rfl⟩ := hr'
        obtain ⟨D, hD, hdig, hstop⟩ := readExponentDigits_split hr
        refine Or.inr ⟨⟨c, sign, D, hc, hsign, ⟨ne_nil_of_split hd hD hstop, hdig⟩⟩, ?_⟩
        rw [hcs, hD]
        simp [ExpField.render]
    · cases h
      exact Or.inl rfl

/-- The integer part reads a lone `0`, or digits from a `1`..`9`. -/
theorem readIntegerPart_split {s s1 : List Char} {m : ℤ} {t : ℕ} (h : readIntegerPart s = some (m, t, s1)) :
    ∃ I, s = I ++ s1 ∧ IsIntPart I := by
  cases s with
  | nil => cases h
  | cons c cs =>
    simp only [readIntegerPart] at h
    split_ifs at h with h0 h19
    · cases h
      exact ⟨['0'], by rw [h0]; rfl, Or.inl rfl⟩
    · obtain ⟨⟨a, b, k, rest⟩, hr, hr'⟩ := Option.map_eq_some_iff.mp h
      simp only [Prod.mk.injEq] at hr'
      obtain ⟨-, -, rfl⟩ := hr'
      obtain ⟨D, hD, hdig, hstop⟩ := readMantissaDigits_split hr
      obtain ⟨d, ds, rfl⟩ := List.exists_cons_of_ne_nil (ne_nil_of_split (isDigit_of_one_le h19.1 h19.2) hD hstop)
      have hdc : d = c := (List.cons.inj hD).1.symm
      subst hdc
      exact ⟨d :: ds, hD, Or.inr ⟨d, ds, rfl, h19.1, h19.2, fun x hx => hdig x (List.mem_cons_of_mem d hx)⟩⟩

/-- The fraction reads nothing, or a point and at least one digit. -/
theorem readFraction_split {m m' : ℤ} {t t' k : ℕ} {s1 s2 : List Char}
    (h : readFraction m t s1 = some (m', t', k, s2)) :
    s2 = s1 ∨ ∃ F, IsDigits F ∧ s1 = '.' :: F ++ s2 := by
  cases s1 with
  | nil =>
    cases h
    exact Or.inl rfl
  | cons c cs =>
    simp only [readFraction] at h
    split_ifs at h with hc
    · split at h
      · cases h
      · rename_i d ds
        split_ifs at h with hd
        obtain ⟨D, hD, hdig, hstop⟩ := readMantissaDigits_split h
        exact Or.inr ⟨D, ⟨ne_nil_of_split hd hD hstop, hdig⟩, by rw [hc, hD, List.cons_append]⟩
    · cases h
      exact Or.inl rfl

/-- What `ParseFixedPoint` reads before its final steps: an optional `-`, the
integer part, the fraction and the exponent, up to the end of the string. -/
theorem parseFixedPoint_reads {val : List Char} {decimals v : ℤ} (h : parseFixedPoint val decimals = some v) :
    ∃ (neg : Bool) (s : List Char) (p1 : ℤ × ℕ × List Char) (p2 : ℤ × ℕ × ℕ × List Char)
      (p3 : Bool × ℤ × List Char), val = (if neg then ['-'] else []) ++ s ∧ readIntegerPart s = some p1 ∧
      readFraction p1.1 p1.2.1 p1.2.2 = some p2 ∧ readExponent p2.2.2.2 = some p3 ∧ p3.2.2 = [] := by
  cases val with
  | nil => simp [parseFixedPoint, readIntegerPart] at h
  | cons c cs =>
    -- both signs read the rest the same way
    by_cases hc : c = '-' <;> simp only [parseFixedPoint, hc, if_true, if_false] at h <;>
      obtain ⟨p1, h1, h⟩ := Option.bind_eq_some_iff.mp h <;>
      obtain ⟨p2, h2, h⟩ := Option.bind_eq_some_iff.mp h <;>
      obtain ⟨p3, h3, h⟩ := Option.bind_eq_some_iff.mp h <;>
      have hs3 : p3.2.2 = [] := by
        by_contra hne
        rw [if_pos hne] at h
        cases h
    · exact ⟨true, cs, p1, p2, p3, by rw [hc]; rfl, h1, h2, h3, hs3⟩
    · exact ⟨false, c :: cs, p1, p2, p3, rfl, h1, h2, h3, hs3⟩

/-- `ParseFixedPoint` accepts only numbers of the grammar. -/
theorem exists_render_of_parseFixedPoint {val : List Char} {decimals v : ℤ}
    (h : parseFixedPoint val decimals = some v) : ∃ L : NumberLit, L.render = val := by
  obtain ⟨neg, s, ⟨m, t, s1⟩, ⟨m', t', k, s2⟩, ⟨b, x, s3⟩, rfl, h1, h2, h3, hs3⟩ := parseFixedPoint_reads h
  dsimp only at h2 h3 hs3
  subst hs3
  obtain ⟨I, rfl, hI⟩ := readIntegerPart_split h1
  -- the fraction and the exponent, each there or not
  obtain ⟨fd, hfd, rfl⟩ : ∃ fd : Option (List Char), (∀ F ∈ fd, IsDigits F) ∧
      s1 = fd.elim [] (List.cons '.') ++ s2 := by
    rcases readFraction_split h2 with rfl | ⟨F, hF, rfl⟩
    · exact ⟨none, by simp, rfl⟩
    · exact ⟨some F, by simpa using hF, rfl⟩
  obtain ⟨ed, rfl⟩ : ∃ ed : Option ExpField, s2 = ed.elim [] ExpField.render := by
    rcases readExponent_split h3 with rfl | ⟨E, rfl⟩
    · exact ⟨none, rfl⟩
    · exact ⟨some E, List.append_nil _⟩
  refine ⟨⟨neg, I, fd, ed, hI, hfd⟩, ?_⟩
  cases fd <;> cases ed <;> simp [NumberLit.render, NumberLit.fracRender, NumberLit.expRender]

/-! ## Sound and complete on the grammar -/

/-- What `ParseFixedPoint` returns for a number of the grammar is the number's
value in units of `10 ^ -decimals`, and in range. -/
theorem parseFixedPoint_render_eq {L : NumberLit} {decimals : ℕ} {v : ℤ}
    (h : parseFixedPoint L.render decimals = some v) :
    (v : ℚ) = L.value * 10 ^ decimals ∧ |v| ≤ UPPER_BOUND := by
  rw [parseFixedPoint_render] at h
  obtain ⟨p, hp, h⟩ := Option.bind_eq_some_iff.mp h
  obtain ⟨X, hX, h⟩ := Option.bind_eq_some_iff.mp h
  obtain ⟨e, he, rfl, hUB⟩ := eq_of_finalizeFixedPoint h
  refine ⟨?_, hUB⟩
  have hp' := eq_of_foldlM_checkedMantissaStep hp
  have hX' := eq_of_foldlM_checkedExponentStep L.expDigits_isDigit hX
  rw [zero_mul, zero_add] at hX'
  -- the exponent the final steps scale by is the exponent of the value
  have hexp : L.expValue - L.frac.length + (p.2 : ℤ) + decimals = e := by
    rw [he, L.expValue_eq, hX']
  rw [L.value_mul_pow, ← hp', hexp, zpow_natCast, ← signed_intCast]
  push_cast
  rfl

/-- `ParseFixedPoint` accepts every number of the grammar whose value is a
nonzero integer count of `10 ^ -decimals` in range, if its exponent has at most
17 digits. -/
theorem parseFixedPoint_render_of_eq {L : NumberLit} {decimals : ℕ} (hexp : L.expDigits.length ≤ 17)
    {v : ℤ} (hv0 : v ≠ 0) (hv : (v : ℚ) = L.value * 10 ^ decimals) (hUB : |v| ≤ UPPER_BOUND) :
    parseFixedPoint L.render decimals = some v := by
  have hM0 := @le_foldl_mantissaStep (0, 0) le_rfl _ L.mantissaDigits_isDigit
  have hnd := @foldl_mantissaStep_not_dvd (0, 0) (Or.inl rfl) _ L.mantissaDigits_isDigit
  have hfold := @foldlM_checkedMantissaStep_of_le (0, 0) le_rfl _ L.mantissaDigits_isDigit
  rw [L.value_mul_pow, ← signed_intCast] at hv
  generalize L.mantissaDigits.foldl mantissaStep (0, 0) = q at hv hM0 hnd hfold
  obtain ⟨M, T⟩ := q
  dsimp only at hv hM0 hnd hfold
  -- the mantissa is no multiple of ten, so the exponent is not negative
  have hm : ¬ (10 : ℤ) ∣ (if L.neg then -M else M) := by
    rcases hnd with rfl | hnd
    · exact absurd (by exact_mod_cast (show (v : ℚ) = 0 by simp [hv])) hv0
    · cases L.neg <;> simpa using hnd
  obtain ⟨e, he⟩ : ∃ e : ℕ, (e : ℤ) = L.expValue - L.frac.length + T + decimals :=
    ⟨_, Int.toNat_of_nonneg (nonneg_of_intCast_eq_mul_zpow hm hv)⟩
  rw [← he, zpow_natCast] at hv
  have hvZ : v = (if L.neg then -M else M) * 10 ^ e := by exact_mod_cast hv
  have hle : M * 10 ^ e ≤ UPPER_BOUND := by
    have habs : |v| = M * 10 ^ e := by
      rw [hvZ]
      cases L.neg <;> simp [hM0]
    rwa [← habs]
  have hM1 : 1 ≤ M := by
    rcases hM0.lt_or_eq with hM | rfl
    · exact hM
    · simp [hvZ] at hv0
  have hpow : (10 : ℤ) ^ e ≤ M * 10 ^ e := le_mul_of_one_le_left (by positivity) hM1
  have hMUB : M ≤ UPPER_BOUND := (le_mul_of_one_le_right hM0 (one_le_pow₀ (by norm_num))).trans hle
  have he18 : e < 18 := by
    have h18 : (10 : ℤ) ^ e < 10 ^ 18 := by
      calc (10 : ℤ) ^ e ≤ UPPER_BOUND := hpow.trans hle
        _ < 10 ^ 18 := by simp [UPPER_BOUND]
    exact (pow_lt_pow_iff_right₀ (by norm_num)).mp h18
  -- the exponent has at most 17 digits, so its loop never overflows
  have hX := foldlM_checkedExponentStep_of_lt le_rfl L.expDigits_isDigit (by
    have hlt : (digitsValue L.expDigits : ℤ) < 10 ^ L.expDigits.length := by
      exact_mod_cast digitsValue_lt_pow L.expDigits_isDigit
    have h17 : (10 : ℤ) ^ L.expDigits.length ≤ 10 ^ 17 := pow_le_pow_right₀ (by norm_num) hexp
    rw [zero_mul, zero_add]
    calc (digitsValue L.expDigits : ℤ) < 10 ^ 17 := hlt.trans_le h17
      _ < 10 ^ 18 := by norm_num)
  rw [zero_mul, zero_add] at hX
  rw [L.expValue_eq] at he
  rw [parseFixedPoint_render, hfold hMUB, Option.bind_some, hX, Option.bind_some,
    finalizeFixedPoint_of_le L.neg hM0 he he18 hle, hvZ]

/-! ## The grammar of `ParseFixedPoint` -/

theorem parseFixedPoint_grammar (val : List Char) (decimals : ℕ) :
    (∀ v, parseFixedPoint val decimals = some v →
      (∃ L : NumberLit, L.render = val) ∧
      (∀ L : NumberLit, L.render = val → (v : ℚ) = L.value * 10 ^ decimals) ∧ |v| ≤ UPPER_BOUND) ∧
    (∀ L : NumberLit, L.render = val → L.expDigits.length ≤ 17 →
      ∀ v : ℤ, v ≠ 0 → (v : ℚ) = L.value * 10 ^ decimals → |v| ≤ UPPER_BOUND →
      parseFixedPoint val decimals = some v) := by
  refine ⟨fun v h => ⟨exists_render_of_parseFixedPoint h, ?_, ?_⟩, ?_⟩
  · rintro L rfl
    exact (parseFixedPoint_render_eq h).1
  · obtain ⟨L, rfl⟩ := exists_render_of_parseFixedPoint h
    exact (parseFixedPoint_render_eq h).2
  · rintro L rfl hexp v hv0 hv hUB
    exact parseFixedPoint_render_of_eq hexp hv0 hv hUB

/-- `1e-4` at eight decimals is `10000`. -/
theorem parseFixedPoint_grammar_one_e_minus_four :
    parseFixedPoint ['1', 'e', '-', '4'] 8 = some 10000 :=
  (parseFixedPoint_grammar ['1', 'e', '-', '4'] 8).2
    ⟨false, ['1'], none, some ⟨'e', some '-', ['4'], Or.inl rfl, Or.inr (Or.inr rfl),
      ⟨by simp, List.forall_mem_singleton.mpr rfl⟩⟩,
      Or.inr ⟨'1', [], rfl, by decide, by decide, by simp⟩, by simp⟩
    rfl (by decide) 10000 (by decide)
    (by norm_num [NumberLit.value, NumberLit.expValue, ExpField.value, NumberLit.frac, digitsValue, digitValue,
      show '1'.toNat - 48 = 1 from rfl, show '4'.toNat - 48 = 4 from rfl])
    (by decide)

end XPChain
