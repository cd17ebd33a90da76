import XPChain.Primitives.Transaction
import XPChain.Lib.Decimal
import Mathlib.Data.List.TakeWhile

/-!
# Amounts as strings of coins

`FormatMoney` and `ParseMoney` of `utilmoneystr.cpp`.  `FormatMoney` prints an
amount as `"%d.%04d"` coins, the four decimals of `COIN = 10^4`, and trims
trailing zeros of the fraction down to two decimals.  `ParseMoney` reads
optional spaces, the digits of the coins, and after a `'.'` at most four
decimals with the multiplier `CENT * 10` that it divides by ten per digit; only
spaces may follow.

Strings are lists of characters.  `ParseMoney` takes a C string: the
`std::string` overload passes `c_str()`, so the characters after a NUL are
never read.

## Main definitions

* `isspace` — the "C" locale's spaces.
* `FormatMoney`, with its trim loop `nTrimFrom`.
* `ParseMoney`, with its loops `parseWhole` and `parseFraction`.

## Main statements

* `FormatMoney_eq` — what `FormatMoney` prints: the sign, the coins, and two to
  four decimals worth the remainder.
* `ParseMoney_append` — `ParseMoney` on spaces, digits, a fraction and spaces.
* `ParseMoney_eq_some` — every string `ParseMoney` accepts has that shape, and
  its value is what the digits denote.
* `parseMoney_formatMoney_roundTrip` — a non-negative amount below `10^14`
  coins reads back from its printed form, and every accepted string is worth
  its decimal value and prints to a string that reads back.
-/

set_option autoImplicit false

namespace XPChain

open Decimal

/-- `isspace` in the "C" locale: the space and `\t`, `\n`, `\v`, `\f`, `\r`. -/
def isspace (c : Char) : Bool := c == ' ' || (9 ≤ c.toNat && c.toNat ≤ 13)

/-! ## `FormatMoney` -/

/-- The trim loop of `FormatMoney`,
`for (int i = str.size()-1; (str[i] == '0' && isdigit(str[i-2])); --i) ++nTrim;`,
as the count it leaves in `nTrim`.  On a string `"%d.%04d"` prints the loop
stops at the `'.'` before `i` gets below `2`. -/
def nTrimFrom (str : List Char) : ℕ → ℕ
  | i + 2 =>
    if str.getD (i + 2) ' ' = '0' ∧ (str.getD i ' ').isDigit then nTrimFrom str (i + 1) + 1 else 0
  | _ => 0

/-- The right-trim of `FormatMoney`: the `nTrim` characters the loop counts
erased from the end, `if (nTrim) str.erase(str.size()-nTrim, nTrim);`. -/
def rightTrimZeros (str : List Char) : List Char :=
  let nTrim := nTrimFrom str (str.length - 1)
  if nTrim ≠ 0 then str.take (str.length - nTrim) else str

/-- `FormatMoney(n)`: `"%d.%04d"` of the absolute value in coins, right-trimmed,
and `'-'` in front of a negative amount. -/
def FormatMoney (n : CAmount) : List Char :=
  let n_abs := n.natAbs
  let quotient := n_abs / COIN.toNat
  let remainder := n_abs % COIN.toNat
  let str := rightTrimZeros (toDigits quotient ++ '.' :: List.leftpad 4 '0' (toDigits remainder))
  if n < 0 then '-' :: str else str

/-! ## `ParseMoney` -/

/-- The fraction loop of `ParseMoney`,
`while (isdigit(*p) && (nMult > 0)) { nUnits += nMult * (*p++ - '0'); nMult /= 10; }`:
the units read and the characters left. -/
def parseFraction : List Char → ℕ → ℕ → ℕ × List Char
  | c :: cs, nMult, nUnits =>
    if c.isDigit ∧ 0 < nMult then parseFraction cs (nMult / 10) (nUnits + nMult * digitValue c)
    else (nUnits, c :: cs)
  | [], _, nUnits => (nUnits, [])

/-- The main loop of `ParseMoney` from the first character after the leading
spaces, `for (; *p; p++)`: digits go to `strWhole` up to the end, a space
(`break`), or a `'.'` followed by the fraction loop with `nMult = CENT * 10`
(`break`); any other character returns `false`.  It gives `strWhole`,
`nUnits` and the characters left for the trailing check. -/
def parseWhole : List Char → Option (List Char × ℕ × List Char)
  | [] => some ([], 0, [])
  | c :: cs =>
    if c = '.' then some ([], parseFraction cs (CENT * 10).toNat 0)
    else if isspace c then some ([], 0, c :: cs)
    else if !c.isDigit then none
    else (parseWhole cs).map fun r => (c :: r.1, r.2)

/-- `ParseMoney(str, nRet)`, `none` where it returns `false`.  The string is
read up to its first NUL, and `atoi64` of the digits in `strWhole` is their
value. -/
def ParseMoney (str : List Char) : Option CAmount :=
  let p := (str.takeWhile (· != '\x00')).dropWhile isspace
  match parseWhole p with
  | none => none
  | some (strWhole, nUnits, p) =>
    if !p.all isspace then none
    else if strWhole.length > 14 then none
    else if (nUnits : CAmount) < 0 ∨ (nUnits : CAmount) > COIN then none
    else
      let nWhole : CAmount := digitsValue strWhole
      some (nWhole * COIN + nUnits)

/-! ## The loops of `ParseMoney` -/

theorem isspace_of_isDigit {c : Char} (hc : c.isDigit = true) : isspace c = false := by
  have h := (isDigit_iff c).mp hc
  have hsp : c ≠ ' ' := by
    rintro rfl
    simp at h
  simp only [isspace, Bool.or_eq_false_iff, beq_eq_false_iff_ne, ne_eq, hsp, not_false_eq_true,
    Bool.and_eq_false_iff, decide_eq_false_iff_not, Nat.not_le, true_and]
  omega

theorem ne_dot_of_isDigit {c : Char} (hc : c.isDigit = true) : c ≠ '.' := by
  rintro rfl
  exact absurd hc (by decide)

@[simp] theorem parseFraction_zero (l : List Char) (nUnits : ℕ) :
    parseFraction l 0 nUnits = (nUnits, l) := by
  cases l <;> simp [parseFraction]

/-- The fraction loop with `nMult = 10 ^ j` reads a run `F` of at most `j + 1`
digits, stopping at the first other character or after `j + 1` of them, and
adds their value scaled to `j + 1` decimals. -/
theorem parseFraction_append {F : List Char} (hF : ∀ c ∈ F, c.isDigit = true) (rest : List Char)
    {j : ℕ} (hlen : F.length ≤ j + 1) (hstop : F.length = j + 1 ∨ ∀ c ∈ rest.head?, c.isDigit = false)
    (nUnits : ℕ) :
    parseFraction (F ++ rest) (10 ^ j) nUnits = (nUnits + digitsValue F * 10 ^ (j + 1 - F.length), rest) := by
  induction F generalizing j nUnits with
  | nil =>
    simp only [List.length_nil, Nat.right_eq_add, Nat.add_eq_zero_iff, one_ne_zero, and_false,
      false_or] at hstop
    cases rest with
    | nil => simp [parseFraction, digitsValue]
    | cons c cs =>
      have hc : c.isDigit = false := hstop c rfl
      simp [parseFraction, hc, digitsValue]
  | cons c F ih =>
    have hc : c.isDigit = true := hF c List.mem_cons_self
    have hF' : ∀ d ∈ F, d.isDigit = true := fun d hd => hF d (List.mem_cons_of_mem c hd)
    rw [List.cons_append, parseFraction, if_pos ⟨hc, by positivity⟩]
    cases j with
    | zero =>
      -- one decimal left: the multiplier drops to `0` and the loop stops
      have hnil : F = [] := List.eq_nil_of_length_eq_zero (by simpa using hlen)
      subst hnil
      simp [digitsValue]
    | succ j =>
      rw [pow_succ, Nat.mul_div_cancel _ (by decide)]
      rw [ih hF' (by simpa using hlen) (by simpa using hstop), digitsValue_cons, List.length_cons]
      have hsplit : 10 ^ (j + 1) = 10 ^ F.length * 10 ^ (j + 1 - F.length) := by
        rw [← pow_add, Nat.add_sub_cancel' (by simpa using hlen)]
      rw [Prod.mk.injEq, show j + 1 + 1 - (F.length + 1) = j + 1 - F.length by omega]
      refine ⟨?_, rfl⟩
      rw [← pow_succ, hsplit]
      ring

/-- Every string starts with a run of at most `k` digits that is either `k`
long or followed by no digit. -/
theorem exists_digits_prefix (l : List Char) (k : ℕ) :
    ∃ F rest, l = F ++ rest ∧ (∀ c ∈ F, c.isDigit = true) ∧ F.length ≤ k ∧
      (F.length = k ∨ ∀ c ∈ rest.head?, c.isDigit = false) := by
  induction l generalizing k with
  | nil => exact ⟨[], [], rfl, by simp, by simp, Or.inr (by simp)⟩
  | cons c cs ih =>
    cases k with
    | zero => exact ⟨[], c :: cs, rfl, by simp, le_rfl, Or.inl rfl⟩
    | succ k =>
      cases hc : c.isDigit with
      | false => exact ⟨[], c :: cs, rfl, by simp, by simp, Or.inr (by simpa using hc)⟩
      | true =>
        obtain ⟨F, rest, hcs, hF, hlen, hstop⟩ := ih k
        refine ⟨c :: F, rest, by rw [hcs, List.cons_append], ?_, by simpa using hlen, by simpa using hstop⟩
        intro d hd
        rcases List.mem_cons.mp hd with rfl | hd
        · exact hc
        · exact hF d hd

/-- The whole-coins loop takes a run of digits into `strWhole` and goes on. -/
theorem parseWhole_append {W : List Char} (hW : ∀ c ∈ W, c.isDigit = true) (p : List Char) :
    parseWhole (W ++ p) = (parseWhole p).map fun r => (W ++ r.1, r.2) := by
  induction W with
  | nil => simp
  | cons c W ih =>
    have hc : c.isDigit = true := hW c List.mem_cons_self
    rw [List.cons_append, parseWhole, if_neg (ne_dot_of_isDigit hc), if_neg (by simp [isspace_of_isDigit hc]),
      if_neg (by simp [hc]), ih fun d hd => hW d (List.mem_cons_of_mem c hd), Option.map_map]
    rfl

/-- What the whole-coins loop returns: the leading digits as `strWhole`, and
after them the end, a space, or a `'.'` and the fraction loop. -/
theorem parseWhole_eq_some {p W rest : List Char} {nUnits : ℕ}
    (h : parseWhole p = some (W, nUnits, rest)) :
    (∀ c ∈ W, c.isDigit = true) ∧
      (p = W ∧ nUnits = 0 ∧ rest = [] ∨
        p = W ++ rest ∧ nUnits = 0 ∧ (∃ c ∈ rest.head?, isspace c = true) ∨
        ∃ cs, p = W ++ '.' :: cs ∧ parseFraction cs (CENT * 10).toNat 0 = (nUnits, rest)) := by
  induction p generalizing W with
  | nil =>
    simp only [parseWhole, Option.some.injEq, Prod.mk.injEq] at h
    obtain ⟨rfl, rfl, rfl⟩ := h
    exact ⟨by simp, Or.inl ⟨rfl, rfl, rfl⟩⟩
  | cons c cs ih =>
    rw [parseWhole] at h
    split_ifs at h with hdot hsp hdig
    · -- a `'.'`: the fraction loop follows
      simp only [Option.some.injEq, Prod.mk.injEq] at h
      obtain ⟨rfl, hfrac⟩ := h
      exact ⟨by simp, Or.inr (Or.inr ⟨cs, by rw [hdot]; rfl, hfrac⟩)⟩
    · -- a space ends the number
      simp only [Option.some.injEq, Prod.mk.injEq] at h
      obtain ⟨rfl, rfl, rfl⟩ := h
      exact ⟨by simp, Or.inr (Or.inl ⟨rfl, rfl, c, rfl, hsp⟩)⟩
    · -- a digit goes to `strWhole`
      have hc : c.isDigit = true := by simpa using hdig
      obtain ⟨⟨W', r⟩, hcs, heq⟩ := Option.map_eq_some_iff.mp h
      simp only [Prod.mk.injEq] at heq
      obtain ⟨rfl, rfl⟩ := heq
      obtain ⟨hW', hcases⟩ := ih hcs
      refine ⟨?_, ?_⟩
      · intro d hd
        rcases List.mem_cons.mp hd with rfl | hd
        · exact hc
        · exact hW' d hd
      · rcases hcases with ⟨rfl, h0, hr⟩ | ⟨rfl, h0, hr⟩ | ⟨ds, rfl, hfrac⟩
        · exact Or.inl ⟨rfl, h0, hr⟩
        · exact Or.inr (Or.inl ⟨rfl, h0, hr⟩)
        · exact Or.inr (Or.inr ⟨ds, rfl, hfrac⟩)

/-! ## What `FormatMoney` prints -/

/-- The trim loop on `"%d.%04d"` with decimals `a b c d`: it erases `d` if it is
a zero and then `c` if it is one too, and stops at `b`, whose look-back is the
`'.'`. -/
theorem nTrimFrom_eq (Q : List Char) {a b : Char} (c d : Char) (ha : a.isDigit = true)
    (hb : b.isDigit = true) :
    nTrimFrom (Q ++ ['.', a, b, c, d]) (Q.length + 4) = if d = '0' then (if c = '0' then 2 else 1) else 0 := by
  have hget : ∀ k, (Q ++ ['.', a, b, c, d]).getD (Q.length + k) ' ' = ['.', a, b, c, d].getD k ' ' := by
    intro k
    rw [List.getD_append_right _ _ _ _ (Nat.le_add_right _ _), Nat.add_sub_cancel_left]
  have hpoint : (Q ++ ['.', a, b, c, d]).getD Q.length ' ' = '.' := hget 0
  have hdot : ('.' : Char).isDigit = false := by decide
  -- three rounds of the loop, at the last decimal, the one before, and `b`
  rw [show Q.length + 4 = Q.length + 2 + 2 from rfl, nTrimFrom]
  rw [show Q.length + 2 + 1 = Q.length + 1 + 2 from rfl, nTrimFrom]
  rw [show Q.length + 1 + 1 = Q.length + 0 + 2 from rfl, nTrimFrom]
  simp only [Nat.add_assoc, hget, Nat.add_zero, hpoint]
  simp only [List.getD_cons_succ, List.getD_cons_zero, ha, hb, hdot, and_true, Bool.false_eq_true, and_false,
    if_false]
  split_ifs <;> rfl

/-- `"%d.%04d"` right-trimmed keeps the first two decimals, and the last two
unless they are zeros. -/
theorem rightTrimZeros_eq (Q : List Char) {a b : Char} (c d : Char) (ha : a.isDigit = true)
    (hb : b.isDigit = true) :
    rightTrimZeros (Q ++ ['.', a, b, c, d]) =
      Q ++ '.' :: (if d = '0' then (if c = '0' then [a, b] else [a, b, c]) else [a, b, c, d]) := by
  have hlen : (Q ++ ['.', a, b, c, d]).length - 1 = Q.length + 4 := by simp
  rw [rightTrimZeros, hlen, nTrimFrom_eq Q c d ha hb]
  by_cases hd : d = '0' <;> by_cases hc : c = '0' <;> simp [hd, hc, List.take_append]

/-- What `FormatMoney` prints: the sign, the coins, a `'.'` and two to four
decimals that, padded back to four places, are worth the remainder. -/
theorem FormatMoney_eq (n : CAmount) :
    ∃ F, FormatMoney n = (if n < 0 then ['-'] else []) ++ toDigits (n.natAbs / 10000) ++ '.' :: F ∧
      (∀ c ∈ F, c.isDigit = true) ∧ 2 ≤ F.length ∧ F.length ≤ 4 ∧
      digitsValue F * 10 ^ (4 - F.length) = n.natAbs % 10000 := by
  have hlen : (List.leftpad 4 '0' (toDigits (n.natAbs % 10000))).length = 4 :=
    length_leftpad_toDigits (by decide) (Nat.mod_lt _ (by decide))
  have hdig : ∀ c ∈ List.leftpad 4 '0' (toDigits (n.natAbs % 10000)), c.isDigit = true :=
    fun c hc => isDigit_of_mem_leftpad_toDigits hc
  have hval : digitsValue (List.leftpad 4 '0' (toDigits (n.natAbs % 10000))) = n.natAbs % 10000 := by
    rw [digitsValue_leftpad, digitsValue_toDigits]
  have hcoin : COIN.toNat = 10000 := rfl
  simp only [FormatMoney, hcoin]
  generalize List.leftpad 4 '0' (toDigits (n.natAbs % 10000)) = R at hlen hdig hval ⊢
  obtain ⟨a, b, c, d, rfl⟩ : ∃ a b c d, R = [a, b, c, d] := by
    match R, hlen with
    | [a, b, c, d], _ => exact ⟨a, b, c, d, rfl⟩
  have ha := hdig a (by simp)
  have hb := hdig b (by simp)
  refine ⟨if d = '0' then (if c = '0' then [a, b] else [a, b, c]) else [a, b, c, d],
    by rw [rightTrimZeros_eq _ c d ha hb]; split_ifs <;> simp, ?_⟩
  -- the trimmed decimals are zeros, so padding them back gives the four printed
  have hzero : ∀ (F : List Char) (k : ℕ), F ++ List.replicate k '0' = [a, b, c, d] →
      digitsValue F * 10 ^ k = n.natAbs % 10000 := by
    intro F k hF
    rw [← digitsValue_append_zeros, hF, hval]
  split_ifs with hd hc
  · subst hd hc
    exact ⟨by simp [ha, hb], le_rfl, by simp, hzero [a, b] 2 rfl⟩
  · subst hd
    refine ⟨by simp [ha, hb, hdig c (by simp)], by simp, by simp, hzero [a, b, c] 1 rfl⟩
  · exact ⟨hdig, by simp, by simp, by simpa using hval⟩

example : FormatMoney (-1200000) = ['-', '1', '2', '0', '.', '0', '0'] := by decide

/-! ## What `ParseMoney` accepts -/

theorem isDigit_eq_false_of_isspace {c : Char} (hc : isspace c = true) : c.isDigit = false :=
  Bool.eq_false_iff.mpr fun h => by simp [isspace_of_isDigit h] at hc

/-- The characters of a money string are none of them a NUL. -/
theorem ne_nul_of_money_char {c : Char} (hc : isspace c = true ∨ c.isDigit = true ∨ c = '.') :
    (c != '\x00') = true := by
  rw [bne_iff_ne]
  rintro rfl
  revert hc
  decide

/-- Four decimals scaled to four places are less than a coin. -/
theorem fractionUnits_lt {F : List Char} (hF : ∀ c ∈ F, c.isDigit = true) (hFlen : F.length ≤ 4) :
    digitsValue F * 10 ^ (4 - F.length) < 10 ^ 4 :=
  calc digitsValue F * 10 ^ (4 - F.length) < 10 ^ F.length * 10 ^ (4 - F.length) :=
        Nat.mul_lt_mul_of_pos_right (digitsValue_lt_pow hF) (by positivity)
    _ = 10 ^ 4 := by rw [← pow_add, Nat.add_sub_cancel' hFlen]

/-- `ParseMoney` on spaces, digits, a `'.'`, the decimals the fraction loop
takes and a rest without NUL: it accepts exactly when the rest is spaces and
the coins have at most fourteen digits, and then gives the coins and the
decimals scaled to four places. -/
theorem ParseMoney_dot {ws W F rest : List Char} (hws : ∀ c ∈ ws, isspace c = true)
    (hW : ∀ c ∈ W, c.isDigit = true) (hF : ∀ c ∈ F, c.isDigit = true) (hFlen : F.length ≤ 4)
    (hstop : F.length = 4 ∨ ∀ c ∈ rest.head?, c.isDigit = false)
    (hrest : ∀ c ∈ rest, (c != '\x00') = true) :
    ParseMoney (ws ++ W ++ '.' :: F ++ rest) =
      if rest.all isspace ∧ W.length ≤ 14 then
        some (digitsValue W * COIN + (digitsValue F * 10 ^ (4 - F.length) : ℕ))
      else none := by
  have hcut : (ws ++ W ++ '.' :: F ++ rest).takeWhile (· != '\x00') = ws ++ (W ++ '.' :: (F ++ rest)) := by
    rw [List.takeWhile_eq_self_iff.mpr]
    · simp
    intro c hc
    simp only [List.mem_append, List.mem_cons] at hc
    rcases hc with ((hc | hc) | rfl | hc) | hc
    · exact ne_nul_of_money_char (Or.inl (hws c hc))
    · exact ne_nul_of_money_char (Or.inr (Or.inl (hW c hc)))
    · exact ne_nul_of_money_char (Or.inr (Or.inr rfl))
    · exact ne_nul_of_money_char (Or.inr (Or.inl (hF c hc)))
    · exact hrest c hc
  have hdrop : (ws ++ (W ++ '.' :: (F ++ rest))).dropWhile isspace = W ++ '.' :: (F ++ rest) := by
    rw [List.dropWhile_append_of_pos hws]
    cases W with
    | nil => exact List.dropWhile_cons_of_neg (by decide)
    | cons w W => exact List.dropWhile_cons_of_neg (by simp [isspace_of_isDigit (hW w List.mem_cons_self)])
  have hwhole : parseWhole (W ++ '.' :: (F ++ rest)) = some (W, digitsValue F * 10 ^ (4 - F.length), rest) := by
    rw [parseWhole_append hW, parseWhole, if_pos rfl, show (CENT * 10).toNat = 10 ^ 3 from rfl,
      parseFraction_append hF rest hFlen hstop]
    simp
  have hunits : digitsValue F * 10 ^ (4 - F.length) < 10000 := fractionUnits_lt hF hFlen
  simp only [ParseMoney, hcut, hdrop, hwhole]
  generalize digitsValue F * 10 ^ (4 - F.length) = u at hunits ⊢
  cases hsp : rest.all isspace with
  | false => simp
  | true =>
    -- the trailing check passes; the length check decides
    by_cases hlen : W.length ≤ 14
    · simp only [hlen, Bool.not_true, Bool.false_eq_true, and_self, if_true, if_false]
      rw [if_neg (by omega), if_neg (by change ¬((u : ℤ) < 0 ∨ (u : ℤ) > 10000); omega)]
    · simp only [hlen, Bool.not_true, Bool.false_eq_true, and_false, if_false]
      rw [if_pos (by omega)]

/-- `ParseMoney` on spaces, the digits of at most fourteen coins, a `'.'` with
at most four decimals, and spaces: the coins and the decimals scaled to four
places. -/
theorem ParseMoney_append {ws W F ws' : List Char} (hws : ∀ c ∈ ws, isspace c = true)
    (hW : ∀ c ∈ W, c.isDigit = true) (hWlen : W.length ≤ 14) (hF : ∀ c ∈ F, c.isDigit = true)
    (hFlen : F.length ≤ 4) (hws' : ∀ c ∈ ws', isspace c = true) :
    ParseMoney (ws ++ W ++ '.' :: F ++ ws') =
      some (digitsValue W * COIN + (digitsValue F * 10 ^ (4 - F.length) : ℕ)) := by
  have hstop : ∀ c ∈ ws'.head?, c.isDigit = false :=
    fun c hc => isDigit_eq_false_of_isspace (hws' c (List.mem_of_mem_head? hc))
  rw [ParseMoney_dot hws hW hF hFlen (Or.inr hstop) fun c hc => ne_nul_of_money_char (Or.inl (hws' c hc)),
    if_pos ⟨List.all_eq_true.mpr hws', hWlen⟩]

/-- Every string `ParseMoney` accepts is, up to its first NUL, spaces, at most
fourteen digits of coins, optionally a `'.'` with at most four decimals, and
spaces; its value is the coins and the decimals scaled to four places. -/
theorem ParseMoney_eq_some {s : List Char} {v : CAmount} (h : ParseMoney s = some v) :
    ∃ ws W frac F ws', s.takeWhile (· != '\x00') = ws ++ W ++ frac ++ ws' ∧
      (∀ c ∈ ws, isspace c = true) ∧ (∀ c ∈ W, c.isDigit = true) ∧ W.length ≤ 14 ∧
      (frac = [] ∧ F = [] ∨ frac = '.' :: F) ∧ (∀ c ∈ F, c.isDigit = true) ∧ F.length ≤ 4 ∧
      (∀ c ∈ ws', isspace c = true) ∧
      v = digitsValue W * COIN + (digitsValue F * 10 ^ (4 - F.length) : ℕ) := by
  simp only [ParseMoney] at h
  set X := s.takeWhile (· != '\x00')
  have hX : X = X.takeWhile isspace ++ X.dropWhile isspace := List.takeWhile_append_dropWhile.symm
  have hws : ∀ c ∈ X.takeWhile isspace, isspace c = true := fun c hc => List.mem_takeWhile_imp hc
  split at h
  · cases h
  rename_i W nUnits rest hpw
  split_ifs at h with hall hlen hunits
  simp only [Option.some.injEq] at h
  have hrest : ∀ c ∈ rest, isspace c = true := by simpa using hall
  obtain ⟨hW, hcases⟩ := parseWhole_eq_some hpw
  rcases hcases with ⟨hp, rfl, rfl⟩ | ⟨hp, rfl, -⟩ | ⟨cs, hp, hfrac⟩
  · -- the string ends after the coins
    rw [hp] at hX
    exact ⟨_, W, [], [], [], by simpa using hX, hws, hW, by omega, Or.inl ⟨rfl, rfl⟩, by simp, by simp,
      by simp, by simp [← h]⟩
  · -- a space ends the coins
    rw [hp] at hX
    exact ⟨_, W, [], [], rest, by simpa using hX, hws, hW, by omega, Or.inl ⟨rfl, rfl⟩, by simp, by simp,
      hrest, by simp [← h]⟩
  · -- a `'.'` and the decimals the fraction loop reads
    obtain ⟨F, rest', rfl, hF, hFlen, hstop⟩ := exists_digits_prefix cs 4
    rw [show (CENT * 10).toNat = 10 ^ 3 from rfl, parseFraction_append hF rest' hFlen hstop] at hfrac
    simp only [Prod.mk.injEq, zero_add] at hfrac
    obtain ⟨rfl, rfl⟩ := hfrac
    rw [hp] at hX
    exact ⟨_, W, ['.'] ++ F, F, rest', by simpa using hX, hws, hW, by omega, Or.inr rfl, hF, hFlen, hrest,
      h.symm⟩

example : ParseMoney ['0', '.', '0', '0', '0', '0', '1'] = none := by decide

/-! ## The round trip -/

/-- An amount printed as its coins, a `'.'` and at most four decimals worth
the remainder at four places reads back. -/
theorem ParseMoney_toDigits {m : ℕ} (hm : m / 10000 < 10 ^ 14) {F : List Char}
    (hF : ∀ c ∈ F, c.isDigit = true) (hFlen : F.length ≤ 4)
    (hval : digitsValue F * 10 ^ (4 - F.length) = m % 10000) :
    ParseMoney (toDigits (m / 10000) ++ '.' :: F) = some m := by
  have hQ : ∀ c ∈ toDigits (m / 10000), c.isDigit = true := fun c hc => isDigit_of_mem_toDigits hc
  have hparse := @ParseMoney_append [] _ _ [] (by simp) hQ (length_toDigits_le (by decide) hm) hF hFlen
    (by simp)
  simp only [List.nil_append, List.append_nil] at hparse
  rw [hparse, hval, digitsValue_toDigits]
  change some (((m / 10000 : ℕ) : ℤ) * 10000 + ((m % 10000 : ℕ) : ℤ)) = some (m : ℤ)
  congr 1
  omega

/-- A non-negative amount below `10 ^ 14` coins reads back from what
`FormatMoney` prints. -/
theorem ParseMoney_FormatMoney {n : CAmount} (h0 : 0 ≤ n) (hn : n / COIN < 10 ^ 14) :
    ParseMoney (FormatMoney n) = some n := by
  obtain ⟨m, rfl⟩ := Int.eq_ofNat_of_zero_le h0
  obtain ⟨F, hfmt, hF, -, hFlen, hval⟩ := FormatMoney_eq m
  have hq : m / 10000 < 10 ^ 14 := by
    change (m : ℤ) / 10000 < 10 ^ 14 at hn
    norm_num at hn ⊢
    omega
  simp only [Int.natAbs_natCast, if_neg (Int.not_lt.mpr h0), List.nil_append] at hfmt hval
  rw [hfmt]
  exact ParseMoney_toDigits hq hF hFlen hval

/-- Four decimals scaled to four places, as the rational they denote in coins
times `COIN`. -/
theorem fractionUnits_eq {F : List Char} (hFlen : F.length ≤ 4) :
    ((digitsValue F * 10 ^ (4 - F.length) : ℕ) : ℚ) = digitsValue F / 10 ^ F.length * 10 ^ 4 := by
  have hpow : (10 : ℚ) ^ 4 = 10 ^ F.length * 10 ^ (4 - F.length) := by
    rw [← pow_add, Nat.add_sub_cancel' hFlen]
  rw [hpow, div_mul_eq_mul_div, mul_comm (10 ^ F.length : ℚ), ← mul_assoc, mul_div_assoc, div_self (by positivity)]
  push_cast
  ring

/-- `FormatMoney` and `ParseMoney` meet at four decimals: every non-negative
amount below `10 ^ 14` coins reads back from its printed form, and every
string `ParseMoney` accepts is spaces, at most fourteen digits, optionally a
`'.'` and at most four digits, and spaces (up to its first NUL), is read as its
exact decimal value in coins, and prints to a string that reads back. -/
theorem parseMoney_formatMoney_roundTrip :
    (∀ n : CAmount, 0 ≤ n → n / COIN < 10 ^ 14 → ParseMoney (FormatMoney n) = some n) ∧
    ∀ s v, ParseMoney s = some v →
      (∃ ws W frac F ws', s.takeWhile (· != '\x00') = ws ++ W ++ frac ++ ws' ∧
        (∀ c ∈ ws, isspace c = true) ∧ (∀ c ∈ W, c.isDigit = true) ∧ W.length ≤ 14 ∧
        (frac = [] ∧ F = [] ∨ frac = '.' :: F) ∧ (∀ c ∈ F, c.isDigit = true) ∧ F.length ≤ 4 ∧
        (∀ c ∈ ws', isspace c = true) ∧
        (v : ℚ) = ((digitsValue W : ℚ) + digitsValue F / 10 ^ F.length) * COIN) ∧
      ParseMoney (FormatMoney v) = some v := by
  refine ⟨fun n h0 hn => ParseMoney_FormatMoney h0 hn, fun s v h => ?_⟩
  obtain ⟨ws, W, frac, F, ws', hs, hws, hW, hWlen, hfrac, hF, hFlen, hws', rfl⟩ := ParseMoney_eq_some h
  have hunits : digitsValue F * 10 ^ (4 - F.length) < 10000 := fractionUnits_lt hF hFlen
  have hcoins : digitsValue W < 10 ^ 14 :=
    lt_of_lt_of_le (digitsValue_lt_pow hW) (Nat.pow_le_pow_right (by decide) hWlen)
  refine ⟨⟨ws, W, frac, F, ws', hs, hws, hW, hWlen, hfrac, hF, hFlen, hws', ?_⟩, ?_⟩
  · rw [Int.cast_add, Int.cast_mul, Int.cast_natCast, Int.cast_natCast, fractionUnits_eq hFlen]
    simp only [COIN, Int.cast_ofNat]
    ring
  · apply ParseMoney_FormatMoney
    · positivity
    · generalize digitsValue F * 10 ^ (4 - F.length) = u at hunits ⊢
      change ((digitsValue W : ℤ) * 10000 + (u : ℤ)) / 10000 < 10 ^ 14
      norm_num at hcoins ⊢
      omega

/-- `"12.3"` reads as `123000` and prints back as `"12.30"`. -/
theorem parseMoney_formatMoney_roundTrip_12_3 :
    ParseMoney ['1', '2', '.', '3'] = some 123000 ∧ ParseMoney (FormatMoney 123000) = some 123000 :=
  ⟨by decide, (parseMoney_formatMoney_roundTrip.2 ['1', '2', '.', '3'] 123000 (by decide)).2⟩


end XPChain
