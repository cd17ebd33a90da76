import XPChain.Util.MoneyStr
import XPChain.Rpc.Amount
import XPChain.Wallet.CreateTransaction

/-!
# Amounts in the other printers

Besides `FormatMoney`, four places print an amount as a decimal number of
coins, each with its own quotient and remainder code: `ValueFromAmount`
(`Rpc.Amount`), the GUI's `BitcoinUnits::format`, `CTxOut::ToString` and
`CFeeRate::ToString`.  The first two pad the remainder to four digits, as
`COIN = 10^4` asks.  The last two still print it with `%08d`, the width of a
`COIN` of `10^8`: the number they show for `n` is `q + r / 10^8` coins where
`n` is `q + r / 10^4`, and `ParseMoney` refuses it, since only four decimals
are read and the other four are left over.

## Main definitions

* `printfD`, `printf0D` — `%d` and `%0*d` of an `int64_t`.
* `HexStr`, `CTxOut.ToString`, `CFeeRate.ToString`.
* `BitcoinUnit`, `SeparatorStyle`, `BitcoinUnits.format`, and
  `BitcoinUnits.removeThinSp`, the separators dropped as `BitcoinUnits::parse`
  drops them.

## Main statements

* `removeThinSp_format_XPC` — without its separators, `format` in `XPC` is
  `"%d.%04d"`.
* `ParseMoney_eight_decimals` — `ParseMoney` refuses a number with eight
  decimals.
* `amountStrings_denote_amount` — for an amount up to `MAX_MONEY`, the
  four-decimal printers read back as the amount, and the `%08d` printers show
  a number worth the amount only for whole coins, which `ParseMoney` refuses.
-/

set_option autoImplicit false

namespace XPChain

open Decimal

/-! ## `printf` -/

/-- `%d` of an `int64_t`: `'-'` and the digits of the absolute value. -/
def printfD (x : ℤ) : List Char :=
  (if x < 0 then ['-'] else []) ++ toDigits x.natAbs

/-- `%0*d` of an `int64_t` at width `w`: the sign, then zeros up to `w`
characters in all, then the digits. -/
def printf0D (w : ℕ) (x : ℤ) : List Char :=
  if x < 0 then '-' :: List.leftpad (w - 1) '0' (toDigits x.natAbs)
  else List.leftpad w '0' (toDigits x.natAbs)

theorem printfD_natCast (k : ℕ) : printfD k = toDigits k := by
  simp [printfD]

theorem printf0D_natCast (w k : ℕ) : printf0D w k = List.leftpad w '0' (toDigits k) := by
  simp [printf0D]

/-! ## `CTxOut::ToString` and `CFeeRate::ToString` -/

/-- `hexmap[d]` of `HexStr`, the lower-case hex digit of `d < 16`. -/
def hexmap (d : ℕ) : Char := if d < 10 then digitChar d else Char.ofNat (d - 10 + 97)

/-- `HexStr(vch)` without spaces: each byte as two hex digits, the high
nibble first. -/
def HexStr (vch : List UInt8) : List Char :=
  vch.flatMap fun val => [hexmap (val.toNat >>> 4), hexmap (val.toNat &&& 15)]

/-- `CTxOut::ToString()`, `strprintf("CTxOut(nValue=%d.%08d, scriptPubKey=%s)",
nValue / COIN, nValue % COIN, HexStr(scriptPubKey).substr(0, 30))`, with the
division and remainder of C++, which truncate toward zero. -/
def CTxOut.ToString (txout : CTxOut) : List Char :=
  "CTxOut(nValue=".toList ++ printfD (txout.nValue.tdiv COIN) ++ '.' :: printf0D 8 (txout.nValue.tmod COIN) ++
    ", scriptPubKey=".toList ++ (HexStr txout.scriptPubKey).take 30 ++ [')']

/-- `CURRENCY_UNIT`. -/
def CURRENCY_UNIT : List Char := "XPC".toList

/-- `CFeeRate::ToString()`, `strprintf("%d.%08d %s/kB", nSatoshisPerK / COIN,
nSatoshisPerK % COIN, CURRENCY_UNIT)`. -/
def CFeeRate.ToString (r : CFeeRate) : List Char :=
  printfD (r.nSatoshisPerK.tdiv COIN) ++ '.' :: printf0D 8 (r.nSatoshisPerK.tmod COIN) ++
    ' ' :: CURRENCY_UNIT ++ "/kB".toList

/-! ## `BitcoinUnits::format` -/

/-- `BitcoinUnits::Unit`. -/
inductive BitcoinUnit
  | XPC
  | mXPC
  | Mocha
  deriving DecidableEq, Repr

/-- `BitcoinUnits::SeparatorStyle`. -/
inductive SeparatorStyle
  | separatorNever
  | separatorStandard
  | separatorAlways
  deriving DecidableEq, Repr

namespace BitcoinUnits

/-- `BitcoinUnits::factor`: the unit's amount. -/
def factor : BitcoinUnit → ℤ
  | .XPC => 10000
  | .mXPC => 10
  | .Mocha => 1

/-- `BitcoinUnits::decimals`. -/
def decimals : BitcoinUnit → ℕ
  | .XPC => 4
  | .mXPC => 1
  | .Mocha => 0

/-- `THIN_SP_CP`, the thin space U+2009. -/
def THIN_SP_CP : Char := Char.ofNat 0x2009

/-- The separator loop of `format`,
`for (int i = 3; i < q_size; i += 3) quotient_str.insert(q_size - i, thin_sp);`,
over the values `i = 3, 6, …` below `q_size`. -/
def insertSeparators (q_size : ℕ) (quotient_str : List Char) : List Char :=
  ((List.range ((q_size - 1) / 3)).map fun k => 3 * (k + 1)).foldl
    (fun str i => str.insertIdx (q_size - i) THIN_SP_CP) quotient_str

/-- `BitcoinUnits::format(unit, nIn, fPlus, separators)`.  An `int` unit
outside the enumeration, which `valid` refuses, is not modelled. -/
def format (unit : BitcoinUnit) (nIn : CAmount) (fPlus : Bool) (separators : SeparatorStyle) : List Char :=
  let n := nIn
  let coin := factor unit
  let num_decimals := decimals unit
  let n_abs := n.natAbs
  let quotient := n_abs / coin.toNat
  let quotient_str := toDigits quotient
  let q_size := quotient_str.length
  let quotient_str :=
    if separators = .separatorAlways ∨ (separators = .separatorStandard ∧ q_size > 4) then
      insertSeparators q_size quotient_str
    else quotient_str
  let quotient_str :=
    if n < 0 then '-' :: quotient_str else if fPlus ∧ n > 0 then '+' :: quotient_str else quotient_str
  if num_decimals > 0 then
    let remainder := n_abs % coin.toNat
    let remainder_str := List.leftpad num_decimals '0' (toDigits remainder)
    quotient_str ++ '.' :: remainder_str
  else quotient_str

/-- `text.remove(QChar(THIN_SP_CP))` of `BitcoinUnits::parse`: the separators
dropped. -/
def removeThinSp (text : List Char) : List Char := text.filter (· != THIN_SP_CP)

/-! ### Dropping the separators -/

theorem filter_insertIdx_self (l : List Char) (i : ℕ) (c : Char) :
    (l.insertIdx i c).filter (· != c) = l.filter (· != c) := by
  induction l generalizing i with
  | nil => cases i <;> simp
  | cons x l ih =>
    cases i with
    | zero => simp
    | succ i => simp only [List.insertIdx_succ_cons, List.filter_cons, ih]

/-- The separator loop inserts nothing but separators. -/
@[simp] theorem removeThinSp_insertSeparators (q_size : ℕ) (quotient_str : List Char) :
    removeThinSp (insertSeparators q_size quotient_str) = removeThinSp quotient_str := by
  unfold insertSeparators
  generalize (List.range ((q_size - 1) / 3)).map (fun k => 3 * (k + 1)) = is
  -- one insertion per value of `i`, each one dropped again
  induction is generalizing quotient_str with
  | nil => rfl
  | cons i is ih => rw [List.foldl_cons, ih, removeThinSp, removeThinSp, filter_insertIdx_self]

theorem ne_THIN_SP_CP_of_isDigit {c : Char} (hc : c.isDigit = true) : c ≠ THIN_SP_CP := by
  rintro rfl
  exact absurd hc (by decide)

@[simp] theorem removeThinSp_append (l l' : List Char) :
    removeThinSp (l ++ l') = removeThinSp l ++ removeThinSp l' :=
  List.filter_append l l'

@[simp] theorem removeThinSp_cons {c : Char} (hc : c ≠ THIN_SP_CP) (l : List Char) :
    removeThinSp (c :: l) = c :: removeThinSp l := by
  simp [removeThinSp, hc]

theorem removeThinSp_of_isDigit {l : List Char} (hl : ∀ c ∈ l, c.isDigit = true) : removeThinSp l = l :=
  List.filter_eq_self.mpr fun c hc => bne_iff_ne.mpr (ne_THIN_SP_CP_of_isDigit (hl c hc))

/-- Without its separators, what `format` prints in `XPC` is the sign and
`"%d.%04d"`: the separators fall between digits only. -/
theorem removeThinSp_format_XPC (n : CAmount) (fPlus : Bool) (separators : SeparatorStyle) :
    removeThinSp (format .XPC n fPlus separators) =
      (if n < 0 then ['-'] else if fPlus ∧ n > 0 then ['+'] else []) ++ toDigits (n.natAbs / 10000) ++
        '.' :: List.leftpad 4 '0' (toDigits (n.natAbs % 10000)) := by
  have hQ : removeThinSp (toDigits (n.natAbs / 10000)) = toDigits (n.natAbs / 10000) :=
    removeThinSp_of_isDigit fun c hc => isDigit_of_mem_toDigits hc
  have hR : removeThinSp (List.leftpad 4 '0' (toDigits (n.natAbs % 10000))) =
      List.leftpad 4 '0' (toDigits (n.natAbs % 10000)) :=
    removeThinSp_of_isDigit fun c hc => isDigit_of_mem_leftpad_toDigits hc
  have hsign : ('-' : Char) ≠ THIN_SP_CP ∧ ('+' : Char) ≠ THIN_SP_CP ∧ ('.' : Char) ≠ THIN_SP_CP := by decide
  have hcoin : (10000 : ℤ).toNat = 10000 := rfl
  simp only [format, factor, decimals, hcoin, if_pos (show (4 : ℕ) > 0 by decide)]
  -- the separators drop out whichever way the test goes; then one case per sign
  simp only [apply_ite removeThinSp, removeThinSp_append, removeThinSp_cons hsign.1, removeThinSp_cons hsign.2.1,
    removeThinSp_cons hsign.2.2, removeThinSp_insertSeparators, hQ, hR, ite_self]
  split_ifs <;> simp

end BitcoinUnits

/-! ## Reading the printed numbers back -/

open BitcoinUnits

/-- `ParseMoney` refuses a number with eight decimals: the fraction loop stops
after four, and the four left over are not spaces. -/
theorem ParseMoney_eight_decimals (q : ℕ) {r : ℕ} (hr : r < 10 ^ 8) :
    ParseMoney (toDigits q ++ '.' :: List.leftpad 8 '0' (toDigits r)) = none := by
  have hlen : (List.leftpad 8 '0' (toDigits r)).length = 8 := length_leftpad_toDigits (by decide) hr
  have hdig : ∀ c ∈ List.leftpad 8 '0' (toDigits r), c.isDigit = true :=
    fun c hc => isDigit_of_mem_leftpad_toDigits hc
  generalize List.leftpad 8 '0' (toDigits r) = R at hlen hdig
  -- the four decimals read, and the four left
  obtain ⟨F, G, rfl, hF, hG⟩ : ∃ F G, R = F ++ G ∧ F.length = 4 ∧ G.length = 4 :=
    ⟨R.take 4, R.drop 4, (List.take_append_drop 4 R).symm, by simp [hlen], by simp [hlen]⟩
  obtain ⟨g, G, rfl⟩ := List.exists_cons_of_length_pos (show 0 < G.length by omega)
  have hg : g.isDigit = true := hdig g (by simp)
  have hparse := @ParseMoney_dot [] (toDigits q) F (g :: G) (by simp)
    (fun c hc => isDigit_of_mem_toDigits hc) (fun c hc => hdig c (by simp [hc])) hF.le (Or.inl hF)
    (fun c hc => ne_nul_of_money_char (Or.inr (Or.inl (hdig c (by simp [hc])))))
  simp only [List.nil_append, List.append_assoc, List.cons_append] at hparse
  rw [hparse, if_neg]
  simp [isspace_of_isDigit hg]

/-- A number shown with the `%08d` remainder, `m / 10^4` coins and
`m % 10^4` in the eight decimals, is worth `m / 10^4` coins only when the
remainder is zero. -/
theorem eightDecimals_value_iff (m : ℕ) :
    ((m / 10000 : ℕ) : ℚ) + ((m % 10000 : ℕ) : ℚ) / 10 ^ 8 = (m : ℚ) / 10000 ↔ m % 10000 = 0 := by
  have hm : (m : ℚ) = ((m / 10000 : ℕ) : ℚ) * 10000 + ((m % 10000 : ℕ) : ℚ) := by
    exact_mod_cast (Nat.div_add_mod' m 10000).symm
  rw [hm]
  constructor
  · intro h
    have hr : ((m % 10000 : ℕ) : ℚ) = 0 := by linarith
    exact_mod_cast hr
  · intro h
    rw [h]
    push_cast
    ring

/-- The decimal renderings of an amount from `0` to `MAX_MONEY`:
`ValueFromAmount`, `FormatMoney` and `BitcoinUnits::format` in `XPC` (its
separators dropped) read back with `ParseMoney` as the amount, while
`CTxOut::ToString` and `CFeeRate::ToString` print a number `Q.R` with eight
decimals, worth the amount in coins only for a whole number of coins, that
`ParseMoney` refuses. -/
theorem amountStrings_denote_amount (n : CAmount) (h0 : 0 ≤ n) (hmax : n ≤ MAX_MONEY)
    (scriptPubKey : CScript) (separators : SeparatorStyle) :
    ParseMoney (valueFromAmount n).val = some n ∧
    ParseMoney (FormatMoney n) = some n ∧
    ParseMoney (removeThinSp (format .XPC n false separators)) = some n ∧
    ∃ Q R, CTxOut.ToString ⟨n, scriptPubKey⟩ =
        "CTxOut(nValue=".toList ++ Q ++ '.' :: R ++ ", scriptPubKey=".toList ++
          (HexStr scriptPubKey).take 30 ++ [')'] ∧
      CFeeRate.ToString ⟨n⟩ = Q ++ '.' :: R ++ ' ' :: CURRENCY_UNIT ++ "/kB".toList ∧
      (∀ c ∈ Q ++ R, c.isDigit = true) ∧ R.length = 8 ∧
      ((digitsValue Q : ℚ) + digitsValue R / 10 ^ R.length = n / COIN ↔ n % COIN = 0) ∧
      ParseMoney (Q ++ '.' :: R) = none := by
  obtain ⟨m, rfl⟩ := Int.eq_ofNat_of_zero_le h0
  have hcoins : m / 10000 < 10 ^ 14 := by
    change (m : ℤ) ≤ 210000000000 * 10000 at hmax
    norm_num
    omega
  -- the four-decimal printers all print `"%d.%04d"`
  have hlen4 : (List.leftpad 4 '0' (toDigits (m % 10000))).length = 4 :=
    length_leftpad_toDigits (by decide) (Nat.mod_lt _ (by decide))
  have hfour : ParseMoney (toDigits (m / 10000) ++ '.' :: List.leftpad 4 '0' (toDigits (m % 10000))) = some m :=
    ParseMoney_toDigits hcoins (fun c hc => isDigit_of_mem_leftpad_toDigits hc) hlen4.le
      (by rw [hlen4, digitsValue_leftpad, digitsValue_toDigits, Nat.sub_self, pow_zero, mul_one])
  have hnonneg : ¬(m : ℤ) < 0 := by omega
  -- C++ division of a non-negative amount is the natural one
  have hdiv : (m : ℤ).tdiv COIN = ((m / 10000 : ℕ) : ℤ) := by
    rw [Int.tdiv_eq_ediv_of_nonneg h0]
    change (m : ℤ) / 10000 = _
    omega
  have hmod : (m : ℤ).tmod COIN = ((m % 10000 : ℕ) : ℤ) := by
    rw [Int.tmod_eq_emod_of_nonneg h0]
    change (m : ℤ) % 10000 = _
    omega
  have hr : m % 10000 < 10 ^ 8 := lt_of_lt_of_le (Nat.mod_lt _ (by decide)) (by decide)
  refine ⟨?_, ParseMoney_FormatMoney h0 (by change (m : ℤ) / 10000 < _; omega), ?_,
    toDigits (m / 10000), List.leftpad 8 '0' (toDigits (m % 10000)), ?_, ?_, ?_,
    length_leftpad_toDigits (by decide) hr, ?_, ParseMoney_eight_decimals _ hr⟩
  · simpa [valueFromAmount, hnonneg] using hfour
  · simpa [removeThinSp_format_XPC, hnonneg] using hfour
  · rw [← printfD_natCast, ← printf0D_natCast, ← hdiv, ← hmod]
    rfl
  · rw [← printfD_natCast, ← printf0D_natCast, ← hdiv, ← hmod]
    rfl
  · intro c hc
    rcases List.mem_append.mp hc with hc | hc
    · exact isDigit_of_mem_toDigits hc
    · exact isDigit_of_mem_leftpad_toDigits hc
  · rw [length_leftpad_toDigits (by decide) hr, digitsValue_leftpad, digitsValue_toDigits, digitsValue_toDigits]
    push_cast
    rw [eightDecimals_value_iff]
    change _ ↔ (m : ℤ) % 10000 = 0
    omega

/-- One unit, `1 / COIN` coins, is `"0.0001"` to `FormatMoney` but
`"0.00000001 XPC/kB"` to `CFeeRate::ToString`: a ten-thousandth of that, which
`ParseMoney` refuses. -/
theorem amountStrings_denote_amount_one :
    ParseMoney (FormatMoney 1) = some 1 ∧
    ∃ Q R, CFeeRate.ToString ⟨1⟩ = Q ++ '.' :: R ++ ' ' :: CURRENCY_UNIT ++ "/kB".toList ∧
      (digitsValue Q : ℚ) + digitsValue R / 10 ^ R.length ≠ 1 / COIN ∧ ParseMoney (Q ++ '.' :: R) = none := by
  obtain ⟨-, hfmt, -, Q, R, -, hfee, -, -, hval, hparse⟩ :=
    amountStrings_denote_amount 1 (by decide) (by decide) [] .separatorStandard
  refine ⟨hfmt, Q, R, hfee, fun h => ?_, hparse⟩
  have hwhole := hval.mp (by exact_mod_cast h)
  exact absurd hwhole (by decide)

end XPChain
