import XPChain.Primitives.Transaction
import XPChain.Lib.Decimal

/-!
# JSON amounts

Amounts cross the JSON interfaces as decimal numbers of coins.
`ValueFromAmount` of `core_write.cpp` prints an amount as `"%s%d.%04d"`,
the four decimals of XPChain's `COIN = 10^4`.  Two copies of
`AmountFromValue` read them back with `ParseFixedPoint` of
`utilstrencodings.cpp`: the one in `rpc/server.cpp` with 4 decimals, the one
in `xpchain-tx.cpp` (for a `prevtxs` amount, which segwit signature hashes
commit to) with 8.

A `UniValue` is modelled by its type and the characters of its value string;
its keys and children are not read here.

## Main definitions

* `UniValue`, `valueFromAmount`.
* `parseFixedPoint` — `ParseFixedPoint`, `none` where it returns `false`.
* `amountFromValueWith`, `Server.amountFromValue`, `XPChainTx.amountFromValue`.

## Main statements

* `parseFixedPoint_valueFromAmount` — a printed amount parses to the amount
  scaled by `10 ^ (decimals - 4)`, or fails where that overflows.
* `amountFromValue_valueFromAmount` — the RPC parser inverts the printer; the
  `xpchain-tx` parser returns ten thousand times the amount, or fails.
-/

set_option autoImplicit false

namespace XPChain

open Decimal

/-! ## `UniValue` and `ValueFromAmount` -/

/-- `UniValue::VType`. -/
inductive VType
  | VNULL
  | VOBJ
  | VARR
  | VSTR
  | VNUM
  | VBOOL
  deriving DecidableEq, Repr

/-- A `UniValue`: its type and its value string `val`. -/
structure UniValue where
  typ : VType
  val : List Char
  deriving DecidableEq, Repr

def UniValue.isNum (v : UniValue) : Bool := v.typ == .VNUM

def UniValue.isStr (v : UniValue) : Bool := v.typ == .VSTR

/-- `ValueFromAmount`: `strprintf("%s%d.%04d", sign ? "-" : "", quotient, remainder)`
of the amount's absolute value in coins. -/
def valueFromAmount (amount : CAmount) : UniValue :=
  let n_abs := amount.natAbs
  let quotient := n_abs / COIN.toNat
  let remainder := n_abs % COIN.toNat
  ⟨.VNUM, (if amount < 0 then ['-'] else []) ++ toDigits quotient ++
    '.' :: List.leftpad 4 '0' (toDigits remainder)⟩

/-! ## `ParseFixedPoint` -/

/-- `UPPER_BOUND`: `10^18 - 1`, the largest mantissa of arbitrary digits in an
`int64_t`. -/
def UPPER_BOUND : ℤ := 1000000000000000000 - 1

/-- The loop `for (int i=0; i<=mantissa_tzeros; ++i)` of
`ProcessMantissaDigit`: `k` multiplications by ten, each after checking the
mantissa against `UPPER_BOUND / 10`. -/
def mulTenChecked : ℕ → ℤ → Option ℤ
  | 0, mantissa => some mantissa
  | k + 1, mantissa =>
    if UPPER_BOUND / 10 < mantissa then none else mulTenChecked k (mantissa * 10)

/-- `ProcessMantissaDigit`: a zero is counted as a trailing zero; another
digit first multiplies in the zeros before it.  `none` on overflow. -/
def processMantissaDigit (ch : Char) (mantissa : ℤ) (mantissa_tzeros : ℕ) : Option (ℤ × ℕ) :=
  if ch = '0' then some (mantissa, mantissa_tzeros + 1)
  else (mulTenChecked (mantissa_tzeros + 1) mantissa).map fun m => (m + (ch.toNat - 48 : ℤ), 0)

/-- A loop `while (ptr < end && IsDigit(val[ptr]))` over mantissa digits:
the mantissa, its trailing zeros, the number of digits read (`point_ofs`
after the point), and the rest of the string. -/
def readMantissaDigits : List Char → ℤ → ℕ → ℕ → Option (ℤ × ℕ × ℕ × List Char)
  | [], mantissa, mantissa_tzeros, n => some (mantissa, mantissa_tzeros, n, [])
  | c :: cs, mantissa, mantissa_tzeros, n =>
    if c.isDigit then
      (processMantissaDigit c mantissa mantissa_tzeros).bind fun r =>
        readMantissaDigits cs r.1 r.2 (n + 1)
    else some (mantissa, mantissa_tzeros, n, c :: cs)

/-- The integer part: a single `0`, or digits from a `1`..`9`. -/
def readIntegerPart : List Char → Option (ℤ × ℕ × List Char)
  | [] => none
  | c :: cs =>
    if c = '0' then some (0, 0, cs)
    else if '1' ≤ c ∧ c ≤ '9' then
      (readMantissaDigits (c :: cs) 0 0 0).map fun r => (r.1, r.2.1, r.2.2.2)
    else none

/-- The fraction: after a `.`, at least one digit.  The mantissa, its trailing
zeros, the digits after the point, and the rest. -/
def readFraction (mantissa : ℤ) (mantissa_tzeros : ℕ) :
    List Char → Option (ℤ × ℕ × ℕ × List Char)
  | [] => some (mantissa, mantissa_tzeros, 0, [])
  | c :: cs =>
    if c = '.' then
      match cs with
      | [] => none
      | d :: ds => if d.isDigit then readMantissaDigits (d :: ds) mantissa mantissa_tzeros 0 else none
    else some (mantissa, mantissa_tzeros, 0, c :: cs)

/-- The exponent's digit loop, checking against `UPPER_BOUND / 10`. -/
def readExponentDigits : List Char → ℤ → Option (ℤ × List Char)
  | [], exponent => some (exponent, [])
  | c :: cs, exponent =>
    if c.isDigit then
      if UPPER_BOUND / 10 < exponent then none
      else readExponentDigits cs (exponent * 10 + (c.toNat - 48 : ℤ))
    else some (exponent, c :: cs)

/-- The exponent: after an `e` or `E`, an optional sign and at least one digit. -/
def readExponent : List Char → Option (Bool × ℤ × List Char)
  | [] => some (false, 0, [])
  | c :: cs =>
    if c = 'e' ∨ c = 'E' then
      let (exponent_sign, cs) : Bool × List Char := match cs with
        | '+' :: cs => (false, cs)
        | '-' :: cs => (true, cs)
        | cs => (false, cs)
      match cs with
      | [] => none
      | d :: ds =>
        if d.isDigit then (readExponentDigits (d :: ds) 0).map fun r => (exponent_sign, r.1, r.2)
        else none
    else some (false, 0, c :: cs)

/-- The final loop `for (int i=0; i < exponent; ++i)`: multiplications by ten,
each after checking the mantissa against `±UPPER_BOUND / 10`. -/
def scaleChecked : ℕ → ℤ → Option ℤ
  | 0, mantissa => some mantissa
  | k + 1, mantissa =>
    if UPPER_BOUND / 10 < mantissa ∨ mantissa < -(UPPER_BOUND / 10) then none
    else scaleChecked k (mantissa * 10)

/-- `ParseFixedPoint(val, decimals, &amount)`: the amount, or `none` where it
returns `false`. -/
def parseFixedPoint (val : List Char) (decimals : ℤ) : Option ℤ := do
  let (mantissa_sign, s) : Bool × List Char := match val with
    | c :: s => if c = '-' then (true, s) else (false, c :: s)
    | [] => (false, [])
  let (mantissa, mantissa_tzeros, s) ← readIntegerPart s
  let (mantissa, mantissa_tzeros, point_ofs, s) ← readFraction mantissa mantissa_tzeros s
  let (exponent_sign, exponent, s) ← readExponent s
  if s ≠ [] then none
  else
    let exponent := (if exponent_sign then -exponent else exponent) - point_ofs + mantissa_tzeros
    let mantissa := if mantissa_sign then -mantissa else mantissa
    let exponent := exponent + decimals
    if exponent < 0 then none
    else if 18 ≤ exponent then none
    else do
      let mantissa ← scaleChecked exponent.toNat mantissa
      if UPPER_BOUND < mantissa ∨ mantissa < -UPPER_BOUND then none else some mantissa

/-! ## `AmountFromValue` -/

/-- The body both `AmountFromValue`s share, with the number of decimals each
passes to `ParseFixedPoint`. -/
def amountFromValueWith (decimals : ℤ) (value : UniValue) : Except String CAmount :=
  if !value.isNum && !value.isStr then .error "Amount is not a number or string"
  else
    match parseFixedPoint value.val decimals with
    | none => .error "Invalid amount"
    | some amount => if !MoneyRange amount then .error "Amount out of range" else .ok amount

/-- `RPC_TYPE_ERROR`. -/
def RPC_TYPE_ERROR : ℤ := -3

/-- `AmountFromValue` of `rpc/server.cpp`: four decimals, errors thrown as
`JSONRPCError(RPC_TYPE_ERROR, ...)`. -/
def Server.amountFromValue (value : UniValue) : Except (ℤ × String) CAmount :=
  (amountFromValueWith 4 value).mapError fun msg => (RPC_TYPE_ERROR, msg)

/-- `AmountFromValue` of `xpchain-tx.cpp`: eight decimals, errors thrown as
`std::runtime_error`. -/
def XPChainTx.amountFromValue (value : UniValue) : Except String CAmount :=
  amountFromValueWith 8 value

/-! ## Parsing what `ValueFromAmount` prints -/

theorem mulTenChecked_of_le {k : ℕ} {m : ℤ} (hm : 0 ≤ m) (h : m * 10 ^ k ≤ UPPER_BOUND) :
    mulTenChecked k m = some (m * 10 ^ k) := by
  induction k generalizing m with
  | zero => simp [mulTenChecked]
  | succ k ih =>
    have hm10 : m * 10 ≤ UPPER_BOUND := by
      calc m * 10 ≤ m * 10 * 10 ^ k := le_mul_of_one_le_right (by omega) (one_le_pow₀ (by norm_num))
        _ = m * 10 ^ (k + 1) := by ring
        _ ≤ UPPER_BOUND := h
    have hle : ¬ UPPER_BOUND / 10 < m := by
      simp only [UPPER_BOUND] at hm10 ⊢
      omega
    have hpow : m * 10 * 10 ^ k = m * 10 ^ (k + 1) := by ring
    rw [mulTenChecked, if_neg hle, ih (by omega) (hpow ▸ h), hpow]

theorem scaleChecked_of_le {k : ℕ} {m : ℤ} (hm : 0 ≤ m) (h : m * 10 ^ k ≤ UPPER_BOUND) :
    scaleChecked k m = some (m * 10 ^ k) := by
  induction k generalizing m with
  | zero => simp [scaleChecked]
  | succ k ih =>
    have hm10 : m * 10 ≤ UPPER_BOUND := by
      calc m * 10 ≤ m * 10 * 10 ^ k := le_mul_of_one_le_right (by omega) (one_le_pow₀ (by norm_num))
        _ = m * 10 ^ (k + 1) := by ring
        _ ≤ UPPER_BOUND := h
    have hle : ¬ (UPPER_BOUND / 10 < m ∨ m < -(UPPER_BOUND / 10)) := by
      simp only [UPPER_BOUND] at hm10 ⊢
      omega
    have hpow : m * 10 * 10 ^ k = m * 10 ^ (k + 1) := by ring
    rw [scaleChecked, if_neg hle, ih (by omega) (hpow ▸ h), hpow]

/-- Whatever the final loop returns is the mantissa times `10 ^ k`. -/
theorem eq_of_scaleChecked {k : ℕ} {m v : ℤ} (h : scaleChecked k m = some v) : v = m * 10 ^ k := by
  induction k generalizing m with
  | zero => simpa [scaleChecked, eq_comm] using h
  | succ k ih =>
    rw [scaleChecked] at h
    split_ifs at h
    rw [ih h]
    ring

/-- Over a string of digits followed by a non-digit, the mantissa loop reads
every digit, and the mantissa with its trailing zeros is the value of what
was read, as long as that stays below `UPPER_BOUND / 10`. -/
theorem readMantissaDigits_append {ds rest : List Char} (hds : ∀ c ∈ ds, c.isDigit = true)
    (hrest : ∀ c ∈ rest.head?, c.isDigit = false) :
    ∀ {m : ℤ} {tz k : ℕ}, 0 ≤ m →
      m * 10 ^ tz * 10 ^ ds.length + digitsValue ds ≤ UPPER_BOUND / 10 →
      ∃ m' tz', readMantissaDigits (ds ++ rest) m tz k = some (m', tz', k + ds.length, rest) ∧
        0 ≤ m' ∧ tz' ≤ tz + ds.length ∧
        m' * 10 ^ tz' = m * 10 ^ tz * 10 ^ ds.length + digitsValue ds := by
  induction ds with
  | nil =>
    intro m tz k hm _
    refine ⟨m, tz, ?_, hm, by simp, by simp [digitsValue]⟩
    cases rest with
    | nil => rfl
    | cons c cs =>
      have hc : c.isDigit = false := hrest c rfl
      simp [readMantissaDigits, hc]
  | cons c ds ih =>
    intro m tz k hm hbound
    have hc := hds c List.mem_cons_self
    have hds' : ∀ d ∈ ds, d.isDigit = true := fun d hd => hds d (List.mem_cons_of_mem c hd)
    have hval := digitValue_of_isDigit hc
    have hpow : (1 : ℤ) ≤ 10 ^ ds.length := one_le_pow₀ (by norm_num)
    have hdv : (0 : ℤ) ≤ digitsValue ds := Nat.cast_nonneg _
    have hcv : (0 : ℤ) ≤ digitValue c := Nat.cast_nonneg _
    rw [List.length_cons, digitsValue_cons] at hbound ⊢
    push_cast at hbound ⊢
    rw [List.cons_append, readMantissaDigits, if_pos hc]
    by_cases hzero : c = '0'
    · -- a zero is only counted as a trailing zero
      subst hzero
      have h0 : digitValue '0' = 0 := rfl
      rw [h0] at hbound
      push_cast at hbound
      obtain ⟨m', tz', hread, hm', htz', hval'⟩ := @ih hds' m (tz + 1) (k + 1) hm (by
        calc m * 10 ^ (tz + 1) * 10 ^ ds.length + digitsValue ds
            = m * 10 ^ tz * 10 ^ (ds.length + 1) + (0 * 10 ^ ds.length + digitsValue ds) := by
              ring
          _ ≤ UPPER_BOUND / 10 := hbound)
      refine ⟨m', tz', ?_, hm', by omega, ?_⟩
      · rw [processMantissaDigit, if_pos rfl, Option.bind_some,
          show k + (ds.length + 1) = k + 1 + ds.length by omega]
        exact hread
      · rw [hval', h0]
        push_cast
        ring
    · -- another digit multiplies in the zeros before it
      have hmul : m * 10 ^ (tz + 1) ≤ UPPER_BOUND := by
        have hub : UPPER_BOUND / 10 ≤ UPPER_BOUND := by simp [UPPER_BOUND]
        calc m * 10 ^ (tz + 1) ≤ m * 10 ^ (tz + 1) * 10 ^ ds.length :=
              le_mul_of_one_le_right (by positivity) hpow
          _ ≤ m * 10 ^ tz * 10 ^ (ds.length + 1) + (digitValue c * 10 ^ ds.length +
              digitsValue ds) := by
            have : m * 10 ^ (tz + 1) * 10 ^ ds.length = m * 10 ^ tz * 10 ^ (ds.length + 1) := by
              ring
            nlinarith
          _ ≤ UPPER_BOUND := hbound.trans hub
      have hproc : processMantissaDigit c m tz = some (m * 10 ^ (tz + 1) + (c.toNat - 48 : ℤ), 0) := by
        simp only [processMantissaDigit, if_neg hzero, mulTenChecked_of_le hm hmul, Option.map_some]
      obtain ⟨m', tz', hread, hm', htz', hval'⟩ :=
        @ih hds' (m * 10 ^ (tz + 1) + (c.toNat - 48 : ℤ)) 0 (k + 1) (by rw [← hval]; positivity)
          (by
            rw [← hval]
            calc (m * 10 ^ (tz + 1) + digitValue c) * 10 ^ 0 * 10 ^ ds.length + digitsValue ds
                = m * 10 ^ tz * 10 ^ (ds.length + 1) + (digitValue c * 10 ^ ds.length +
                  digitsValue ds) := by ring
              _ ≤ UPPER_BOUND / 10 := hbound)
      refine ⟨m', tz', ?_, hm', by omega, ?_⟩
      · rw [hproc, Option.bind_some, show k + (ds.length + 1) = k + 1 + ds.length by omega]
        exact hread
      · rw [hval', ← hval]
        ring

theorem processMantissaDigit_of_ne_zero {c : Char} (hc : c.isDigit = true) (h0 : c ≠ '0') :
    processMantissaDigit c 0 0 = some ((digitValue c : ℤ), 0) := by
  rw [processMantissaDigit, if_neg h0, mulTenChecked_of_le le_rfl (by simp [UPPER_BOUND]),
    Option.map_some, digitValue_of_isDigit hc]
  simp

/-- The integer part of a printed number: the mantissa with its trailing zeros
is the number, and not every digit is a trailing zero. -/
theorem readIntegerPart_toDigits {q : ℕ} {rest : List Char} (hq : (q : ℤ) ≤ UPPER_BOUND / 10)
    (hrest : ∀ c ∈ rest.head?, c.isDigit = false) :
    ∃ m tz, readIntegerPart (toDigits q ++ rest) = some (m, tz, rest) ∧ 0 ≤ m ∧
      tz < (toDigits q).length ∧ m * 10 ^ tz = q := by
  by_cases hq0 : q = 0
  · subst hq0
    exact ⟨0, 0, rfl, le_rfl, by simp [toDigits], by simp⟩
  obtain ⟨c, cs, hcs, hlo, hhi⟩ := toDigits_eq_cons hq0
  have hdig : ∀ d ∈ c :: cs, d.isDigit = true := fun d hd => isDigit_of_mem_toDigits (hcs ▸ hd)
  have hc := hdig c List.mem_cons_self
  have hc0 : c ≠ '0' := by
    rintro rfl
    exact absurd hlo (by decide)
  have hval : ((digitsValue (c :: cs) : ℕ) : ℤ) = q := by rw [← hcs, digitsValue_toDigits]
  rw [digitsValue_cons] at hval
  push_cast at hval
  obtain ⟨m, tz, hread, hm, htz, hmv⟩ := @readMantissaDigits_append cs rest
    (fun d hd => hdig d (List.mem_cons_of_mem c hd)) hrest (digitValue c) 0 1 (Nat.cast_nonneg _)
    (by rw [← hval] at hq; simpa using hq)
  refine ⟨m, tz, ?_, hm, ?_, ?_⟩
  · rw [hcs, List.cons_append, readIntegerPart, if_neg hc0, if_pos ⟨hlo, hhi⟩, readMantissaDigits,
      if_pos hc, processMantissaDigit_of_ne_zero hc hc0, Option.bind_some, hread, Option.map_some]
  · rw [hcs, List.length_cons]
    omega
  · rw [hmv, ← hval]
    ring

/-- The fraction of a printed number: a point and a string of digits, all read
into the mantissa. -/
theorem readFraction_digits {ds : List Char} (hds : ∀ c ∈ ds, c.isDigit = true) (hne : ds ≠ [])
    {m : ℤ} {tz : ℕ} (hm : 0 ≤ m)
    (hbound : m * 10 ^ tz * 10 ^ ds.length + digitsValue ds ≤ UPPER_BOUND / 10) :
    ∃ m' tz', readFraction m tz ('.' :: ds) = some (m', tz', ds.length, []) ∧ 0 ≤ m' ∧
      tz' ≤ tz + ds.length ∧ m' * 10 ^ tz' = m * 10 ^ tz * 10 ^ ds.length + digitsValue ds := by
  obtain ⟨d, ds', rfl⟩ := List.exists_cons_of_ne_nil hne
  obtain ⟨m', tz', hread, hm', htz', hval⟩ :=
    @readMantissaDigits_append (d :: ds') [] hds (by simp) m tz 0 hm hbound
  rw [List.append_nil, Nat.zero_add] at hread
  refine ⟨m', tz', ?_, hm', htz', hval⟩
  rw [readFraction, if_pos rfl]
  simp only [hds d List.mem_cons_self, if_true, hread]

/-- A string with no sign and no exponent, whose integer part and fraction read
to the end: the exponent is the mantissa's trailing zeros less the digits
after the point, plus the decimals asked for. -/
theorem parseFixedPoint_of_read {val s : List Char} (hsign : ∀ c ∈ val.head?, c ≠ '-')
    {m m' : ℤ} {tz tz' point_ofs : ℕ} (hint : readIntegerPart val = some (m, tz, s))
    (hfrac : readFraction m tz s = some (m', tz', point_ofs, [])) (decimals : ℤ) :
    parseFixedPoint val decimals =
      if (tz' : ℤ) - point_ofs + decimals < 0 then none
      else if 18 ≤ (tz' : ℤ) - point_ofs + decimals then none
      else (scaleChecked ((tz' : ℤ) - point_ofs + decimals).toNat m').bind fun v =>
        if UPPER_BOUND < v ∨ v < -UPPER_BOUND then none else some v := by
  cases val with
  | nil => simp [readIntegerPart] at hint
  | cons c cs =>
    have hc : c ≠ '-' := hsign c rfl
    have hexp : readExponent [] = some (false, 0, []) := rfl
    have hE : (0 : ℤ) - point_ofs + tz' + decimals = tz' - point_ofs + decimals := by ring
    simp only [parseFixedPoint, if_neg hc, hint, Option.bind_eq_bind, Option.bind_some, hfrac,
      hexp, ne_eq, not_true_eq_false, if_false, Bool.false_eq_true, hE]

/-- What `ValueFromAmount` prints for an amount from zero up to
`UPPER_BOUND / 10` parses, with `d` decimals, to the amount times
`10 ^ (d - 4)`, and fails exactly where that product is out of
`ParseFixedPoint`'s range. -/
theorem parseFixedPoint_valueFromAmount {n : ℤ} (h0 : 0 ≤ n) (hn : n ≤ UPPER_BOUND / 10)
    {d : ℕ} (hd4 : 4 ≤ d) (hd : d < 18) :
    parseFixedPoint (valueFromAmount n).val d =
      if n * 10 ^ (d - 4) ≤ UPPER_BOUND then some (n * 10 ^ (d - 4)) else none := by
  have hcoin : COIN.toNat = 10 ^ 4 := rfl
  have hval : (valueFromAmount n).val = toDigits (n.natAbs / 10 ^ 4) ++
      '.' :: List.leftpad 4 '0' (toDigits (n.natAbs % 10 ^ 4)) := by
    simp only [valueFromAmount, hcoin, if_neg (not_lt.mpr h0), List.nil_append]
  set q := n.natAbs / 10 ^ 4 with hq
  set r := n.natAbs % 10 ^ 4 with hr
  have hr4 : r < 10 ^ 4 := Nat.mod_lt _ (by decide)
  have hnqr : n = q * 10 ^ 4 + r := by
    have hdiv := Nat.div_add_mod n.natAbs (10 ^ 4)
    have habs : (n.natAbs : ℤ) = n := Int.natAbs_of_nonneg h0
    omega
  -- the integer part, then the four decimals, read into one mantissa
  have hqb : (q : ℤ) ≤ UPPER_BOUND / 10 := by omega
  obtain ⟨m, tz, hint, hm, htz, hmv⟩ := @readIntegerPart_toDigits q
    ('.' :: List.leftpad 4 '0' (toDigits r)) hqb (by simp)
  have hpad := length_leftpad_toDigits (by norm_num) hr4
  have hbound : m * 10 ^ tz * 10 ^ (List.leftpad 4 '0' (toDigits r)).length +
      digitsValue (List.leftpad 4 '0' (toDigits r)) ≤ UPPER_BOUND / 10 := by
    rw [hpad, digitsValue_leftpad, digitsValue_toDigits, hmv]
    omega
  obtain ⟨m', tz', hfrac, hm', htz', hmv'⟩ := readFraction_digits
    (fun c hc => isDigit_of_mem_leftpad_toDigits hc) (List.ne_nil_of_length_pos (by omega)) hm hbound
  rw [hpad, digitsValue_leftpad, digitsValue_toDigits, hmv] at hmv'
  rw [hpad] at hfrac htz'
  have hsign : ∀ c ∈ (toDigits q ++ '.' :: List.leftpad 4 '0' (toDigits r)).head?, c ≠ '-' := by
    obtain ⟨e, es, hes⟩ := List.exists_cons_of_length_pos (by omega : 0 < (toDigits q).length)
    intro c hc
    rw [hes, List.cons_append, List.head?_cons, Option.mem_some_iff] at hc
    have hdig : c.isDigit = true := isDigit_of_mem_toDigits (by rw [hes, ← hc]; exact List.mem_cons_self)
    rintro rfl
    exact absurd hdig (by decide)
  rw [hval, parseFixedPoint_of_read hsign hint hfrac]
  -- the exponent is the fraction's trailing zeros plus the extra decimals
  have hm'v : m' * 10 ^ tz' = n := by
    rw [hmv']
    omega
  have hE : (tz' : ℤ) - (4 : ℕ) + (d : ℤ) = ((tz' + (d - 4) : ℕ) : ℤ) := by
    push_cast [Nat.cast_sub hd4]
    ring
  have hscale : m' * 10 ^ (tz' + (d - 4)) = n * 10 ^ (d - 4) := by
    rw [pow_add, ← mul_assoc, hm'v]
  rw [hE, if_neg (by omega), Int.toNat_natCast]
  have hpos : 0 ≤ n * 10 ^ (d - 4) := by positivity
  by_cases hfit : n * 10 ^ (d - 4) ≤ UPPER_BOUND
  · have hE18 : ¬ 18 ≤ ((tz' + (d - 4) : ℕ) : ℤ) := by
      intro h18
      rcases (show m' = 0 ∨ 1 ≤ m' by omega) with hz | hone
      · -- zero is printed "0.0000": at most four trailing zeros
        have hn0 : n = 0 := by rw [← hm'v, hz, zero_mul]
        have hq0 : q = 0 := by omega
        have hlen : (toDigits q).length = 1 := by rw [hq0]; rfl
        omega
      · -- otherwise the mantissa is at least one and ten to the exponent overflows
        have hpow : (10 : ℤ) ^ 18 ≤ 10 ^ (tz' + (d - 4)) :=
          pow_le_pow_right₀ (by norm_num) (by omega)
        have hbig : (10 : ℤ) ^ 18 ≤ m' * 10 ^ (tz' + (d - 4)) :=
          hpow.trans (le_mul_of_one_le_left (by positivity) hone)
        rw [hscale] at hbig
        simp only [UPPER_BOUND] at hfit
        omega
    rw [if_pos hfit, if_neg hE18, scaleChecked_of_le hm' (hscale ▸ hfit), Option.bind_some, hscale,
      if_neg (by simp only [UPPER_BOUND] at hfit ⊢; omega)]
  · rw [if_neg hfit]
    split_ifs with h18
    · rfl
    · cases hs : scaleChecked (tz' + (d - 4)) m' with
      | none => rfl
      | some v =>
        have hv : v = n * 10 ^ (d - 4) := by rw [eq_of_scaleChecked hs, hscale]
        rw [Option.bind_some, if_pos (Or.inl (by omega))]

/-- `AmountFromValue` with `d` decimals over what `ValueFromAmount` prints:
the amount times `10 ^ (d - 4)` where that is in `MoneyRange`, and otherwise
the error of the check that rejects it. -/
theorem amountFromValueWith_valueFromAmount {n : ℤ} (h0 : 0 ≤ n) (hn : n ≤ UPPER_BOUND / 10)
    {d : ℕ} (hd4 : 4 ≤ d) (hd : d < 18) :
    amountFromValueWith d (valueFromAmount n) =
      if n * 10 ^ (d - 4) ≤ MAX_MONEY then .ok (n * 10 ^ (d - 4))
      else if n * 10 ^ (d - 4) ≤ UPPER_BOUND then .error "Amount out of range"
      else .error "Invalid amount" := by
  have hpos : 0 ≤ n * 10 ^ (d - 4) := by positivity
  have hnum : (valueFromAmount n).isNum = true := rfl
  have hmax : MAX_MONEY ≤ UPPER_BOUND := by decide
  rw [amountFromValueWith, hnum, parseFixedPoint_valueFromAmount h0 hn hd4 hd]
  by_cases hmoney : n * 10 ^ (d - 4) ≤ MAX_MONEY
  · have hrange : MoneyRange (n * 10 ^ (d - 4)) = true := by
      simp only [MoneyRange, Bool.and_eq_true, decide_eq_true_eq]
      exact ⟨hpos, hmoney⟩
    rw [if_pos (hmoney.trans hmax), if_pos hmoney]
    simp [hrange]
  · have hrange : MoneyRange (n * 10 ^ (d - 4)) = false := by
      simp only [MoneyRange, Bool.and_eq_false_iff, decide_eq_false_iff_not]
      exact Or.inr hmoney
    rw [if_neg hmoney]
    by_cases hfit : n * 10 ^ (d - 4) ≤ UPPER_BOUND
    · rw [if_pos hfit, if_pos hfit]
      simp [hrange]
    · rw [if_neg hfit, if_neg hfit]
      simp

theorem amountFromValue_valueFromAmount {n : CAmount} (h0 : 0 ≤ n) (hmax : n ≤ MAX_MONEY) :
    Server.amountFromValue (valueFromAmount n) = .ok n ∧
    XPChainTx.amountFromValue (valueFromAmount n) =
      if n * 10 ^ 4 ≤ MAX_MONEY then .ok (n * 10 ^ 4)
      else if n * 10 ^ 4 ≤ UPPER_BOUND then .error "Amount out of range"
      else .error "Invalid amount" := by
  have hn : n ≤ UPPER_BOUND / 10 := hmax.trans (by decide)
  have h4 := @amountFromValueWith_valueFromAmount n h0 hn 4 le_rfl (by norm_num)
  have h8 := @amountFromValueWith_valueFromAmount n h0 hn 8 (by norm_num) (by norm_num)
  rw [show (4 : ℕ) - 4 = 0 from rfl, pow_zero, mul_one, if_pos hmax] at h4
  rw [show (8 : ℕ) - 4 = 4 from rfl] at h8
  refine ⟨?_, ?_⟩
  · rw [Server.amountFromValue, show (4 : ℤ) = ((4 : ℕ) : ℤ) from rfl, h4]
    rfl
  · rw [XPChainTx.amountFromValue, show (8 : ℤ) = ((8 : ℕ) : ℤ) from rfl, h8]

theorem amountFromValue_valueFromAmount_one :
    Server.amountFromValue (valueFromAmount 1) = .ok 1 ∧
    XPChainTx.amountFromValue (valueFromAmount 1) = .ok 10000 := by
  obtain ⟨hserver, htx⟩ := @amountFromValue_valueFromAmount 1 (by decide) (by decide)
  rw [if_pos (by decide)] at htx
  exact ⟨hserver, htx⟩

end XPChain
