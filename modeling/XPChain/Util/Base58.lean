import XPChain.Lib.Radix
import XPChain.Lib.Check
import XPChain.Util.MoneyStr
import XPChain.Primitives.Serialize

/-!
# Base58

`EncodeBase58`, `DecodeBase58` and their checksummed forms, of `base58.cpp`.
Both directions are the same in-place conversion (`Radix.mulAddLoop`): the
encoder reads bytes into a buffer of base-58 digits of `size = n * 138 / 100 + 1`
places (`b58 = b58 * 256 + ch`), the decoder reads base-58 digits into a buffer
of bytes of `size = n * 733 / 1000 + 1` places (`b256 = b256 * 58 + digit`).
Each round ends with `assert(carry == 0)`; a failed assert is an `.error`.
Leading zero bytes and leading `'1'`s are counted apart and map to each other.

The buffers are held least significant digit first, the reverse of the
source's `std::vector`, so that the loop from `rbegin()` is a recursion on the
list.  Sizes and counters are natural numbers: the source's `int`s overflow
only on inputs of more than `2^31 * 100 / 138` bytes, on which the quadratic
loop would run for about `10^18` rounds.

Strings are lists of characters; `DecodeBase58` and `DecodeBase58Check` take a
C string, and their `std::string` overloads pass `c_str()`, which ends at the
first NUL.  Hashes are a parameter `Hash : List UInt8 → uint256`, as elsewhere.

## Main definitions

* `pszBase58`, `mapBase58` — the alphabet and its table.
* `carryRound` — one round of either outer loop.
* `EncodeBase58`, `DecodeBase58`, `EncodeBase58Check`, `DecodeBase58Check`.

## Main statements

* `EncodeBase58_eq` — what `EncodeBase58` returns: a `'1'` per leading zero
  byte, then the base-58 digits of the rest; it never fails its assert.
* `DecodeBase58_eq` — what `DecodeBase58` returns, for every string.
-/

set_option autoImplicit false

namespace XPChain

open Nat Radix

/-! ## The alphabet -/

/-- `pszBase58`: all alphanumeric characters except `0`, `I`, `O` and `l`. -/
def pszBase58 : List Char := "123456789ABCDEFGHJKLMNPQRSTUVWXYZabcdefghijkmnopqrstuvwxyz".toList

/-- The table `mapBase58`: the place of a character in `pszBase58`, or `-1`. -/
def mapBase58Table : List ℤ := [
    -1,-1,-1,-1,-1,-1,-1,-1, -1,-1,-1,-1,-1,-1,-1,-1,
    -1,-1,-1,-1,-1,-1,-1,-1, -1,-1,-1,-1,-1,-1,-1,-1,
    -1,-1,-1,-1,-1,-1,-1,-1, -1,-1,-1,-1,-1,-1,-1,-1,
    -1, 0, 1, 2, 3, 4, 5, 6,  7, 8,-1,-1,-1,-1,-1,-1,
    -1, 9,10,11,12,13,14,15, 16,-1,17,18,19,20,21,-1,
    22,23,24,25,26,27,28,29, 30,31,32,-1,-1,-1,-1,-1,
    -1,33,34,35,36,37,38,39, 40,41,42,43,-1,44,45,46,
    47,48,49,50,51,52,53,54, 55,56,57,-1,-1,-1,-1,-1,
    -1,-1,-1,-1,-1,-1,-1,-1, -1,-1,-1,-1,-1,-1,-1,-1,
    -1,-1,-1,-1,-1,-1,-1,-1, -1,-1,-1,-1,-1,-1,-1,-1,
    -1,-1,-1,-1,-1,-1,-1,-1, -1,-1,-1,-1,-1,-1,-1,-1,
    -1,-1,-1,-1,-1,-1,-1,-1, -1,-1,-1,-1,-1,-1,-1,-1,
    -1,-1,-1,-1,-1,-1,-1,-1, -1,-1,-1,-1,-1,-1,-1,-1,
    -1,-1,-1,-1,-1,-1,-1,-1, -1,-1,-1,-1,-1,-1,-1,-1,
    -1,-1,-1,-1,-1,-1,-1,-1, -1,-1,-1,-1,-1,-1,-1,-1,
    -1,-1,-1,-1,-1,-1,-1,-1, -1,-1,-1,-1,-1,-1,-1,-1]

/-- `mapBase58[(uint8_t)c]`. -/
def mapBase58 (c : Char) : ℤ := mapBase58Table.getD c.toNat (-1)

/-- The codes of the characters of `pszBase58`. -/
theorem map_toNat_pszBase58 : pszBase58.map Char.toNat = [49, 50, 51, 52, 53, 54, 55, 56, 57, 65, 66, 67, 68,
    69, 70, 71, 72, 74, 75, 76, 77, 78, 80, 81, 82, 83, 84, 85, 86, 87, 88, 89, 90, 97, 98, 99, 100, 101, 102,
    103, 104, 105, 106, 107, 109, 110, 111, 112, 113, 114, 115, 116, 117, 118, 119, 120, 121, 122] := by
  rfl

@[simp] theorem length_pszBase58 : pszBase58.length = 58 := by
  rw [← List.length_map Char.toNat, map_toNat_pszBase58]
  rfl

set_option maxRecDepth 2000 in
theorem length_mapBase58Table : mapBase58Table.length = 256 := by
  rfl

set_option maxRecDepth 8000 in
/-- Every entry of the table other than `-1` is the place in `pszBase58` of
the character it is the entry of. -/
theorem mapBase58Table_spec : ∀ n < 256, mapBase58Table.getD n (-1) = -1 ∨
    (0 ≤ mapBase58Table.getD n (-1) ∧ (mapBase58Table.getD n (-1)).toNat < 58 ∧
      (pszBase58.map Char.toNat).getD (mapBase58Table.getD n (-1)).toNat 0 = n) := by
  rw [map_toNat_pszBase58]
  decide

/-- The table maps each character of `pszBase58` to its place. -/
theorem mapBase58Table_pszBase58 : ∀ d < 58, mapBase58Table.getD ((pszBase58.map Char.toNat).getD d 0) (-1) = d := by
  rw [map_toNat_pszBase58]
  decide

theorem toNat_getD_pszBase58 {d : ℕ} (hd : d < 58) :
    (pszBase58.getD d ' ').toNat = (pszBase58.map Char.toNat).getD d 0 := by
  rw [List.getD_eq_getElem _ _ (by simpa using hd), List.getD_eq_getElem _ _ (by simpa using hd),
    List.getElem_map]

theorem mapBase58_getD {d : ℕ} (hd : d < 58) : mapBase58 (pszBase58.getD d ' ') = d := by
  rw [mapBase58, toNat_getD_pszBase58 hd]
  exact mapBase58Table_pszBase58 d hd

/-- A character the table does not map to `-1` is the character of its digit. -/
theorem getD_mapBase58 {c : Char} (hc : mapBase58 c ≠ -1) :
    0 ≤ mapBase58 c ∧ (mapBase58 c).toNat < 58 ∧ pszBase58.getD (mapBase58 c).toNat ' ' = c := by
  have hlt : c.toNat < 256 := by
    by_contra hge
    exact hc (List.getD_eq_default _ _ (by rw [length_mapBase58Table]; omega))
  have hspec : mapBase58 c = -1 ∨ (0 ≤ mapBase58 c ∧ (mapBase58 c).toNat < 58 ∧
      (pszBase58.map Char.toNat).getD (mapBase58 c).toNat 0 = c.toNat) :=
    mapBase58Table_spec c.toNat hlt
  rcases hspec with h | ⟨h0, h58, hcode⟩
  · exact absurd h hc
  · refine ⟨h0, h58, Char.toNat_inj.mp ?_⟩
    rw [toNat_getD_pszBase58 h58]
    exact hcode

theorem mem_pszBase58_iff {c : Char} : c ∈ pszBase58 ↔ mapBase58 c ≠ -1 := by
  constructor
  · intro hc
    obtain ⟨d, hd, rfl⟩ := List.getElem_of_mem hc
    rw [← List.getD_eq_getElem _ ' ', mapBase58_getD (by simpa using hd)]
    omega
  · intro hc
    obtain ⟨-, h58, hget⟩ := getD_mapBase58 hc
    rw [← hget, List.getD_eq_getElem _ _ (by simpa using h58)]
    exact List.getElem_mem _

/-- Writing digits below 58 and reading them back gives the digits. -/
theorem map_mapBase58_getD {ds : List ℕ} (hds : ∀ d ∈ ds, d < 58) :
    (ds.map fun d => pszBase58.getD d ' ').map (fun c => (mapBase58 c).toNat) = ds := by
  rw [List.map_map]
  conv_rhs => rw [← List.map_id ds]
  apply List.map_congr_left
  intro d hd
  rw [Function.comp_apply, mapBase58_getD (hds d hd), Int.toNat_natCast, id]

/-- Reading characters of the alphabet and writing their digits gives the characters. -/
theorem map_getD_mapBase58 {cs : List Char} (hcs : ∀ c ∈ cs, c ∈ pszBase58) :
    (cs.map fun c => (mapBase58 c).toNat).map (fun d => pszBase58.getD d ' ') = cs := by
  rw [List.map_map]
  conv_rhs => rw [← List.map_id cs]
  apply List.map_congr_left
  intro c hc
  exact (getD_mapBase58 (mem_pszBase58_iff.mp (hcs c hc))).2.2

theorem getD_mem_pszBase58 {d : ℕ} (hd : d < 58) : pszBase58.getD d ' ' ∈ pszBase58 := by
  rw [List.getD_eq_getElem _ _ (by simpa using hd)]
  exact List.getElem_mem _

/-- No character of `pszBase58` is a space. -/
theorem isspace_of_mem_pszBase58 {c : Char} (hc : c ∈ pszBase58) : isspace c = false := by
  have hcode : c.toNat ∈ pszBase58.map Char.toNat := List.mem_map_of_mem hc
  rw [map_toNat_pszBase58] at hcode
  have h49 : 49 ≤ c.toNat := by
    simp only [List.mem_cons, List.not_mem_nil, or_false] at hcode
    omega
  have hsp : c ≠ ' ' := by
    rintro rfl
    exact absurd h49 (by decide)
  simp [isspace, hsp]
  omega

/-- Only the digit `0` is written `'1'`. -/
theorem getD_pszBase58_eq_one_iff {d : ℕ} (hd : d < 58) : pszBase58.getD d ' ' = '1' ↔ d = 0 := by
  constructor
  · intro h
    have hmap := mapBase58_getD hd
    rw [h] at hmap
    have h1 : mapBase58 '1' = 0 := rfl
    omega
  · rintro rfl
    rfl

theorem one_mem_pszBase58 : '1' ∈ pszBase58 := by
  decide

theorem nul_not_mem_pszBase58 : '\x00' ∉ pszBase58 := fun h =>
  mem_pszBase58_iff.mp h rfl

/-! ## The conversions -/

/-- One round of the outer loop of `EncodeBase58` or `DecodeBase58`: the carry
loop over the buffer, then `assert(carry == 0)` and `length = i`. -/
def carryRound (base mul : ℕ) (st : List ℕ × ℕ) (carry : ℕ) : Except String (List ℕ × ℕ) :=
  let r := mulAddLoop base mul st.2 st.1 carry 0
  if r.2.1 ≠ 0 then .error "assert(carry == 0)" else .ok (r.1, r.2.2)

/-- `EncodeBase58(pbegin, pend)`. -/
def EncodeBase58 (vch : List UInt8) : Except String (List Char) := do
  -- Skip & count leading zeroes.
  let zeroes := (vch.takeWhile (· == 0)).length
  let bytes := vch.dropWhile (· == 0)
  -- Allocate enough space in big-endian base58 representation.
  let size := bytes.length * 138 / 100 + 1
  -- Process the bytes: `b58 = b58 * 256 + ch`.
  let (b58, length) ← (bytes.map UInt8.toNat).foldlM (carryRound 58 256) (List.replicate size 0, 0)
  -- Skip leading zeroes in base58 result.
  let digits := (b58.take length).reverse.dropWhile (· == 0)
  -- Translate the result into a string.
  pure (List.replicate zeroes '1' ++ digits.map fun d => pszBase58.getD d ' ')

/-- The loop `while (*psz && !isspace(*psz))` of `DecodeBase58`: each
character's digit goes into the buffer (`b256 = b256 * 58 + digit`), and an
invalid character returns `false`.  The buffer and the rest of the string. -/
def decodeLoop : List Char → List ℕ × ℕ → Except String (Option (List ℕ × ℕ × List Char))
  | [], st => pure (some (st.1, st.2, []))
  | c :: cs, st =>
    if isspace c then pure (some (st.1, st.2, c :: cs))
    else
      let carry := mapBase58 c
      if carry = -1 then pure none
      else do
        let st ← carryRound 256 58 st carry.toNat
        decodeLoop cs st

/-- `DecodeBase58(psz, vch)`: `none` where it returns `false`. -/
def DecodeBase58 (psz : List Char) : Except String (Option (List UInt8)) := do
  -- Skip leading spaces.
  let psz := psz.dropWhile isspace
  -- Skip and count leading '1's.
  let zeroes := (psz.takeWhile (· == '1')).length
  let psz := psz.dropWhile (· == '1')
  -- Allocate enough space in big-endian base256 representation.
  let size := psz.length * 733 / 1000 + 1
  match ← decodeLoop psz (List.replicate size 0, 0) with
  | none => pure none
  | some (b256, length, rest) =>
    -- Skip trailing spaces.
    if rest.dropWhile isspace ≠ [] then pure none
    else
      -- Skip leading zeroes in b256.
      let digits := (b256.take length).reverse.dropWhile (· == 0)
      pure (some (List.replicate zeroes 0 ++ digits.map UInt8.ofNat))

/-- `DecodeBase58(str, vchRet)` on a `std::string`: `str.c_str()`. -/
def DecodeBase58Str (str : List Char) : Except String (Option (List UInt8)) :=
  DecodeBase58 (str.takeWhile (· != '\x00'))

/-- `EncodeBase58Check`: the bytes, then the first four bytes of their hash. -/
def EncodeBase58Check (Hash : List UInt8 → uint256) (vchIn : List UInt8) : Except String (List Char) :=
  EncodeBase58 (vchIn ++ (serializeHash (Hash vchIn)).take 4)

/-- `DecodeBase58Check(psz, vchRet)`: `none` where it returns `false`. -/
def DecodeBase58Check (Hash : List UInt8 → uint256) (psz : List Char) :
    Except String (Option (List UInt8)) := do
  match ← DecodeBase58 psz with
  | none => pure none
  | some vchRet =>
    if vchRet.length < 4 then pure none
    else
      -- re-calculate the checksum, ensure it matches the included 4-byte checksum
      let hash := Hash (vchRet.take (vchRet.length - 4))
      if (serializeHash hash).take 4 ≠ vchRet.drop (vchRet.length - 4) then pure none
      else pure (some (vchRet.take (vchRet.length - 4)))

/-- `DecodeBase58Check(str, vchRet)` on a `std::string`: `str.c_str()`. -/
def DecodeBase58CheckStr (Hash : List UInt8 → uint256) (str : List Char) :
    Except String (Option (List UInt8)) :=
  DecodeBase58Check Hash (str.takeWhile (· != '\x00'))

/-! ## Leading runs -/

/-- A string whose first element fails `p` has no leading run of `p`. -/
theorem dropWhile_of_head {α : Type} {p : α → Bool} {l : List α} (h : ∀ x ∈ l.head?, p x = false) : l.dropWhile p = l := by
  cases l with
  | nil => rfl
  | cons x l => exact List.dropWhile_cons_of_neg (by simpa using h x rfl)

section LeadingRun

variable {α : Type} [BEq α] [LawfulBEq α]

/-- A string is its leading run of `a`s and the rest. -/
theorem replicate_append_dropWhile (a : α) (l : List α) :
    List.replicate (l.takeWhile (· == a)).length a ++ l.dropWhile (· == a) = l := by
  have hrun : l.takeWhile (· == a) = List.replicate (l.takeWhile (· == a)).length a :=
    List.eq_replicate_of_mem fun x hx => by simpa using List.mem_takeWhile_imp hx
  rw [← hrun, List.takeWhile_append_dropWhile]

/-- The leading run of `a`s of a run followed by something else. -/
theorem takeWhile_replicate_append (a : α) (n : ℕ) {l : List α} (hl : ∀ x ∈ l.head?, x ≠ a) :
    (List.replicate n a ++ l).takeWhile (· == a) = List.replicate n a ∧
      (List.replicate n a ++ l).dropWhile (· == a) = l := by
  have hrun : ∀ x ∈ List.replicate n a, (x == a) = true := by
    intro x hx
    simp [List.eq_of_mem_replicate hx]
  rw [List.takeWhile_append_of_pos hrun, List.dropWhile_append_of_pos hrun]
  cases l with
  | nil => simp
  | cons x l =>
    have hx : ¬ (x == a) = true := by simpa using hl x rfl
    rw [@List.takeWhile_cons_of_neg _ (· == a) x l hx, @List.dropWhile_cons_of_neg _ (· == a) x l hx,
      List.append_nil]
    exact ⟨rfl, rfl⟩

end LeadingRun

/-! ## Rounds on a buffer -/

/-- A round on a buffer that holds `n` succeeds when `mul * n + carry` fits,
and the buffer then holds that. -/
theorem carryRound_of_lt {base mul size : ℕ} (hbase : 1 < base) {st : List ℕ × ℕ} {n : ℕ}
    (h : Represents base size st n) {carry : ℕ} (hfit : mul * n + carry < base ^ size) :
    ∃ st', carryRound base mul st carry = .ok st' ∧ Represents base size st' (mul * n + carry) := by
  obtain ⟨hiff, hrep⟩ := @Represents.mulAdd base mul size st n h hbase carry
  have h0 := hiff.mpr hfit
  exact ⟨_, by simp [carryRound, h0], hrep h0⟩

/-- Rounds over digits below `mul`, from a buffer that holds `n`, succeed when
`(n + 1) * mul ^ k` fits, `k` the number of digits; the buffer then holds `n`
followed by the digits. -/
theorem foldlM_carryRound {base mul size : ℕ} (hbase : 1 < base) (ds : List ℕ) (hds : ∀ d ∈ ds, d < mul)
    {st : List ℕ × ℕ} {n : ℕ} (h : Represents base size st n) (hfit : (n + 1) * mul ^ ds.length ≤ base ^ size) :
    ∃ st', ds.foldlM (carryRound base mul) st = .ok st' ∧
      Represents base size st' (n * mul ^ ds.length + ofDigits mul ds.reverse) := by
  induction ds generalizing st n with
  | nil => exact ⟨st, rfl, by simpa using h⟩
  | cons d ds ih =>
    have hd := hds d List.mem_cons_self
    have hpow : 1 ≤ mul ^ ds.length := Nat.one_le_pow _ _ (by omega)
    have hstep : (n + 1) * mul ^ (d :: ds).length = mul * (n + 1) * mul ^ ds.length := by
      rw [List.length_cons, pow_succ]
      ring
    -- the round of `d` fits, since the rounds after it do
    have hfit1 : mul * n + d < base ^ size :=
      calc mul * n + d < mul * (n + 1) := by rw [mul_add, mul_one]; omega
        _ ≤ mul * (n + 1) * mul ^ ds.length := Nat.le_mul_of_pos_right _ hpow
        _ ≤ base ^ size := hstep ▸ hfit
    obtain ⟨st1, hst1, hrep1⟩ := carryRound_of_lt hbase h hfit1
    have hfit' : (mul * n + d + 1) * mul ^ ds.length ≤ base ^ size :=
      calc (mul * n + d + 1) * mul ^ ds.length ≤ mul * (n + 1) * mul ^ ds.length :=
            Nat.mul_le_mul_right _ (by rw [mul_add, mul_one]; omega)
        _ ≤ base ^ size := hstep ▸ hfit
    obtain ⟨st', hst', hrep'⟩ := ih (fun x hx => hds x (List.mem_cons_of_mem d hx)) hrep1 hfit'
    refine ⟨st', by rw [List.foldlM_cons, hst1]; exact hst', ?_⟩
    convert hrep' using 1
    rw [ofDigits_reverse_cons, List.length_cons, pow_succ]
    ring

/-! ## `EncodeBase58` -/

/-- What `EncodeBase58` returns: a `'1'` for each leading zero byte, then the
base-58 digits of the number the other bytes denote.  The buffer of
`n * 138 / 100 + 1` places holds every number of `n` bytes, since
`256 ^ 100 ≤ 58 ^ 138`, so the assert never fails. -/
theorem EncodeBase58_eq (vch : List UInt8) :
    EncodeBase58 vch = .ok (List.replicate (vch.takeWhile (· == 0)).length '1' ++
      (digits 58 (ofDigits 256 ((vch.dropWhile (· == 0)).map UInt8.toNat).reverse)).reverse.map
        fun d => pszBase58.getD d ' ') := by
  have hds : ∀ d ∈ (vch.dropWhile (· == 0)).map UInt8.toNat, d < 256 := by
    intro d hd
    obtain ⟨b, -, rfl⟩ := List.mem_map.mp hd
    exact b.toNat_lt
  have hfit : (0 + 1) * 256 ^ ((vch.dropWhile (· == 0)).map UInt8.toNat).length ≤
      58 ^ ((vch.dropWhile (· == 0)).length * 138 / 100 + 1) := by
    rw [zero_add, one_mul, List.length_map]
    exact (pow_lt_pow_div_succ (by norm_num) (by norm_num) (by norm_num) _).le
  obtain ⟨st, hfold, hrep⟩ := foldlM_carryRound (by norm_num) _ hds (represents_init (by norm_num) _) hfit
  simp only [zero_mul, zero_add] at hrep
  simp only [EncodeBase58, hfold]
  rw [← hrep.dropWhile_reverse (by norm_num)]
  rfl

/-! ## `DecodeBase58` -/

/-- The decoding loop over characters of the alphabet is the fold of their
rounds, then the loop over the rest. -/
theorem decodeLoop_append {pre : List Char} (hpre : ∀ c ∈ pre, c ∈ pszBase58) (rest : List Char)
    (st : List ℕ × ℕ) :
    decodeLoop (pre ++ rest) st =
      (pre.map fun c => (mapBase58 c).toNat).foldlM (carryRound 256 58) st >>= decodeLoop rest := by
  induction pre generalizing st with
  | nil => rfl
  | cons c pre ih =>
    have hc := hpre c List.mem_cons_self
    have hsp : ¬ isspace c = true := by simp [isspace_of_mem_pszBase58 hc]
    rw [List.cons_append, decodeLoop, if_neg hsp, if_neg (mem_pszBase58_iff.mp hc), List.map_cons,
      List.foldlM_cons, bind_assoc]
    congr 1
    funext st1
    exact ih (fun x hx => hpre x (List.mem_cons_of_mem c hx)) st1

/-- The loop stops at a space or at the end. -/
theorem decodeLoop_of_stop {rest : List Char} (hrest : ∀ c ∈ rest.head?, isspace c = true) (st : List ℕ × ℕ) :
    decodeLoop rest st = .ok (some (st.1, st.2, rest)) := by
  cases rest with
  | nil => rfl
  | cons c cs => simp [decodeLoop, hrest c rfl, Check.pure_eq_ok]

/-- The loop returns `false` at a character that is neither a space nor in the
alphabet. -/
theorem decodeLoop_of_not_mem {c : Char} (hc : c ∉ pszBase58) (hsp : isspace c = false) (cs : List Char)
    (st : List ℕ × ℕ) : decodeLoop (c :: cs) st = .ok none := by
  have hmap : mapBase58 c = -1 := by
    by_contra h
    exact hc (mem_pszBase58_iff.mpr h)
  simp [decodeLoop, hsp, hmap, Check.pure_eq_ok]

/-- The decoding loop from an empty buffer that holds every number of as many
base-58 digits as the string has characters: it reads the characters up to the
first space, into the buffer when they are all in the alphabet, and returns
`false` otherwise.  It never fails its assert. -/
theorem decodeLoop_spec {size : ℕ} (s : List Char) (hfit : 58 ^ s.length ≤ 256 ^ size) :
    ((∀ c ∈ s.takeWhile (fun c => !isspace c), c ∈ pszBase58) →
      ∃ st, decodeLoop s (List.replicate size 0, 0) = .ok (some (st.1, st.2, s.dropWhile fun c => !isspace c)) ∧
        Represents 256 size st
          (ofDigits 58 ((s.takeWhile fun c => !isspace c).map fun c => (mapBase58 c).toNat).reverse)) ∧
    (¬ (∀ c ∈ s.takeWhile (fun c => !isspace c), c ∈ pszBase58) →
      decodeLoop s (List.replicate size 0, 0) = .ok none) := by
  have hsplit := (@List.takeWhile_append_dropWhile _ (fun c => !isspace c) s).symm
  set body := s.takeWhile fun c => !isspace c
  set rest := s.dropWhile fun c => !isspace c
  have hstop : ∀ c ∈ rest.head?, isspace c = true := by
    intro c hc
    have h := List.head?_dropWhile_not (fun c => !isspace c) s
    rw [hc] at h
    simpa using h
  -- every run of rounds over a prefix of `s` fits in the buffer
  have hfits : ∀ pre : List Char, pre.length ≤ s.length →
      (0 + 1) * 58 ^ (pre.map fun c => (mapBase58 c).toNat).length ≤ 256 ^ size := by
    intro pre hpre
    rw [zero_add, one_mul, List.length_map]
    exact (Nat.pow_le_pow_right (by norm_num) hpre).trans hfit
  have hdigits : ∀ pre : List Char, (∀ c ∈ pre, c ∈ pszBase58) → ∀ d ∈ pre.map fun c => (mapBase58 c).toNat, d < 58 := by
    intro pre hpre d hd
    obtain ⟨c, hc, rfl⟩ := List.mem_map.mp hd
    exact (getD_mapBase58 (mem_pszBase58_iff.mp (hpre c hc))).2.1
  have hbody_len : body.length ≤ s.length := by
    rw [hsplit, List.length_append]
    omega
  constructor
  · intro hvalid
    obtain ⟨st, hfold, hrep⟩ := foldlM_carryRound (by norm_num) _ (hdigits body hvalid)
      (represents_init (by norm_num) size) (hfits body hbody_len)
    simp only [zero_mul, zero_add] at hrep
    refine ⟨st, ?_, hrep⟩
    rw [hsplit, decodeLoop_append hvalid, hfold, Check.ok_bind, decodeLoop_of_stop hstop]
  · intro hinvalid
    -- the first character off the alphabet: those before it are read, and it returns `false`
    have hpre_split := (@List.takeWhile_append_dropWhile _ (fun c => decide (c ∈ pszBase58)) body).symm
    set pre := body.takeWhile fun c => decide (c ∈ pszBase58)
    obtain ⟨c, post, hcpost⟩ : ∃ c post, body.dropWhile (fun c => decide (c ∈ pszBase58)) = c :: post := by
      apply List.exists_cons_of_ne_nil
      rw [ne_eq, List.dropWhile_eq_nil_iff]
      simpa using hinvalid
    have hc : c ∉ pszBase58 := by
      have h := List.head?_dropWhile_not (fun c => decide (c ∈ pszBase58)) body
      rw [hcpost] at h
      simpa using h
    have hcbody : c ∈ body := by
      rw [hpre_split, hcpost]
      simp
    have hsp : isspace c = false := by simpa using List.mem_takeWhile_imp hcbody
    have hpre_valid : ∀ x ∈ pre, x ∈ pszBase58 := fun x hx => by simpa using List.mem_takeWhile_imp hx
    have hpre_len : pre.length ≤ s.length := by
      have : pre.length ≤ body.length := by
        rw [hpre_split, List.length_append]
        omega
      omega
    obtain ⟨st, hfold, -⟩ := foldlM_carryRound (by norm_num) _ (hdigits pre hpre_valid)
      (represents_init (by norm_num) size) (hfits pre hpre_len)
    rw [hsplit, hpre_split, hcpost, List.append_assoc, decodeLoop_append hpre_valid, hfold, Check.ok_bind,
      List.cons_append, decodeLoop_of_not_mem hc hsp]

/-- Base-58 digits take less than `733 / 1000` of a byte each. -/
theorem pow_fiftyEight_le : 58 ^ 1000 ≤ 256 ^ 733 := by
  -- past an exponent of 256 the elaborator does not evaluate powers: compare
  -- `58 ^ 125` with `2 ^ 733` in pieces, and move the exponents with variables
  have h : 58 ^ 125 ≤ 2 * (2 ^ 244) ^ 3 := by norm_num
  have hpow : ∀ a b : ℕ, a ^ 1000 = (a ^ 125) ^ 8 ∧ (b * (b ^ 244) ^ 3) ^ 8 = (b ^ 8) ^ 733 := by
    intro a b
    constructor <;> ring
  calc 58 ^ 1000 = (58 ^ 125) ^ 8 := (hpow 58 2).1
    _ ≤ (2 * (2 ^ 244) ^ 3) ^ 8 := Nat.pow_le_pow_left h 8
    _ = (2 ^ 8) ^ 733 := (hpow 58 2).2
    _ = 256 ^ 733 := congrArg (· ^ 733) (show (2 : ℕ) ^ 8 = 256 from rfl)

/-- What `DecodeBase58` returns, for every string: after the leading spaces, a
zero byte for each `'1'`, then the bytes of the number that the characters up
to the next space denote, when they are all in the alphabet and only spaces
follow them; `false` otherwise.  The buffer of `n * 733 / 1000 + 1` bytes holds
every number of `n` base-58 digits, since `58 ^ 1000 ≤ 256 ^ 733`, so the
assert never fails. -/
theorem DecodeBase58_eq (psz : List Char) :
    let s := (psz.dropWhile isspace).dropWhile (· == '1')
    let body := s.takeWhile fun c => !isspace c
    ((∀ c ∈ body, c ∈ pszBase58) ∧ (∀ c ∈ s.dropWhile (fun c => !isspace c), isspace c = true) →
      DecodeBase58 psz = .ok (some (List.replicate ((psz.dropWhile isspace).takeWhile (· == '1')).length 0 ++
        (digits 256 (ofDigits 58 (body.map fun c => (mapBase58 c).toNat).reverse)).reverse.map UInt8.ofNat))) ∧
    (¬ ((∀ c ∈ body, c ∈ pszBase58) ∧ ∀ c ∈ s.dropWhile (fun c => !isspace c), isspace c = true) →
      DecodeBase58 psz = .ok none) := by
  intro s body
  have hfit : 58 ^ s.length ≤ 256 ^ (s.length * 733 / 1000 + 1) :=
    (pow_lt_pow_div_succ (by norm_num) (by norm_num) pow_fiftyEight_le _).le
  obtain ⟨hvalid, hinvalid⟩ := decodeLoop_spec s hfit
  simp only [DecodeBase58]
  constructor
  · rintro ⟨hbody, hrest⟩
    obtain ⟨st, hloop, hrep⟩ := hvalid hbody
    rw [hloop, Check.ok_bind]
    dsimp only
    rw [if_neg (by simpa [List.dropWhile_eq_nil_iff] using hrest), hrep.dropWhile_reverse (by norm_num)]
    rfl
  · intro hnot
    by_cases hbody : ∀ c ∈ body, c ∈ pszBase58
    · -- the whole run is read, and then a character that is not a space follows it
      obtain ⟨st, hloop, -⟩ := hvalid hbody
      have hrest : ¬ ∀ c ∈ s.dropWhile (fun c => !isspace c), isspace c = true := fun h => hnot ⟨hbody, h⟩
      rw [hloop, Check.ok_bind]
      dsimp only
      rw [if_pos (by simpa [List.dropWhile_eq_nil_iff] using hrest)]
      rfl
    · rw [hinvalid hbody]
      rfl

/-- `DecodeBase58` on `'1'`s followed by characters of the alphabet that do not
start with a `'1'`: a zero byte for each `'1'`, then the bytes of the number
the characters denote. -/
theorem DecodeBase58_replicate_append (z : ℕ) {E : List Char} (hE : ∀ c ∈ E, c ∈ pszBase58)
    (hhead : ∀ c ∈ E.head?, c ≠ '1') :
    DecodeBase58 (List.replicate z '1' ++ E) =
      .ok (some (List.replicate z 0 ++
        (digits 256 (ofDigits 58 (E.map fun c => (mapBase58 c).toNat).reverse)).reverse.map UInt8.ofNat)) := by
  have h1 : '1' ∈ pszBase58 := one_mem_pszBase58
  have hnosp : ∀ c ∈ (List.replicate z '1' ++ E).head?, isspace c = false := by
    intro c hc
    apply isspace_of_mem_pszBase58
    rcases List.mem_append.mp (List.mem_of_mem_head? hc) with hc | hc
    · rw [List.eq_of_mem_replicate hc]
      exact h1
    · exact hE c hc
  obtain ⟨hones, hrestE⟩ := takeWhile_replicate_append '1' z hhead
  have hbody : E.takeWhile (fun c => !isspace c) = E :=
    List.takeWhile_eq_self_iff.mpr fun c hc => by simp [isspace_of_mem_pszBase58 (hE c hc)]
  have hrest : E.dropWhile (fun c => !isspace c) = [] :=
    List.dropWhile_eq_nil_iff.mpr fun c hc => by simp [isspace_of_mem_pszBase58 (hE c hc)]
  have h := DecodeBase58_eq (List.replicate z '1' ++ E)
  simp only [dropWhile_of_head hnosp, hones, hrestE, List.length_replicate, hbody, hrest] at h
  exact h.1 ⟨hE, by simp⟩

/-- `DecodeBase58` reads back what `EncodeBase58` writes, which has a `'1'` for
each leading zero byte and no NUL. -/
theorem DecodeBase58_EncodeBase58 (vch : List UInt8) :
    ∃ s, EncodeBase58 vch = .ok s ∧ (s.takeWhile (· == '1')).length = (vch.takeWhile (· == 0)).length ∧
      '\x00' ∉ s ∧ DecodeBase58 s = .ok (some vch) := by
  have hbytes : ∀ d ∈ (vch.dropWhile (· == 0)).map UInt8.toNat, d < 256 := by
    intro d hd
    obtain ⟨b, -, rfl⟩ := List.mem_map.mp hd
    exact b.toNat_lt
  have hhead : ∀ d ∈ ((vch.dropWhile (· == 0)).map UInt8.toNat).head?, d ≠ 0 := by
    intro d hd
    have h := List.head?_dropWhile_not (· == (0 : UInt8)) vch
    rw [List.head?_map, Option.mem_map] at hd
    obtain ⟨b, hb, rfl⟩ := hd
    rw [hb] at h
    have hb0 : b ≠ 0 := by simpa using h
    intro h0
    exact hb0 (UInt8.toNat_inj.mp (by simpa using h0))
  set V := ofDigits 256 ((vch.dropWhile (· == 0)).map UInt8.toNat).reverse
  -- the characters `EncodeBase58` writes after the `'1'`s
  have hdig : ∀ d ∈ (digits 58 V).reverse, d < 58 := fun d hd =>
    digits_lt_base (by norm_num) (List.mem_reverse.mp hd)
  have hE : ∀ c ∈ (digits 58 V).reverse.map (fun d => pszBase58.getD d ' '), c ∈ pszBase58 := by
    intro c hc
    obtain ⟨d, hd, rfl⟩ := List.mem_map.mp hc
    exact getD_mem_pszBase58 (hdig d hd)
  have hEhead : ∀ c ∈ ((digits 58 V).reverse.map fun d => pszBase58.getD d ' ').head?, c ≠ '1' := by
    intro c hc
    rw [List.head?_map, Option.mem_map] at hc
    obtain ⟨d, hd, rfl⟩ := hc
    rw [ne_eq, getD_pszBase58_eq_one_iff (hdig d (List.mem_of_mem_head? hd))]
    exact head?_reverse_digits 58 V d hd
  have h1 : '1' ∈ pszBase58 := one_mem_pszBase58
  have hnul : '\x00' ∉ pszBase58 := nul_not_mem_pszBase58
  refine ⟨_, EncodeBase58_eq vch, by rw [(takeWhile_replicate_append '1' _ hEhead).1, List.length_replicate], ?_, ?_⟩
  · intro hmem
    rcases List.mem_append.mp hmem with h0 | h0
    · exact absurd (List.eq_of_mem_replicate h0) (by decide)
    · exact hnul (hE _ h0)
  rw [DecodeBase58_replicate_append _ hE hEhead, map_mapBase58_getD hdig, List.reverse_reverse, ofDigits_digits,
    digits_ofDigits_reverse (by norm_num) hbytes hhead, List.map_map]
  -- the zero bytes, then the other bytes, each read back
  conv_rhs => rw [← replicate_append_dropWhile (0 : UInt8) vch]
  congr 3
  conv_rhs => rw [← List.map_id (vch.dropWhile (· == 0))]
  apply List.map_congr_left
  intro b _
  exact UInt8.ofNat_toNat

/-! ## The strings `DecodeBase58` accepts -/

/-- A run of characters of the alphabet, with spaces before and after it. -/
def IsBase58String (s : List Char) : Prop :=
  ∃ pre body post, s = pre ++ body ++ post ∧ (∀ c ∈ pre, isspace c = true) ∧
    (∀ c ∈ body, c ∈ pszBase58) ∧ ∀ c ∈ post, isspace c = true

/-- A character of an accepted string is a space or in the alphabet; so a NUL
is none of them. -/
theorem IsBase58String.not_nul_mem {s : List Char} (hs : IsBase58String s) : '\x00' ∉ s := by
  obtain ⟨pre, body, post, rfl, hpre, hbody, hpost⟩ := hs
  intro hmem
  rcases List.mem_append.mp hmem with hmem | hmem
  · rcases List.mem_append.mp hmem with hmem | hmem
    · exact absurd (hpre _ hmem) (by decide)
    · exact absurd (hbody _ hmem) nul_not_mem_pszBase58
  · exact absurd (hpost _ hmem) (by decide)

/-- Characters of the alphabet followed by spaces: the loop reads the
characters and stops at the spaces. -/
theorem takeWhile_append_spaces {body post : List Char} (hbody : ∀ c ∈ body, c ∈ pszBase58)
    (hpost : ∀ c ∈ post, isspace c = true) :
    (body ++ post).takeWhile (fun c => !isspace c) = body ∧
      (body ++ post).dropWhile (fun c => !isspace c) = post := by
  have hchars : ∀ c ∈ body, (!isspace c) = true := fun c hc => by
    rw [isspace_of_mem_pszBase58 (hbody c hc)]
    rfl
  have hstop : ∀ c ∈ post.head?, (!isspace c) = false := fun c hc => by
    rw [hpost c (List.mem_of_mem_head? hc)]
    rfl
  rw [List.takeWhile_append_of_pos hchars, List.dropWhile_append_of_pos hchars, dropWhile_of_head hstop]
  refine ⟨?_, rfl⟩
  cases post with
  | nil => rw [List.takeWhile_nil, List.append_nil]
  | cons c post => rw [List.takeWhile_cons_of_neg (by rw [hstop c rfl]; decide), List.append_nil]

/-- The strings `DecodeBase58` accepts, in its own terms: after the leading
spaces and `'1'`s, characters of the alphabet up to the next space, and only
spaces after them. -/
theorem isBase58String_iff (psz : List Char) :
    let s := (psz.dropWhile isspace).dropWhile (· == '1')
    IsBase58String psz ↔ (∀ c ∈ s.takeWhile (fun c => !isspace c), c ∈ pszBase58) ∧
      ∀ c ∈ s.dropWhile (fun c => !isspace c), isspace c = true := by
  intro s
  have h1 : '1' ∈ pszBase58 := one_mem_pszBase58
  constructor
  · rintro ⟨pre, body, post, hpsz, hpre, hbody, hpost⟩
    -- after the spaces and the `'1'`s come the rest of the run and the spaces after it
    obtain ⟨body2, post2, hs, hbody2, hpost2⟩ : ∃ body2 post2, s = body2 ++ post2 ∧
        (∀ c ∈ body2, c ∈ pszBase58) ∧ ∀ c ∈ post2, isspace c = true := by
      have hdrop : psz.dropWhile isspace = (body ++ post).dropWhile isspace := by
        rw [hpsz, List.append_assoc, List.dropWhile_append_of_pos hpre]
      cases body with
      | nil =>
        refine ⟨[], [], ?_, by simp, by simp⟩
        have hnil : ([] ++ post).dropWhile isspace = [] := List.dropWhile_eq_nil_iff.mpr (by simpa using hpost)
        simp only [s, hdrop, hnil, List.dropWhile_nil, List.append_nil]
      | cons b bs =>
        have hb : isspace b = false := isspace_of_mem_pszBase58 (hbody b List.mem_cons_self)
        refine ⟨(b :: bs).dropWhile (· == '1'), post, ?_, fun c hc => hbody c ((List.dropWhile_sublist _).subset hc), hpost⟩
        have hpost1 : post.dropWhile (· == '1') = post := dropWhile_of_head fun c hc => by
          have hsp := hpost c (List.mem_of_mem_head? hc)
          have hne : c ≠ '1' := by
            rintro rfl
            exact absurd hsp (by decide)
          simpa using hne
        have hsp : (b :: bs ++ post).dropWhile isspace = b :: bs ++ post :=
          dropWhile_of_head (by simp [hb])
        simp only [s, hdrop, hsp]
        rw [List.dropWhile_append]
        split
        · rename_i hempty
          rw [hpost1, List.isEmpty_iff.mp hempty, List.nil_append]
        · rfl
    obtain ⟨htake, hdrop⟩ := takeWhile_append_spaces hbody2 hpost2
    rw [hs, htake, hdrop]
    exact ⟨hbody2, hpost2⟩
  · rintro ⟨hbody, hrest⟩
    refine ⟨psz.takeWhile isspace, (psz.dropWhile isspace).takeWhile (· == '1') ++ s.takeWhile fun c => !isspace c,
      s.dropWhile fun c => !isspace c, ?_, fun c hc => List.mem_takeWhile_imp hc, ?_, hrest⟩
    · rw [List.append_assoc, List.append_assoc, List.takeWhile_append_dropWhile, List.takeWhile_append_dropWhile,
        List.takeWhile_append_dropWhile]
    · intro c hc
      rcases List.mem_append.mp hc with hc | hc
      · have hone : c = '1' := by simpa using List.mem_takeWhile_imp hc
        rw [hone]
        exact h1
      · exact hbody c hc

/-- `EncodeBase58` writes back what `DecodeBase58` reads from a run of the
alphabet between spaces, without the spaces. -/
theorem EncodeBase58_DecodeBase58 {psz : List Char} (h : IsBase58String psz) :
    ∃ v, DecodeBase58 psz = .ok (some v) ∧ EncodeBase58 v = .ok (psz.filter fun c => !isspace c) := by
  have hiff := isBase58String_iff psz
  have hdec := DecodeBase58_eq psz
  simp only at hiff hdec
  obtain ⟨hbody, hrest⟩ := hiff.mp h
  refine ⟨_, hdec.1 ⟨hbody, hrest⟩, ?_⟩
  set ones := (psz.dropWhile isspace).takeWhile (· == '1')
  set s := (psz.dropWhile isspace).dropWhile (· == '1')
  set body := s.takeWhile fun c => !isspace c
  set V := ofDigits 58 (body.map fun c => (mapBase58 c).toNat).reverse
  -- the digits of `body`: below 58, the first not zero
  have hdig : ∀ d ∈ body.map fun c => (mapBase58 c).toNat, d < 58 := by
    intro d hd
    obtain ⟨c, hc, rfl⟩ := List.mem_map.mp hd
    exact (getD_mapBase58 (mem_pszBase58_iff.mp (hbody c hc))).2.1
  have hhead : ∀ d ∈ (body.map fun c => (mapBase58 c).toNat).head?, d ≠ 0 := by
    intro d hd
    rw [List.head?_map, Option.mem_map] at hd
    obtain ⟨c, hc, rfl⟩ := hd
    have hcs : c ∈ s.head? := by
      rw [← List.takeWhile_append_dropWhile (p := fun c => !isspace c) (l := s), List.head?_append, hc]
      rfl
    have hne : c ≠ '1' := by
      have h' := List.head?_dropWhile_not (· == '1') (psz.dropWhile isspace)
      rw [Option.mem_def.mp hcs] at h'
      simpa using h'
    obtain ⟨-, h58, hget⟩ := getD_mapBase58 (mem_pszBase58_iff.mp (hbody c (List.mem_of_mem_head? hc)))
    rw [ne_eq, ← getD_pszBase58_eq_one_iff h58, hget]
    exact hne
  -- the bytes: a zero for each `'1'`, then the digits of `V`
  have hbytes : ∀ d ∈ (digits 256 V).reverse, d < 256 := fun d hd =>
    digits_lt_base (by norm_num) (List.mem_reverse.mp hd)
  have hlead : ∀ b ∈ ((digits 256 V).reverse.map UInt8.ofNat).head?, b ≠ 0 := by
    intro b hb
    rw [List.head?_map, Option.mem_map] at hb
    obtain ⟨d, hd, rfl⟩ := hb
    have hd0 := head?_reverse_digits 256 V d hd
    have hd256 := hbytes d (List.mem_of_mem_head? hd)
    intro h0
    apply hd0
    have := congrArg UInt8.toNat h0
    simpa [Nat.mod_eq_of_lt hd256] using this
  have hround : ((digits 256 V).reverse.map UInt8.ofNat).map UInt8.toNat = (digits 256 V).reverse := by
    rw [List.map_map]
    conv_rhs => rw [← List.map_id (digits 256 V).reverse]
    apply List.map_congr_left
    intro d hd
    simp [Nat.mod_eq_of_lt (hbytes d hd)]
  obtain ⟨hzeros, hrestbytes⟩ := takeWhile_replicate_append (0 : UInt8) ones.length hlead
  rw [EncodeBase58_eq, hzeros, hrestbytes, hround, List.reverse_reverse, ofDigits_digits,
    digits_ofDigits_reverse (by norm_num) hdig hhead, map_getD_mapBase58 hbody, List.length_replicate]
  -- the string without its spaces: the `'1'`s and `body`
  have hs : body ++ s.dropWhile (fun c => !isspace c) = s := List.takeWhile_append_dropWhile
  have hones : ones ++ s = psz.dropWhile isspace := List.takeWhile_append_dropWhile
  have hsplit : psz.takeWhile isspace ++ (ones ++ (body ++ s.dropWhile fun c => !isspace c)) = psz := by
    rw [hs, hones, List.takeWhile_append_dropWhile]
  have hrun : ones = List.replicate ones.length '1' :=
    List.eq_replicate_of_mem fun c hc => by simpa using List.mem_takeWhile_imp hc
  have hpre : (psz.takeWhile isspace).filter (fun c => !isspace c) = [] :=
    List.filter_eq_nil_iff.mpr fun c hc => by simp [List.mem_takeWhile_imp hc]
  have honesf : ones.filter (fun c => !isspace c) = ones := List.filter_eq_self.mpr fun c hc => by
    rw [hrun] at hc
    rw [List.eq_of_mem_replicate hc]
    decide
  have hbodyf : body.filter (fun c => !isspace c) = body :=
    List.filter_eq_self.mpr fun c hc => @List.mem_takeWhile_imp _ (fun c => !isspace c) s c hc
  have hrestf : (s.dropWhile fun c => !isspace c).filter (fun c => !isspace c) = [] :=
    List.filter_eq_nil_iff.mpr fun c hc => by simp [hrest c hc]
  rw [← hsplit, List.filter_append, List.filter_append, List.filter_append, hpre, honesf, hbodyf, hrestf,
    List.append_nil, List.nil_append, ← hrun]

example : EncodeBase58 [0, 0, 57] = .ok ['1', '1', 'z'] := by decide

/-- `DecodeBase58` returns `false` on every other string. -/
theorem DecodeBase58_of_not_isBase58String {psz : List Char} (h : ¬ IsBase58String psz) :
    DecodeBase58 psz = .ok none := by
  have hiff := isBase58String_iff psz
  have hdec := DecodeBase58_eq psz
  simp only at hiff hdec
  exact hdec.2 fun hc => h (hiff.mpr hc)

/-- The `std::string` overload reads a string with no NUL whole. -/
theorem DecodeBase58Str_eq {str : List Char} (h : '\x00' ∉ str) : DecodeBase58Str str = DecodeBase58 str := by
  rw [DecodeBase58Str, List.takeWhile_eq_self_iff.mpr fun c hc => by
    have hne : c ≠ '\x00' := fun hc0 => h (hc0 ▸ hc)
    simpa using hne]

theorem DecodeBase58CheckStr_eq {Hash : List UInt8 → uint256} {str : List Char} (h : '\x00' ∉ str) :
    DecodeBase58CheckStr Hash str = DecodeBase58Check Hash str := by
  rw [DecodeBase58CheckStr, List.takeWhile_eq_self_iff.mpr fun c hc => by
    have hne : c ≠ '\x00' := fun hc0 => h (hc0 ▸ hc)
    simpa using hne]

/-! ## With a checksum -/

/-- `DecodeBase58Check` reads back what `EncodeBase58Check` writes. -/
theorem DecodeBase58Check_EncodeBase58Check (Hash : List UInt8 → uint256) (vchIn : List UInt8) :
    ∃ s, EncodeBase58Check Hash vchIn = .ok s ∧ '\x00' ∉ s ∧ DecodeBase58Check Hash s = .ok (some vchIn) := by
  obtain ⟨s, henc, -, hnul, hdec⟩ := DecodeBase58_EncodeBase58 (vchIn ++ (serializeHash (Hash vchIn)).take 4)
  refine ⟨s, henc, hnul, ?_⟩
  have hlen : ((serializeHash (Hash vchIn)).take 4).length = 4 := by simp [serializeHash]
  have hsplit : (vchIn ++ (serializeHash (Hash vchIn)).take 4).length - 4 = vchIn.length := by
    rw [List.length_append, hlen]
    omega
  simp only [DecodeBase58Check, hdec, Check.ok_bind]
  rw [if_neg (by rw [List.length_append, hlen]; omega), hsplit, List.take_left, List.drop_left, if_neg (not_not.mpr rfl)]
  rfl

/-! ## Round trips -/

theorem base58_roundTrip :
    (∀ v : List UInt8, ∃ s, EncodeBase58 v = .ok s ∧
      (s.takeWhile (· == '1')).length = (v.takeWhile (· == 0)).length ∧ DecodeBase58Str s = .ok (some v)) ∧
    (∀ s : List Char, IsBase58String s →
      ∃ v, DecodeBase58Str s = .ok (some v) ∧ EncodeBase58 v = .ok (s.filter fun c => !isspace c)) ∧
    (∀ s : List Char, '\x00' ∉ s → ¬ IsBase58String s → DecodeBase58Str s = .ok none) ∧
    ∀ (Hash : List UInt8 → uint256) (v : List UInt8), ∃ s, EncodeBase58Check Hash v = .ok s ∧
      DecodeBase58CheckStr Hash s = .ok (some v) := by
  refine ⟨fun v => ?_, fun s hs => ?_, fun s hnul hs => ?_, fun Hash v => ?_⟩
  · obtain ⟨s, henc, hones, hnul, hdec⟩ := DecodeBase58_EncodeBase58 v
    exact ⟨s, henc, hones, by rw [DecodeBase58Str_eq hnul, hdec]⟩
  · obtain ⟨v, hdec, henc⟩ := EncodeBase58_DecodeBase58 hs
    exact ⟨v, by rw [DecodeBase58Str_eq hs.not_nul_mem, hdec], henc⟩
  · rw [DecodeBase58Str_eq hnul, DecodeBase58_of_not_isBase58String hs]
  · obtain ⟨s, henc, hnul, hdec⟩ := DecodeBase58Check_EncodeBase58Check Hash v
    exact ⟨s, henc, by rw [DecodeBase58CheckStr_eq hnul, hdec]⟩

/-- A zero byte and the byte `57` are written `"1z"` and read back. -/
theorem base58_roundTrip_zero_57 :
    ∃ s, EncodeBase58 [0, 57] = .ok s ∧ DecodeBase58Str s = .ok (some [0, 57]) := by
  obtain ⟨s, henc, -, hdec⟩ := base58_roundTrip.1 [0, 57]
  exact ⟨s, henc, hdec⟩

/-- The `std::string` `"\0"` is no run of the alphabet between spaces, yet
`DecodeBase58` accepts it: `c_str()` ends at the NUL, and the empty C string
decodes to no bytes. -/
theorem DecodeBase58Str_nul : ¬ IsBase58String ['\x00'] ∧ DecodeBase58Str ['\x00'] = .ok (some []) := by
  refine ⟨fun hs => hs.not_nul_mem (List.mem_singleton_self _), rfl⟩

end XPChain
