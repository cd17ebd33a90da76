import XPChain.Script.Script

/-!
# Minimal script numbers

`CScriptNum::serialize` writes a number as its little-endian magnitude with
the sign in the top bit of the last byte, adding a byte when the magnitude
already uses that bit.  The constructor with `fRequireMinimal` rejects any
other spelling of a number: a last byte that carries only the sign must
follow a byte whose top bit is set.  Together the two make the encoding a
bijection between the numbers of `int64_t` other than `INT64_MIN` and the
minimal byte strings of at most eight bytes.

The proofs split a byte string at its last byte: `setVch` and `isMinimal`
read only that byte and the one before it, and `serialize` is decided by the
top byte of the magnitude (`serialize_of_magnitudeBytes`).

## Main statements

* `CScriptNum.ofVch_serialize` — a serialisation reads back, minimal and in
  at most eight bytes.
* `CScriptNum.serialize_setVch` — a minimal string is the serialisation of
  its value.
-/

set_option autoImplicit false

namespace XPChain

open LittleEndian

theorem magnitudeBytes_eq_nil_iff {fuel n : ℕ} : magnitudeBytes fuel n = [] ↔ fuel = 0 ∨ n = 0 := by
  cases fuel with
  | zero => simp [magnitudeBytes]
  | succ fuel =>
    by_cases hn : n = 0
    · simp [magnitudeBytes, hn]
    · simp [magnitudeBytes, hn]

/-- The loop stops at the top non-zero byte: the last byte it writes is never
zero. -/
theorem getLast?_magnitudeBytes_ne_zero {fuel n : ℕ} (h : n < 256 ^ fuel) :
    (magnitudeBytes fuel n).getLast? ≠ some 0 := by
  induction fuel generalizing n with
  | zero => simp [magnitudeBytes]
  | succ fuel ih =>
    by_cases hn : n = 0
    · simp [magnitudeBytes, hn]
    rw [magnitudeBytes, if_neg hn]
    by_cases ht : magnitudeBytes fuel (n / 256) = []
    · -- the tail is empty: `n` is a single byte
      have hlt : n < 256 := by
        rcases magnitudeBytes_eq_nil_iff.mp ht with rfl | h0
        · simpa using h
        · omega
      rw [ht, List.getLast?_singleton, ne_eq, Option.some.injEq, ← UInt8.toNat_inj, UInt8.toNat_ofNat']
      simp only [UInt8.toNat_zero]
      omega
    · rw [List.getLast?_cons_of_ne_nil ht]
      exact ih (by rw [pow_succ] at h; omega)

/-- A byte string without a trailing zero byte is the magnitude of its value. -/
theorem magnitudeBytes_leValue {l : List UInt8} (hl : l.getLast? ≠ some 0) {fuel : ℕ}
    (hfuel : l.length ≤ fuel) : magnitudeBytes fuel (leValue l) = l := by
  induction l generalizing fuel with
  | nil => cases fuel <;> rfl
  | cons b t ih =>
    obtain ⟨fuel, rfl⟩ : ∃ f, fuel = f + 1 := ⟨fuel - 1, by simp at hfuel; omega⟩
    have hpos : leValue (b :: t) ≠ 0 := (leValue_pos (List.cons_ne_nil b t) hl).ne'
    have hb := UInt8.toNat_lt b
    have htl : t.getLast? ≠ some 0 := by
      cases t with
      | nil => simp
      | cons c t => rwa [List.getLast?_cons_cons] at hl
    rw [magnitudeBytes, if_neg hpos, leValue_cons]
    have hmod : (b.toNat + 256 * leValue t) % 256 = b.toNat := by omega
    have hdiv : (b.toNat + 256 * leValue t) / 256 = leValue t := by omega
    rw [hmod, hdiv, UInt8.ofNat_toNat, ih htl (by simp at hfuel; omega)]

/-- `set_vch` reads the last byte's top bit as the sign. -/
theorem CScriptNum.setVch_append_singleton (l : valtype) (x : UInt8) :
    CScriptNum.setVch (l ++ [x]) =
      if x.toNat < 128 then ((leValue l + x.toNat * 256 ^ l.length : ℕ) : ℤ)
      else -((leValue l + (x.toNat - 128) * 256 ^ l.length : ℕ) : ℤ) := by
  have hval : leValue (l ++ [x]) = leValue l + x.toNat * 256 ^ l.length := by
    rw [leValue_append, leValue_cons, leValue_nil, Nat.mul_zero, Nat.add_zero, Nat.mul_comm]
  rw [CScriptNum.setVch, List.getLast?_append_of_ne_nil _ (List.cons_ne_nil x []), List.getLast?_singleton]
  dsimp only
  rw [hval, List.length_append, List.length_singleton, Nat.add_sub_cancel]
  by_cases hx : x.toNat < 128
  · rw [if_neg (not_not.mpr ((byte_and_0x80_eq_zero x).mpr hx)), if_pos hx]
  · rw [if_pos (mt (byte_and_0x80_eq_zero x).mp hx), if_neg hx]
    have hsplit : x.toNat * 256 ^ l.length = (x.toNat - 128) * 256 ^ l.length + 0x80 * 256 ^ l.length := by
      rw [← Nat.add_mul, Nat.sub_add_cancel (by omega)]
    rw [hsplit, ← Nat.add_assoc, Nat.add_sub_cancel]

/-- The minimal-encoding test looks at the last byte and, when that byte is
only a sign, at the byte before it. -/
theorem CScriptNum.isMinimal_append_singleton (l : valtype) (x : UInt8) :
    CScriptNum.isMinimal (l ++ [x]) = true ↔
      x.toNat % 128 ≠ 0 ∨ (l ≠ [] ∧ 128 ≤ (l.getLastD 0).toNat) := by
  rw [CScriptNum.isMinimal, List.getLast?_append_of_ne_nil _ (List.cons_ne_nil x []), List.getLast?_singleton]
  dsimp only
  by_cases hx : x.toNat % 128 = 0
  · rw [if_pos ((byte_and_0x7f_eq_zero x).mpr hx)]
    rcases List.eq_nil_or_concat' l with rfl | ⟨l, c, rfl⟩
    · simp [hx]
    · have hget : (l ++ [c] ++ [x]).getD ((l ++ [c] ++ [x]).length - 2) 0 = c := by simp
      rw [hget, List.getLastD_eq_getLast?, List.getLast?_append_of_ne_nil _ (List.cons_ne_nil c []),
        List.getLast?_singleton]
      simp [byte_and_0x80_eq_zero, hx]
  · rw [if_neg (mt (byte_and_0x7f_eq_zero x).mp hx)]
    simp [hx]

theorem getLastD_append_singleton (l : valtype) (c : UInt8) : (l ++ [c]).getLastD 0 = c := by
  rw [List.getLastD_eq_getLast?, List.getLast?_append_of_ne_nil _ (List.cons_ne_nil c []), List.getLast?_singleton]
  rfl

/-- `serialize` of a number whose magnitude has the bytes `pre ++ [c]`: the
sign goes into the top bit of `c`, or into a byte of its own when `c` has
that bit set. -/
theorem CScriptNum.serialize_of_magnitudeBytes {v : ℤ} (hv : v ≠ 0) {pre : valtype} {c : UInt8}
    (hm : magnitudeBytes 8 v.natAbs = pre ++ [c]) :
    CScriptNum.serialize v =
      if c.toNat < 128 then pre ++ [if v < 0 then c ||| 0x80 else c]
      else pre ++ [c, if v < 0 then 0x80 else 0] := by
  rw [CScriptNum.serialize, if_neg hv]
  dsimp only
  rw [hm, getLastD_append_singleton]
  by_cases hc : c.toNat < 128
  · rw [if_neg (not_not.mpr ((byte_and_0x80_eq_zero c).mpr hc)), if_pos hc]
    by_cases hneg : v < 0
    · rw [if_pos (decide_eq_true hneg), if_pos hneg, List.dropLast_concat]
    · rw [if_neg (by simpa using hneg), if_neg hneg]
  · rw [if_pos (mt (byte_and_0x80_eq_zero c).mp hc), if_neg hc]
    by_cases hneg : v < 0 <;> simp [hneg]

theorem CScriptNum.ofVch_eq_some {vch : valtype} {n : ℕ} {v : ℤ} (hlen : vch.length ≤ n)
    (hmin : CScriptNum.isMinimal vch = true) (hset : CScriptNum.setVch vch = v) :
    CScriptNum.ofVch vch true n = some v := by
  rw [CScriptNum.ofVch, if_neg (by omega), hmin, hset]
  rfl

/-- Every number but `INT64_MIN` reads back from its serialisation, which is
minimal and at most eight bytes long. -/
theorem CScriptNum.ofVch_serialize {v : ℤ} (h₁ : -2 ^ 63 < v) (h₂ : v < 2 ^ 63) :
    CScriptNum.ofVch (CScriptNum.serialize v) true 8 = some v := by
  by_cases hv : v = 0
  · subst hv
    rfl
  have hk : v.natAbs < 2 ^ 63 := by omega
  have hval : leValue (magnitudeBytes 8 v.natAbs) = v.natAbs := leValue_magnitudeBytes (by omega)
  have hlast := getLast?_magnitudeBytes_ne_zero (show v.natAbs < 256 ^ 8 by omega)
  have hlen8 := @length_magnitudeBytes_le 8 _ _ (show v.natAbs < 256 ^ 8 by omega)
  obtain ⟨pre, c, hm⟩ := (List.eq_nil_or_concat' (magnitudeBytes 8 v.natAbs)).resolve_left
    (by rw [magnitudeBytes_eq_nil_iff]; omega)
  rw [hm, leValue_append_singleton] at hval
  rw [hm, List.getLast?_append_of_ne_nil _ (List.cons_ne_nil c []), List.getLast?_singleton] at hlast
  rw [hm, List.length_append, List.length_singleton] at hlen8
  have hc0 : c.toNat ≠ 0 := fun h => hlast (by rw [← UInt8.toNat_inj.mp (h.trans UInt8.toNat_zero.symm)])
  rw [CScriptNum.serialize_of_magnitudeBytes hv hm]
  by_cases hc : c.toNat < 128
  · rw [if_pos hc]
    apply CScriptNum.ofVch_eq_some (by simp; omega)
    · rw [CScriptNum.isMinimal_append_singleton]
      left
      split_ifs
      · rw [toNat_byte_or_0x80 hc]; omega
      · omega
    · rw [CScriptNum.setVch_append_singleton]
      split_ifs with hneg hlt
      · rw [toNat_byte_or_0x80 hc] at hlt; omega
      · rw [toNat_byte_or_0x80 hc, Nat.add_sub_cancel, hval]; omega
      · rw [hval]; omega
  · -- the magnitude's top bit is taken, so the sign needs a ninth byte at most
    have hshort : pre.length ≤ 6 := by
      by_contra hlong
      have h7 : pre.length = 7 := by omega
      rw [h7] at hval
      omega
    rw [if_neg hc, show pre ++ [c, if v < 0 then 0x80 else 0] = pre ++ [c] ++ [if v < 0 then 0x80 else 0] by simp]
    apply CScriptNum.ofVch_eq_some (by simp; omega)
    · rw [CScriptNum.isMinimal_append_singleton, getLastD_append_singleton]
      right
      exact ⟨by simp, by omega⟩
    · rw [CScriptNum.setVch_append_singleton, leValue_append_singleton, hval]
      by_cases hneg : v < 0
      · rw [if_pos hneg, if_neg (by decide), show (0x80 : UInt8).toNat - 128 = 0 from rfl, Nat.zero_mul,
          Nat.add_zero]
        omega
      · rw [if_neg hneg, if_pos (by decide), show (0 : UInt8).toNat = 0 from rfl, Nat.zero_mul, Nat.add_zero]
        omega

theorem byte_eq_of_toNat {x : UInt8} {n : ℕ} (h : x.toNat = n) : x = UInt8.ofNat n := by
  rw [← h, UInt8.ofNat_toNat]

/-- A minimal encoding of at most eight bytes is the serialisation of the
number it denotes. -/
theorem CScriptNum.serialize_setVch {vch : valtype} (hlen : vch.length ≤ 8)
    (hmin : CScriptNum.isMinimal vch = true) : CScriptNum.serialize (CScriptNum.setVch vch) = vch := by
  rcases List.eq_nil_or_concat' vch with rfl | ⟨l, x, rfl⟩
  · rfl
  rw [CScriptNum.isMinimal_append_singleton] at hmin
  rw [List.length_append, List.length_singleton] at hlen
  rw [CScriptNum.setVch_append_singleton]
  have hx256 := UInt8.toNat_lt x
  by_cases hy : x.toNat % 128 = 0
  · -- the last byte carries the sign only: the byte before it has its top bit set
    obtain ⟨hne, hc⟩ := hmin.resolve_left (not_not.mpr hy)
    obtain ⟨pre, c, rfl⟩ := (List.eq_nil_or_concat' l).resolve_left hne
    rw [getLastD_append_singleton] at hc
    have hc0 : (pre ++ [c]).getLast? ≠ some 0 := by
      rw [List.getLast?_append_of_ne_nil _ (List.cons_ne_nil c []), List.getLast?_singleton, ne_eq,
        Option.some.injEq, ← UInt8.toNat_inj]
      simp only [UInt8.toNat_zero]
      omega
    have hm := @magnitudeBytes_leValue (pre ++ [c]) hc0 8 (by omega)
    have hpos := leValue_pos hne hc0
    by_cases hx : x.toNat < 128
    · have hx0 : x.toNat = 0 := by omega
      rw [if_pos hx, hx0, Nat.zero_mul, Nat.add_zero]
      rw [CScriptNum.serialize_of_magnitudeBytes (by simp; omega) (by simpa using hm), if_neg (by omega),
        if_neg (by omega), byte_eq_of_toNat hx0]
      simp
    · have hx128 : x.toNat - 128 = 0 := by omega
      rw [if_neg hx, hx128, Nat.zero_mul, Nat.add_zero]
      rw [CScriptNum.serialize_of_magnitudeBytes (by simp; omega) (by simpa using hm), if_neg (by omega),
        if_pos (by omega), byte_eq_of_toNat (show x.toNat = 128 by omega)]
      simp
  · -- the last byte keeps magnitude bits besides the sign
    set y := UInt8.ofNat (x.toNat % 128) with hy_def
    have hyn : y.toNat = x.toNat % 128 := by rw [hy_def, UInt8.toNat_ofNat']; omega
    have hy0 : (l ++ [y]).getLast? ≠ some 0 := by
      rw [List.getLast?_append_of_ne_nil _ (List.cons_ne_nil y []), List.getLast?_singleton, ne_eq,
        Option.some.injEq, ← UInt8.toNat_inj, hyn]
      simp only [UInt8.toNat_zero]
      omega
    have hm := @magnitudeBytes_leValue (l ++ [y]) hy0 8 (by simp; omega)
    have hpos := leValue_pos (List.append_ne_nil_of_right_ne_nil l (List.cons_ne_nil y [])) hy0
    by_cases hx : x.toNat < 128
    · have hN : leValue l + x.toNat * 256 ^ l.length = leValue (l ++ [y]) := by
        rw [leValue_append_singleton, hyn, Nat.mod_eq_of_lt hx]
      rw [if_pos hx, hN]
      rw [CScriptNum.serialize_of_magnitudeBytes (by omega) (by rwa [Int.natAbs_natCast]), if_pos (by rw [hyn]; omega),
        if_neg (by omega), hy_def, Nat.mod_eq_of_lt hx, UInt8.ofNat_toNat]
    · have hN : leValue l + (x.toNat - 128) * 256 ^ l.length = leValue (l ++ [y]) := by
        rw [leValue_append_singleton, hyn, show x.toNat - 128 = x.toNat % 128 by omega]
      rw [if_neg hx, hN]
      rw [CScriptNum.serialize_of_magnitudeBytes (by omega) (by rwa [Int.natAbs_neg, Int.natAbs_natCast]),
        if_pos (by rw [hyn]; omega), if_pos (by omega)]
      congr 2
      apply UInt8.toNat_inj.mp
      rw [toNat_byte_or_0x80 (by rw [hyn]; omega), hyn]
      omega

theorem CScriptNum.serialize_minimal_roundTrip :
    (∀ v : ℤ, -2 ^ 63 < v → v < 2 ^ 63 → CScriptNum.ofVch (CScriptNum.serialize v) true 8 = some v) ∧
    ∀ vch : valtype, vch.length ≤ 8 → CScriptNum.isMinimal vch = true →
      CScriptNum.serialize (CScriptNum.setVch vch) = vch :=
  ⟨fun _ h₁ h₂ => CScriptNum.ofVch_serialize h₁ h₂, fun _ hlen hmin => CScriptNum.serialize_setVch hlen hmin⟩

theorem CScriptNum.serialize_minimal_roundTrip_255 :
    CScriptNum.ofVch (CScriptNum.serialize (-255)) true 8 = some (-255) ∧
      CScriptNum.serialize (CScriptNum.setVch [0xff, 0x80]) = [0xff, 0x80] :=
  ⟨CScriptNum.serialize_minimal_roundTrip.1 (-255) (by norm_num) (by norm_num),
    CScriptNum.serialize_minimal_roundTrip.2 _ (by decide) (by decide)⟩

end XPChain
