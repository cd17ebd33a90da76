import Mathlib.Data.List.Basic

/-!
# Checks in `Except`

A validation routine is a sequence of guards, each throwing its rejection or
going on, written as a `do` block in `Except ε Unit`.  The `do` elaborator
copies the rest of the block into both branches of every guard; these simp
lemmas take such a block apart into the conjunction of what each guard asks,
so that a routine's acceptance condition is stated and proved once.

## Main statements

* `Check.bind_eq_ok_iff`, `Check.ite_throw_eq_ok_iff`,
  `Check.forM_eq_ok_iff` — a sequence, a guard and a loop of checks pass when
  each part does.
* `Check.eq_ok_of_toBool` — a closed check is settled by evaluating it.
* `Check.Looser`, `Check.LooserT` — one computation passes, with the same
  result, wherever a stricter one does; the rules `Looser.bind`,
  `Looser.guard`, `LooserT.bind`, `LooserT.ite_imp`, ... follow the shape of
  the two `do` blocks.
-/

set_option autoImplicit false

namespace Check

variable {ε α β : Type}

/-- `pure` in `Except` is success. -/
@[simp] theorem pure_eq_ok (a : α) : (pure a : Except ε α) = .ok a := rfl

/-- A step that succeeded hands its result on. -/
@[simp] theorem ok_bind (a : α) (f : α → Except ε β) :
    (Except.ok a >>= f : Except ε β) = f a := rfl

/-- A check that has thrown skips the rest. -/
@[simp] theorem throw_bind (e : ε) (f : α → Except ε β) :
    (throw e >>= f : Except ε β) = throw e := rfl

/-- A sequence of checks passes when each one does. -/
@[simp] theorem bind_eq_ok_iff {x : Except ε Unit} {k : Unit → Except ε Unit} :
    (x >>= k) = .ok () ↔ x = .ok () ∧ k () = .ok () := by
  cases x with
  | error e => simp [bind, Except.bind]
  | ok u => simp [bind, Except.bind]

/-- A guard passes when its condition is false and the rest passes. -/
@[simp] theorem ite_throw_eq_ok_iff {c : Prop} [Decidable c] {e : ε} {k : Except ε Unit} :
    (if c then throw e else k) = .ok () ↔ ¬ c ∧ k = .ok () := by
  split_ifs with hc
  · simp only [hc, not_true_eq_false, false_and]
  · simp [hc]

/-- The same guard with its condition negated, as `simp` turns `≠` around. -/
@[simp] theorem ite_eq_ok_throw_iff {c : Prop} [Decidable c] {e : ε} {k : Except ε Unit} :
    (if c then k else throw e) = .ok () ↔ c ∧ k = .ok () := by
  split_ifs with hc
  · simp [hc]
  · simp only [hc, false_and]

/-- A loop of checks passes when the check passes on every element. -/
@[simp] theorem forM_eq_ok_iff {f : α → Except ε Unit} {xs : List α} :
    (forM xs f : Except ε Unit) = .ok () ↔ ∀ x ∈ xs, f x = .ok () := by
  induction xs with
  | nil => simp [pure, Except.pure]
  | cons x xs ih => simp [ih]

/-- A check that evaluates to a pass is `.ok ()`. -/
theorem eq_ok_of_toBool {e : Except ε Unit} (h : e.toBool = true) : e = .ok () := by
  cases e with
  | error _ => simp [Except.toBool] at h
  | ok _ => rfl

/-! ## Looser checks -/

/-- `r` passes, with the same result, whenever the stricter `r'` does. -/
def Looser (r r' : Except ε α) : Prop := ∀ a, r' = .ok a → r = .ok a

theorem Looser.refl (r : Except ε α) : Looser r r := fun _ h => h

theorem Looser.of_error (r : Except ε α) (e : ε) : Looser r (.error e) := fun _ h => by cases h

theorem Looser.bind {x x' : Except ε α} {f f' : α → Except ε β} (hx : Looser x x')
    (hf : ∀ a, Looser (f a) (f' a)) : Looser (x >>= f) (x' >>= f') := by
  intro b h
  cases hx' : x' with
  | error e => rw [hx'] at h; cases h
  | ok a =>
    rw [hx'] at h
    rw [hx a hx']
    exact hf a b h

theorem Looser.ite {c : Prop} [Decidable c] {r₁ r₁' r₂ r₂' : Except ε α} (h₁ : Looser r₁ r₁')
    (h₂ : Looser r₂ r₂') : Looser (if c then r₁ else r₂) (if c then r₁' else r₂') := by
  split_ifs
  · exact h₁
  · exact h₂

/-- A guard whose condition holds whenever the looser one's does. -/
theorem Looser.guard {c c' : Prop} [Decidable c] [Decidable c'] {e e' : ε} {r r' : Except ε α}
    (hc : c → c') (h : Looser r r') :
    Looser (if c then .error e else r) (if c' then .error e' else r') := by
  by_cases hc' : c'
  · rw [if_pos hc']
    exact Looser.of_error _ _
  · rw [if_neg hc', if_neg (mt hc hc')]
    exact h

/-- A guard of a `do` block, whose rest is a join point `k`. -/
theorem Looser.guard_bind {c c' : Prop} [Decidable c] [Decidable c'] {e e' : ε}
    {k k' : Unit → Except ε α} (hc : c → c') (h : Looser (k ()) (k' ())) :
    Looser (if c then Except.error e >>= k else k ()) (if c' then Except.error e' >>= k' else k' ()) := by
  by_cases hc' : c'
  · rw [if_pos hc']
    exact Looser.of_error _ _
  · rw [if_neg hc', if_neg (mt hc hc')]
    exact h

theorem Looser.of_ok {x : α} {r' : Except ε α} (h : ∀ a, r' = .ok a → a = x) :
    Looser (.ok x) r' := fun a ha => by rw [h a ha]

theorem Looser.map {x x' : Except ε α} (f : α → β) (h : Looser x x') :
    Looser (x.map f) (x'.map f) := by
  intro b hb
  cases hx' : x' with
  | error e => rw [hx'] at hb; cases hb
  | ok a =>
    rw [hx'] at hb
    rw [h a hx']
    exact hb

theorem Looser.foldlM {f f' : β → α → Except ε β} (h : ∀ b a, Looser (f b a) (f' b a)) :
    ∀ (xs : List α) (init : β), Looser (xs.foldlM f init) (xs.foldlM f' init)
  | [], _ => Looser.refl _
  | x :: xs, init => by
    rw [List.foldlM_cons, List.foldlM_cons]
    exact Looser.bind (h init x) fun b => Looser.foldlM h xs b

/-! ## Stricter checks that may also abort -/

/-- For a computation that can also abort (`none`): `x` passes, with the same
result, whenever the stricter `x'` does. -/
def LooserT (x x' : ExceptT ε Option α) : Prop := ∀ a, x'.run = some (.ok a) → x.run = some (.ok a)

theorem LooserT.refl (x : ExceptT ε Option α) : LooserT x x := fun _ h => h

theorem LooserT.of_run_ne {x x' : ExceptT ε Option α} (h : ∀ a, x'.run ≠ some (.ok a)) :
    LooserT x x' := fun a ha => absurd ha (h a)

theorem run_throw_bind_ne (e : ε) (f : α → ExceptT ε Option β) (b : β) :
    (throw e >>= f).run ≠ some (.ok b) := fun h => by cases h

theorem LooserT.throw_bind (x : ExceptT ε Option β) (e : ε) (f : α → ExceptT ε Option β) :
    LooserT x (throw e >>= f) :=
  LooserT.of_run_ne (run_throw_bind_ne e f)

/-- Any pass of a unit computation is looser than any other. -/
theorem LooserT.pure_unit (x' : ExceptT ε Option Unit) : LooserT (pure ()) x' := fun _ _ => rfl

theorem LooserT.bind {x x' : ExceptT ε Option α} {f f' : α → ExceptT ε Option β} (hx : LooserT x x')
    (hf : ∀ a, LooserT (f a) (f' a)) : LooserT (x >>= f) (x' >>= f') := by
  intro b h
  rw [ExceptT.run_bind] at h ⊢
  cases hx' : x'.run with
  | none => rw [hx'] at h; cases h
  | some r =>
    cases r with
    | error e => rw [hx'] at h; cases h
    | ok a =>
      rw [hx'] at h
      rw [hx a hx']
      exact hf a b h

/-- The stricter computation does more work before going on. -/
theorem LooserT.bind_right {x : ExceptT ε Option β} {x' : ExceptT ε Option α}
    {f' : α → ExceptT ε Option β} (hf : ∀ a, LooserT x (f' a)) : LooserT x (x' >>= f') := by
  intro b h
  rw [ExceptT.run_bind] at h
  cases hx' : x'.run with
  | none => rw [hx'] at h; cases h
  | some r =>
    cases r with
    | error e => rw [hx'] at h; cases h
    | ok a =>
      rw [hx'] at h
      exact hf a b h

theorem LooserT.ite_iff {c c' : Prop} [Decidable c] [Decidable c'] {x₁ x₂ : ExceptT ε Option α}
    {x₁' x₂' : ExceptT ε Option α} (hc : c ↔ c') (h₁ : LooserT x₁ x₁') (h₂ : LooserT x₂ x₂') :
    LooserT (if c then x₁ else x₂) (if c' then x₁' else x₂') := by
  by_cases h : c
  · rw [if_pos h, if_pos (hc.mp h)]
    exact h₁
  · rw [if_neg h, if_neg (mt hc.mpr h)]
    exact h₂

/-- A branch taken only by the stricter computation. -/
theorem LooserT.ite_imp {c c' : Prop} [Decidable c] [Decidable c'] {x₁ x₂ x₁' x₂' : ExceptT ε Option α}
    (hc : c → c') (h₁ : LooserT x₁ x₁') (h₂ : LooserT x₂ x₁') (h₃ : LooserT x₂ x₂') :
    LooserT (if c then x₁ else x₂) (if c' then x₁' else x₂') := by
  by_cases h' : c'
  · rw [if_pos h']
    split_ifs
    · exact h₁
    · exact h₂
  · rw [if_neg h', if_neg (mt hc h')]
    exact h₃

theorem LooserT.ite_right {c : Prop} [Decidable c] {x : ExceptT ε Option α}
    {x₁' x₂' : ExceptT ε Option α} (h₁ : LooserT x x₁') (h₂ : LooserT x x₂') :
    LooserT x (if c then x₁' else x₂') := by
  split_ifs
  · exact h₁
  · exact h₂

/-- A guard whose failing branch never passes and whose condition holds
whenever the looser one's does. -/
theorem LooserT.guard {c c' : Prop} [Decidable c] [Decidable c'] {t x t' x' : ExceptT ε Option α}
    (hc : c → c') (ht' : ∀ a, t'.run ≠ some (.ok a)) (h : LooserT x x') :
    LooserT (if c then t else x) (if c' then t' else x') := by
  by_cases h' : c'
  · rw [if_pos h']
    exact LooserT.of_run_ne ht'
  · rw [if_neg h', if_neg (mt hc h')]
    exact h

end Check
