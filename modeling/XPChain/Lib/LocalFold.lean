import Mathlib.Data.List.Sigma

/-!
# Folds whose steps act at one key each

A batch walks a list of entries with distinct keys and, for each, changes a
store at that entry's key and nowhere else, or fails.  The store is anything
read through `look : M → α → β`: a function, an association list, a database.
Such a batch succeeds when each entry's step succeeds on the value its key
starts with; it leaves at each key of the batch what that key's own step
guarantees, and every other key as it was.

## Main definitions

* `ActsAt look step a o P` — `step` succeeds on every store with `o` at `a`,
  leaves a value with `P` there and keeps the other keys.

## Main statements

* `foldlM_eq_ok` — the batch of steps that act at their own keys.
* `foldl_apply` — the same for a batch that cannot fail.
-/

set_option autoImplicit false

namespace LocalFold

variable {M α β γ ε : Type}

/-- `step` acts at `a` only, from the value `o` there: on every store with `o`
at `a` it succeeds, leaves a value with `P` at `a` and keeps every other key. -/
def ActsAt (look : M → α → β) (step : M → Except ε M) (a : α) (o : β) (P : β → Prop) : Prop :=
  ∀ m, look m a = o → ∃ m', step m = .ok m' ∧ P (look m' a) ∧ ∀ a', a' ≠ a → look m' a' = look m a'

variable [DecidableEq α] (look : M → α → β)

/-- A batch of steps that each act at their own key, from the value that key
starts with, succeeds; it leaves each key of the batch with what its step
guarantees and every other key as it was. -/
theorem foldlM_eq_ok (step : M → (Sigma fun _ : α => γ) → Except ε M) (P : α → β → Prop) :
    ∀ (m : M) (l : List (Sigma fun _ : α => γ)), l.NodupKeys →
      (∀ s ∈ l, ActsAt look (step · s) s.1 (look m s.1) (P s.1)) →
      ∃ m', l.foldlM step m = .ok m' ∧
        ∀ a, (a ∈ l.keys → P a (look m' a)) ∧ (a ∉ l.keys → look m' a = look m a)
  | m, [], _, _ => ⟨m, rfl, fun a => ⟨by simp, fun _ => rfl⟩⟩
  | m, s :: l, hnd, hacts => by
    rw [List.nodupKeys_cons] at hnd
    obtain ⟨m₁, hstep, hself, hother⟩ := hacts s List.mem_cons_self m rfl
    -- the later entries have other keys, so the first step leaves their values
    have hrest : ∀ s' ∈ l, ActsAt look (step · s') s'.1 (look m₁ s'.1) (P s'.1) := by
      intro s' hs'
      have hne : s'.1 ≠ s.1 := fun heq => hnd.1 (heq ▸ List.mem_keys_of_mem hs')
      rw [hother _ hne]
      exact hacts s' (List.mem_cons_of_mem _ hs')
    obtain ⟨m', hfold, hlook⟩ := foldlM_eq_ok step P m₁ l hnd.2 hrest
    have hstep : step m s = .ok m₁ := hstep
    refine ⟨m', by rw [List.foldlM_cons, hstep]; exact hfold, fun a => ?_⟩
    rw [List.keys_cons, List.mem_cons]
    by_cases ha : a = s.1
    · subst ha
      -- the key of the first entry: no later entry touches it
      exact ⟨fun _ => (hlook s.1).2 hnd.1 ▸ hself, fun h => absurd (Or.inl rfl) h⟩
    · refine ⟨fun h => (hlook a).1 (h.resolve_left ha), fun h => ?_⟩
      rw [(hlook a).2 fun h' => h (Or.inr h'), hother a ha]

/-- A batch that cannot fail, of steps that each act at their own key. -/
theorem foldl_apply (f : M → (Sigma fun _ : α => γ) → M) (P : α → β → Prop) (m : M)
    (l : List (Sigma fun _ : α => γ)) (hnd : l.NodupKeys)
    (hacts : ∀ s ∈ l, ∀ m', look m' s.1 = look m s.1 →
      P s.1 (look (f m' s) s.1) ∧ ∀ a, a ≠ s.1 → look (f m' s) a = look m' a) (a : α) :
    (a ∈ l.keys → P a (look (l.foldl f m) a)) ∧ (a ∉ l.keys → look (l.foldl f m) a = look m a) := by
  have hacts' : ∀ s ∈ l, ActsAt (ε := Empty) look (fun m' => pure (f m' s)) s.1 (look m s.1) (P s.1) :=
    fun s hs m' hm' => ⟨f m' s, rfl, hacts s hs m' hm'⟩
  obtain ⟨m', hfold, hlook⟩ := foldlM_eq_ok look (fun m s => pure (f m s)) P m l hnd hacts'
  rw [List.foldlM_pure] at hfold
  cases hfold
  exact hlook a

end LocalFold
