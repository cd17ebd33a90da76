import Mathlib.Data.List.AList
import Mathlib.Data.Finset.Card

/-!
# Counting slots and entries

Reference counts are kept in step with the number of slots of a table that
hold a key.  This module has the counting facts such bookkeeping rests on:
a count over the entries of an association list against the cardinality of
a set and against the length of another list, and the loop that walks the
slots and takes one from the count of the key each slot holds.

## Main definitions

* `Tally.Consumes` — a loop step takes one from the count of its slot's key.

## Main statements

* `Tally.card_eq_countP_entries`, `Tally.length_eq_countP_entries` — counts
  over the entries of an association list.
* `Tally.foldlM_consume` — the loop that counts every key down by the number
  of slots holding it.
-/

set_option autoImplicit false

namespace Tally

section Update

variable {ι β : Type} [DecidableEq β]

/-- A value held by exactly one slot of a list without repeats is counted
once. -/
theorem countP_eq_one [DecidableEq ι] (p : ι → Bool) (l : List ι) (hnd : l.Nodup) (x : ι)
    (hx : x ∈ l) (hp : ∀ s ∈ l, p s = true ↔ s = x) : l.countP p = 1 := by
  have hcount : l.countP p = l.count x :=
    List.countP_congr fun s hs => by rw [hp s hs, beq_iff_eq]
  rw [hcount]
  exact List.count_eq_one_of_mem hnd hx

end Update

section Entries

variable {α : Type} {γ : α → Type} [DecidableEq α]

/-- A set holding exactly the keys of the entries with `p` has as many
members as there are such entries. -/
theorem card_eq_countP_entries (p : Sigma γ → Bool) (m : AList γ) (S : Finset α)
    (hS : ∀ a, a ∈ S ↔ ∃ v, m.lookup a = some v ∧ p ⟨a, v⟩ = true) :
    S.card = m.entries.countP p := by
  have hnd : ((m.entries.filter p).map Sigma.fst).Nodup :=
    m.nodupKeys.sublist List.filter_sublist
  have hset : S = ((m.entries.filter p).map Sigma.fst).toFinset := by
    ext a
    rw [hS, List.mem_toFinset, List.mem_map]
    constructor
    · rintro ⟨v, hv, hp⟩
      exact ⟨⟨a, v⟩, List.mem_filter.mpr ⟨AList.mem_lookup_iff.mp hv, hp⟩, rfl⟩
    · rintro ⟨⟨a', v⟩, hmem, rfl⟩
      obtain ⟨hmem, hp⟩ := List.mem_filter.mp hmem
      exact ⟨v, AList.mem_lookup_iff.mpr hmem, hp⟩
  rw [hset, List.toFinset_card_of_nodup hnd, List.length_map, List.countP_eq_length_filter]

/-- An association list keyed exactly by the keys of the entries with `p` has
as many entries as there are such entries. -/
theorem length_eq_countP_entries {γ' : α → Type} (p : Sigma γ → Bool) (m : AList γ) (m' : AList γ')
    (hm' : ∀ a, a ∈ m' ↔ ∃ v, m.lookup a = some v ∧ p ⟨a, v⟩ = true) :
    m'.entries.length = m.entries.countP p := by
  rw [← card_eq_countP_entries p m m'.keys.toFinset fun a => by rw [List.mem_toFinset, ← AList.mem_keys, hm'],
    List.toFinset_card_of_nodup m'.keys_nodup]
  simp [AList.keys, List.keys]

end Entries

section Consume

variable {ι α M ε : Type} [DecidableEq α]

/-- The loop step at slot `s` keeps `I` and takes one from the count `rem` of
the key the slot holds, when that count is positive; a slot holding nothing
changes no count. -/
def Consumes (I : M → Prop) (key : ι → Option α) (rem : M → α → ℕ)
    (step : M → ι → Except ε M) (s : ι) : Prop :=
  ∀ m, I m → (∀ a, key s = some a → 0 < rem m a) →
    ∃ m', step m s = .ok m' ∧ I m' ∧ ∀ a, rem m' a = rem m a - (if key s = some a then 1 else 0)

/-- A loop over slots whose steps count keys down succeeds when no key is held
by more slots than its count, and takes from each count the number of slots
holding the key. -/
theorem foldlM_consume (I : M → Prop) (key : ι → Option α) (rem : M → α → ℕ)
    (step : M → ι → Except ε M) :
    ∀ (l : List ι) (m : M), I m → (∀ s ∈ l, Consumes I key rem step s) →
      (∀ a, l.countP (fun s => key s = some a) ≤ rem m a) →
      ∃ m', l.foldlM step m = .ok m' ∧ I m' ∧
        ∀ a, rem m' a = rem m a - l.countP (fun s => key s = some a)
  | [], m, hI, _, _ => ⟨m, rfl, hI, fun a => by simp⟩
  | s :: l, m, hI, hsteps, hle => by
    have hcons : ∀ a, (s :: l).countP (fun s => key s = some a) =
        l.countP (fun s => key s = some a) + (if key s = some a then 1 else 0) := by
      intro a
      simp only [List.countP_cons, decide_eq_true_eq]
    -- the key of the first slot has that slot left in its count
    have hpos : ∀ a, key s = some a → 0 < rem m a := by
      intro a ha
      have := hle a
      rw [hcons a, if_pos ha] at this
      omega
    obtain ⟨m₁, hstep, hI₁, hrem₁⟩ := hsteps s List.mem_cons_self m hI hpos
    have hle₁ : ∀ a, l.countP (fun s => key s = some a) ≤ rem m₁ a := by
      intro a
      have := hle a
      rw [hcons a] at this
      rw [hrem₁ a]
      omega
    obtain ⟨m', hfold, hI', hrem'⟩ := foldlM_consume I key rem step l m₁ hI₁
      (fun s' hs' => hsteps s' (List.mem_cons_of_mem _ hs')) hle₁
    refine ⟨m', by rw [List.foldlM_cons, hstep]; exact hfold, hI', fun a => ?_⟩
    rw [hrem' a, hrem₁ a, hcons a]
    omega

end Consume

end Tally
