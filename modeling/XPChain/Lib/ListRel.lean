import Mathlib.Data.List.Forall2

/-!
# Lists related element by element

A loop that looks up one value per element of a list and stops at the first
failure (`List.mapM` in `Option`) returns a list related to its input element
by element.  Two such lists, computed from the same keys in two states, are
compared through a relation between their elements; these rules carry a
property of the keys paired with the values of one list to the keys paired
with the values of the other, one element at a time.

## Main statements

* `ListRel.forall₂_of_mapM_eq_some`, `ListRel.length_of_mapM_eq_some`.
* `ListRel.forall_mem_of_forall₂` — the two sides of a related pair.
* `ListRel.forall_mem_zip_map_of_forall₂` — a property of zipped pairs,
  carried across the relation.
-/

set_option autoImplicit false

namespace ListRel

variable {α β γ δ ε ζ : Type}

/-- What a lookup loop returns is related to its keys by the lookup. -/
theorem forall₂_of_mapM_eq_some {f : α → Option β} :
    ∀ {l : List α} {l' : List β}, l.mapM f = some l' → List.Forall₂ (fun a b => f a = some b) l l'
  | [], l', h => by
    cases h
    exact List.Forall₂.nil
  | a :: l, l', h => by
    rw [List.mapM_cons] at h
    obtain ⟨b, hb, h⟩ := Option.bind_eq_some_iff.mp h
    obtain ⟨bs, hbs, h⟩ := Option.bind_eq_some_iff.mp h
    cases h
    exact List.Forall₂.cons hb (forall₂_of_mapM_eq_some hbs)

theorem length_of_mapM_eq_some {f : α → Option β} {l : List α} {l' : List β} (h : l.mapM f = some l') :
    l'.length = l.length :=
  (forall₂_of_mapM_eq_some h).length_eq.symm

/-- What the relation says of each side holds of every element on that side. -/
theorem forall_mem_of_forall₂ {R : γ → δ → Prop} {P : γ → Prop} {Q : δ → Prop}
    (hR : ∀ c d, R c d → P c ∧ Q d) :
    ∀ {cs : List γ} {ds : List δ}, List.Forall₂ R cs ds → (∀ c ∈ cs, P c) ∧ ∀ d ∈ ds, Q d
  | _, _, .nil => by simp
  | _, _, .cons hcd h => by
    obtain ⟨hcs, hds⟩ := forall_mem_of_forall₂ hR h
    obtain ⟨hc, hd⟩ := hR _ _ hcd
    exact ⟨List.forall_mem_cons.mpr ⟨hc, hcs⟩, List.forall_mem_cons.mpr ⟨hd, hds⟩⟩

/-- Keys paired with the values of two related lists: what holds of each key
with its value on the left and on the right gives a property on the right,
pair by pair. -/
theorem forall_mem_zip_map_of_forall₂ {R : γ → δ → Prop} {f : γ → ε} {g : δ → ζ}
    {P : α → ε → Prop} {Q S : α → ζ → Prop}
    (hPQ : ∀ a c d, R c d → P a (f c) → Q a (g d) → S a (g d)) :
    ∀ {xs : List α} {cs : List γ} {ds : List δ}, List.Forall₂ R cs ds →
      (∀ p ∈ xs.zip (cs.map f), P p.1 p.2) → (∀ p ∈ xs.zip (ds.map g), Q p.1 p.2) →
      ∀ p ∈ xs.zip (ds.map g), S p.1 p.2
  | [], _, _, _ => by simp
  | _ :: _, _, _, .nil => by simp
  | x :: xs, _, _, .cons hcd h => by
    simp only [List.map_cons, List.zip_cons_cons, List.forall_mem_cons]
    exact fun ⟨hp, hps⟩ ⟨hq, hqs⟩ =>
      ⟨hPQ x _ _ hcd hp hq, forall_mem_zip_map_of_forall₂ hPQ h hps hqs⟩

end ListRel
