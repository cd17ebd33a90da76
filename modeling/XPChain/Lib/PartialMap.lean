import Mathlib.Logic.Function.Basic
import Mathlib.Data.List.Basic

/-!
# Partial maps erased and filled by lists

A store keyed by `α` is a function `α → Option β`.  A batch of updates erases
the keys of one list and inserts the entries of another, one at a time.  The
rules here say what a batch leaves at each key, and that inserting back the
entries just erased undoes the erasure.

## Main definitions

* `eraseAll m ks`, `insertAll m es`.

## Main statements

* `eraseAll_apply`, `insertAll_apply_of_not_mem`, `insertAll_apply_of_mem`,
  `mem_or_of_insertAll_eq_some` — the value at a key.
* `insertAll_eraseAll` — inserting back what was erased.
-/

set_option autoImplicit false

namespace PartialMap

variable {α β : Type} [DecidableEq α]

/-- Erase the keys of `ks`, in order. -/
def eraseAll (m : α → Option β) (ks : List α) : α → Option β :=
  ks.foldl (fun m k => Function.update m k none) m

/-- Insert the entries of `es`, in order; a later entry wins. -/
def insertAll (m : α → Option β) (es : List (α × β)) : α → Option β :=
  es.foldl (fun m e => Function.update m e.1 (some e.2)) m

@[simp] theorem eraseAll_nil (m : α → Option β) : eraseAll m [] = m := rfl

@[simp] theorem eraseAll_cons (m : α → Option β) (k : α) (ks : List α) :
    eraseAll m (k :: ks) = eraseAll (Function.update m k none) ks := rfl

@[simp] theorem insertAll_nil (m : α → Option β) : insertAll m [] = m := rfl

@[simp] theorem insertAll_cons (m : α → Option β) (e : α × β) (es : List (α × β)) :
    insertAll m (e :: es) = insertAll (Function.update m e.1 (some e.2)) es := rfl

theorem eraseAll_apply (m : α → Option β) (ks : List α) (x : α) :
    eraseAll m ks x = if x ∈ ks then none else m x := by
  induction ks generalizing m with
  | nil => simp
  | cons k ks ih =>
    rw [eraseAll_cons, ih]
    by_cases hx : x = k
    · subst hx
      simp
    · simp [hx]

/-- Erasing does not depend on the order of the keys. -/
theorem eraseAll_congr (m : α → Option β) {ks ks' : List α} (h : ∀ x, x ∈ ks ↔ x ∈ ks') :
    eraseAll m ks = eraseAll m ks' := by
  funext x
  rw [eraseAll_apply, eraseAll_apply]
  exact if_congr (h x) rfl rfl

theorem insertAll_apply_of_not_mem (m : α → Option β) {es : List (α × β)} {x : α}
    (h : x ∉ es.map Prod.fst) : insertAll m es x = m x := by
  induction es generalizing m with
  | nil => rfl
  | cons e es ih =>
    simp only [List.map_cons, List.mem_cons, not_or] at h
    rw [insertAll_cons, ih _ h.2, Function.update_of_ne h.1]

theorem insertAll_apply_of_mem (m : α → Option β) {es : List (α × β)} {x : α} {b : β}
    (hnd : (es.map Prod.fst).Nodup) (h : (x, b) ∈ es) : insertAll m es x = some b := by
  induction es generalizing m with
  | nil => cases h
  | cons e es ih =>
    rw [List.map_cons, List.nodup_cons] at hnd
    rw [insertAll_cons]
    rcases List.mem_cons.mp h with rfl | h
    · -- the entry is the first one; no later entry has its key
      rw [insertAll_apply_of_not_mem _ hnd.1, Function.update_self]
    · exact ih _ hnd.2 h

/-- A value an insertion batch leaves was inserted or was there before. -/
theorem mem_or_of_insertAll_eq_some (m : α → Option β) {es : List (α × β)} {x : α} {b : β}
    (h : insertAll m es x = some b) : (x, b) ∈ es ∨ m x = some b := by
  induction es generalizing m with
  | nil => exact .inr h
  | cons e es ih =>
    rw [insertAll_cons] at h
    rcases ih _ h with hmem | hm
    · exact .inl (List.mem_cons_of_mem _ hmem)
    · by_cases hx : x = e.1
      · subst hx
        rw [Function.update_self, Option.some_inj] at hm
        exact .inl (hm ▸ List.mem_cons_self)
      · rw [Function.update_of_ne hx] at hm
        exact .inr hm

/-- An update at a key the batch does not touch commutes with the batch. -/
theorem insertAll_update_comm (m : α → Option β) {es : List (α × β)} {k : α} (v : Option β)
    (h : k ∉ es.map Prod.fst) :
    insertAll (Function.update m k v) es = Function.update (insertAll m es) k v := by
  induction es generalizing m with
  | nil => rfl
  | cons e es ih =>
    simp only [List.map_cons, List.mem_cons, not_or] at h
    rw [insertAll_cons, insertAll_cons, Function.update_comm h.1, ih _ h.2]

/-- Inserting back the entries just erased gives the map back. -/
theorem insertAll_eraseAll (m : α → Option β) {es : List (α × β)}
    (hnd : (es.map Prod.fst).Nodup) (h : ∀ e ∈ es, m e.1 = some e.2) :
    insertAll (eraseAll m (es.map Prod.fst)) es = m := by
  funext x
  by_cases hx : x ∈ es.map Prod.fst
  · obtain ⟨⟨k, b⟩, he, rfl⟩ := List.mem_map.mp hx
    rw [insertAll_apply_of_mem _ hnd he, h _ he]
  · rw [insertAll_apply_of_not_mem _ hx, eraseAll_apply, if_neg hx]

end PartialMap
