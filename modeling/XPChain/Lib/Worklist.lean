import Mathlib.Data.List.Sort
import Mathlib.Data.Fintype.Card
import Mathlib.Logic.Relation

/-!
# Staged worklist closures

The set of everything reachable from a start set along a successor function,
computed the way a traversal with a staging set computes it: take the first staged
element, record it, and stage each of its successors that is not recorded yet.
The stage is a set kept as a list sorted by a relation `r`, so the element taken is
the least one, as `std::set::begin` gives it.  Which element is taken never matters
for what is recorded: after enough rounds the recorded list is exactly the reachable
set (`mem_closure_iff`), whatever `r` is.

## Main definitions

* `Worklist.setInsert`, `Worklist.stageNew` — insertions into the stage.
* `Worklist.walk`, `Worklist.closure` — the traversal, with a bound on its rounds.
* `Worklist.Reaches` — reachability along the successors.
* `Worklist.WalkInv` — what holds before every round.

## Main statements

* `walkInv_step` — one round keeps the invariant.
* `walk_inv` — a run keeps it, and enough rounds empty the stage.
* `mem_closure_iff`, `nodup_closure` — the closure is the reachable set, without repeats.
-/

set_option autoImplicit false

namespace Worklist

variable {α : Type*} [DecidableEq α]

section Stage

variable (r : α → α → Prop) [DecidableRel r]

/-- Insertion into a set kept as a list sorted by `r`: an element already there is not
added again. -/
def setInsert (a : α) (s : List α) : List α :=
  if a ∈ s then s else s.orderedInsert r a

@[simp] theorem mem_setInsert {a b : α} {s : List α} :
    b ∈ setInsert r a s ↔ b = a ∨ b ∈ s := by
  unfold setInsert
  split_ifs with h
  · constructor
    · exact Or.inr
    · rintro (rfl | hb) <;> assumption
  · exact List.mem_orderedInsert r

theorem nodup_setInsert {a : α} {s : List α} (hs : s.Nodup) : (setInsert r a s).Nodup := by
  unfold setInsert
  split_ifs with h
  · exact hs
  · exact (List.perm_orderedInsert r a s).nodup_iff.mpr (List.nodup_cons.mpr ⟨h, hs⟩)

/-- Stage each of `ys` that is not in `visited`. -/
def stageNew (visited stage ys : List α) : List α :=
  ys.foldl (fun s y => if y ∈ visited then s else setInsert r y s) stage

theorem mem_stageNew {visited stage ys : List α} {b : α} :
    b ∈ stageNew r visited stage ys ↔ b ∈ stage ∨ (b ∈ ys ∧ b ∉ visited) := by
  induction ys generalizing stage with
  | nil => simp [stageNew]
  | cons y ys ih =>
    simp only [stageNew, List.foldl_cons] at ih ⊢
    rw [ih]
    split_ifs with hy
    · grind
    · rw [mem_setInsert]
      grind

theorem nodup_stageNew {visited stage ys : List α} (hs : stage.Nodup) :
    (stageNew r visited stage ys).Nodup := by
  induction ys generalizing stage with
  | nil => exact hs
  | cons y ys ih =>
    simp only [stageNew, List.foldl_cons] at ih ⊢
    split_ifs
    · exact ih hs
    · exact ih (nodup_setInsert r hs)

end Stage

section Walk

variable (r : α → α → Prop) [DecidableRel r] (next : α → List α)

/-- Reachability along the successors from one of `start`. -/
def Reaches (start : List α) (y : α) : Prop :=
  ∃ s ∈ start, Relation.ReflTransGen (fun a b => b ∈ next a) s y

/-- The traversal with at most `fuel` rounds: take the stage's first element, record
it, and stage its successors that are not recorded. -/
def walk : ℕ → List α → List α → List α
  | 0, _, visited => visited
  | _ + 1, [], visited => visited
  | fuel + 1, x :: stage, visited =>
    walk fuel (stageNew r (x :: visited) stage (next x)) (x :: visited)

/-- The closure of `start`: its elements staged as a set, nothing recorded yet. -/
def closure (fuel : ℕ) (start : List α) : List α :=
  walk r next fuel (stageNew r [] [] start) []

/-- What holds of the stage and the recorded list before every round: both are sets,
apart from each other, reachable from `start`, and together they hold `start` and every
successor of a recorded element. -/
structure WalkInv (start stage visited : List α) : Prop where
  stage_nodup : stage.Nodup
  visited_nodup : visited.Nodup
  disjoint : ∀ x ∈ stage, x ∉ visited
  sound : ∀ x, x ∈ stage ∨ x ∈ visited → Reaches next start x
  covers : ∀ s ∈ start, s ∈ stage ∨ s ∈ visited
  closed : ∀ x ∈ visited, ∀ y ∈ next x, y ∈ stage ∨ y ∈ visited

theorem walkInv_init (start : List α) : WalkInv next start (stageNew r [] [] start) [] where
  stage_nodup := nodup_stageNew r List.nodup_nil
  visited_nodup := List.nodup_nil
  disjoint _ _ := List.not_mem_nil
  sound x hx := by
    have hx : x ∈ start := by simpa [mem_stageNew] using hx
    exact ⟨x, hx, .refl⟩
  covers s hs := Or.inl ((mem_stageNew r).mpr (Or.inr ⟨hs, List.not_mem_nil⟩))
  closed _ h := absurd h List.not_mem_nil

theorem walkInv_step {start stage visited : List α} {x : α}
    (h : WalkInv next start (x :: stage) visited) :
    WalkInv next start (stageNew r (x :: visited) stage (next x)) (x :: visited) := by
  have hx : x ∉ visited := h.disjoint x List.mem_cons_self
  have hxs : x ∉ stage := (List.nodup_cons.mp h.stage_nodup).1
  refine ⟨nodup_stageNew r (List.nodup_cons.mp h.stage_nodup).2,
    List.nodup_cons.mpr ⟨hx, h.visited_nodup⟩, ?_, ?_, ?_, ?_⟩
  · intro z hz
    rcases (mem_stageNew r).mp hz with hzs | ⟨-, hzn⟩
    · have hzv := h.disjoint z (List.mem_cons_of_mem x hzs)
      intro hzv'
      rcases List.mem_cons.mp hzv' with rfl | hzv'
      · exact hxs hzs
      · exact hzv hzv'
    · exact hzn
  · intro z hz
    simp only [mem_stageNew, List.mem_cons] at hz
    rcases hz with (hz | ⟨hz, -⟩) | rfl | hz
    · exact h.sound z (Or.inl (List.mem_cons_of_mem x hz))
    · -- a successor of the element taken: one more edge from where that one was reached
      obtain ⟨s, hs, hsx⟩ := h.sound x (Or.inl List.mem_cons_self)
      exact ⟨s, hs, hsx.tail hz⟩
    · exact h.sound z (Or.inl List.mem_cons_self)
    · exact h.sound z (Or.inr hz)
  · intro s hs
    rcases h.covers s hs with hs | hs
    · rcases List.mem_cons.mp hs with rfl | hs
      · exact Or.inr List.mem_cons_self
      · exact Or.inl ((mem_stageNew r).mpr (Or.inl hs))
    · exact Or.inr (List.mem_cons_of_mem x hs)
  · intro z hz y hy
    by_cases hyv : y ∈ x :: visited
    · exact Or.inr hyv
    left
    rcases List.mem_cons.mp hz with rfl | hz
    · exact (mem_stageNew r).mpr (Or.inr ⟨hy, hyv⟩)
    · rcases h.closed z hz y hy with hy | hy
      · rcases List.mem_cons.mp hy with rfl | hy
        · exact absurd List.mem_cons_self hyv
        · exact (mem_stageNew r).mpr (Or.inl hy)
      · exact absurd (List.mem_cons_of_mem x hy) hyv

omit [DecidableEq α] in
/-- With nothing staged, the recorded list holds `start` and is closed under the
successors. -/
theorem WalkInv.closed_of_nil {start visited : List α} (h : WalkInv next start [] visited) :
    (∀ x ∈ visited, ∀ y ∈ next x, y ∈ visited) ∧ ∀ s ∈ start, s ∈ visited :=
  ⟨fun x hx y hy => (h.closed x hx y hy).resolve_left List.not_mem_nil,
    fun s hs => (h.covers s hs).resolve_left List.not_mem_nil⟩

/-- How many elements are not recorded: the measure each round lowers. -/
def unvisited [Fintype α] (visited : List α) : ℕ :=
  (Finset.univ.filter fun x => x ∉ visited).card

theorem unvisited_le [Fintype α] (visited : List α) : unvisited visited ≤ Fintype.card α :=
  Finset.card_filter_le _ _

/-- Recording more, and something new among it, lowers the measure. -/
theorem unvisited_lt [Fintype α] {visited visited' : List α} {x : α}
    (hsub : ∀ y ∈ visited, y ∈ visited') (hx : x ∉ visited) (hx' : x ∈ visited') :
    unvisited visited' < unvisited visited := by
  apply Finset.card_lt_card
  refine (Finset.ssubset_iff_of_subset ?_).mpr ⟨x, by simp [hx], by simp [hx']⟩
  intro y
  simp only [Finset.mem_filter, Finset.mem_univ, true_and]
  exact fun hy hy' => hy (hsub y hy')

theorem unvisited_cons_lt [Fintype α] {x : α} {visited : List α} (hx : x ∉ visited) :
    unvisited (x :: visited) < unvisited visited :=
  unvisited_lt (fun _ => List.mem_cons_of_mem x) hx List.mem_cons_self

theorem eq_nil_of_unvisited_eq_zero [Fintype α] {start stage visited : List α}
    (h : WalkInv next start stage visited) (h0 : unvisited visited = 0) : stage = [] := by
  rw [List.eq_nil_iff_forall_not_mem]
  intro x hx
  have hall : ∀ y, y ∈ visited := by simpa [unvisited, Finset.filter_eq_empty_iff] using h0
  exact h.disjoint x hx (hall x)

/-- The run lemma: every round keeps the invariant, and with as many rounds as there are
unrecorded elements the stage ends empty. -/
theorem walk_inv [Fintype α] (start : List α) :
    ∀ (fuel : ℕ) (stage visited : List α), WalkInv next start stage visited →
      ∃ stage', WalkInv next start stage' (walk r next fuel stage visited) ∧
        (unvisited visited ≤ fuel → stage' = [])
  | 0, stage, visited, h =>
    ⟨stage, h, fun h0 => eq_nil_of_unvisited_eq_zero next h (Nat.le_zero.mp h0)⟩
  | _ + 1, [], visited, h => ⟨[], h, fun _ => rfl⟩
  | fuel + 1, x :: stage, visited, h => by
    obtain ⟨stage', h', hdone⟩ := walk_inv start fuel _ _ (walkInv_step r next h)
    refine ⟨stage', h', fun hfuel => hdone ?_⟩
    have := unvisited_cons_lt (h.disjoint x List.mem_cons_self)
    omega

variable [Fintype α]

theorem nodup_closure (fuel : ℕ) (start : List α) : (closure r next fuel start).Nodup := by
  obtain ⟨_, h, -⟩ := walk_inv r next start fuel _ _ (walkInv_init r next start)
  exact h.visited_nodup

variable {fuel : ℕ} (hfuel : Fintype.card α ≤ fuel)
include hfuel

/-- With one round per element of `α`, the closure is exactly the reachable set. -/
theorem mem_closure_iff (start : List α) (y : α) :
    y ∈ closure r next fuel start ↔ Reaches next start y := by
  obtain ⟨stage, h, hdone⟩ := walk_inv r next start fuel _ _ (walkInv_init r next start)
  have hnil : stage = [] := hdone (by simp [unvisited, hfuel])
  subst hnil
  obtain ⟨hclosed, hcovers⟩ := h.closed_of_nil
  refine ⟨fun hy => h.sound y (Or.inr hy), ?_⟩
  -- a closed set that holds the start holds every element reached from it
  rintro ⟨s, hs, hsy⟩
  induction hsy with
  | refl => exact hcovers s hs
  | tail _ hbc ih => exact hclosed _ ih _ hbc

end Walk

end Worklist
