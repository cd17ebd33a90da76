import XPChain.Util.Prevector

/-!
# prevector against `std::vector`

`prevector_tests.cpp` drives a `prevector` and a `std::vector` through the
same random operations, with a second instance of each for `swap`, `move` and
`copy`, and compares the two after every step.  `Op` is one such operation,
`step` runs it on the pair of prevectors, and `vecStep` on the pair of
vectors, as `std::vector` specifies it.

`Refines` says that both prevectors keep the invariant and hold the elements
of the vectors.  Every operation that meets `std::vector`'s preconditions
keeps it when its reference arguments are values (`step_refines`), and so does
every run of them (`vecRun_refines`).  Whatever the arguments, an operation that
returns keeps the invariant (`step_wf`).

An argument that refers into the prevector itself is another matter:
`std::vector` must insert `v[i]` for `insert(pos, v[i])`, and the prevector
reads `v[i]` after its `memmove`, so past `pos` it inserts the element before
`i` (`step_insert_item_diverges`).

## Main statements

* `step_refines`, `vecRun_refines` — the prevector refines `std::vector`.
* `step_wf` — the representation invariant after each operation.
* `step_insert_item_diverges` — `insert` of an element of the prevector
  itself.
-/

set_option autoImplicit false

namespace XPChain

variable {N : ℕ} {T : Type*}

/-- The element a `const T&` argument refers to, read at the call. -/
def ValueRef.get [Inhabited T] (l : List T) : ValueRef T → T
  | .val x => x
  | .item i => l.getD i default

/-- A reference argument points at an element there is. -/
def ValueRef.Valid (l : List T) : ValueRef T → Prop
  | .val _ => True
  | .item i => i < l.length

namespace prevector

/-- One operation of the tester: on `pre_vector`, or between it and
`pre_vector_alt`. -/
inductive Op (T : Type*)
  | resize (n : ℕ)
  | reserve (n : ℕ)
  | insert (pos : ℕ) (value : ValueRef T)
  | insert_count (pos count : ℕ) (value : ValueRef T)
  | insert_range (pos : ℕ) (xs : List T)
  | erase_one (pos : ℕ)
  | erase (first last : ℕ)
  | update (pos : ℕ) (value : T)
  | push_back (value : ValueRef T)
  | pop_back
  | clear
  | assign (n : ℕ) (value : T)
  | assign_range (xs : List T)
  | shrink_to_fit
  /-- `pre_vector.swap(pre_vector_alt)`. -/
  | swap
  /-- `pre_vector = std::move(pre_vector_alt); pre_vector_alt.clear()`. -/
  | move
  /-- `pre_vector = pre_vector_alt`. -/
  | copy
  /-- `pre_vector` built anew as `prevector(std::move(pre_vector_alt))`. -/
  | move_construct
  /-- `pre_vector` built anew as `prevector(pre_vector_alt)`. -/
  | copy_construct

section Step

variable [Inhabited T]

/-- The operation on the pair of prevectors; `none` when it reads a
reference that `change_capacity` left dangling. -/
def step : Op T → prevector N T × prevector N T → Option (prevector N T × prevector N T)
  | .resize n, (v, w) => some (v.resize n, w)
  | .reserve n, (v, w) => some (v.reserve n, w)
  | .insert pos value, (v, w) => (v.insert pos value).map (·, w)
  | .insert_count pos count value, (v, w) => (v.insert_count pos count value).map (·, w)
  | .insert_range pos xs, (v, w) => some (v.insert_range pos xs, w)
  | .erase_one pos, (v, w) => some (v.erase_one pos, w)
  | .erase first last, (v, w) => some (v.erase first last, w)
  | .update pos value, (v, w) => some (v.update pos value, w)
  | .push_back value, (v, w) => (v.push_back value).map (·, w)
  | .pop_back, (v, w) => some (v.pop_back, w)
  | .clear, (v, w) => some (v.clear, w)
  | .assign n value, (v, w) => some (v.assign n value, w)
  | .assign_range xs, (v, w) => some (v.assign_range xs, w)
  | .shrink_to_fit, (v, w) => some (v.shrink_to_fit, w)
  | .swap, (v, w) => some (v.swap w)
  -- `operator=(prevector&&)` is `swap`
  | .move, (v, w) => some ((v.swap w).1, (v.swap w).2.clear)
  -- `operator=(const prevector&)` is `assign(other.begin(), other.end())`
  | .copy, (v, w) => some (v.assign_range w.elements, w)
  -- `prevector(prevector&&)` starts empty and swaps
  | .move_construct, (_, w) => some (empty.swap w)
  | .copy_construct, (_, w) => some (copy w, w)

/-- The operation on the pair of vectors, as `std::vector` specifies it. -/
def vecStep : Op T → List T × List T → List T × List T
  | .resize n, (l, a) => (l.take n ++ List.replicate (n - l.length) default, a)
  | .reserve _, σ => σ
  | .insert pos value, (l, a) => (l.take pos ++ [value.get l] ++ l.drop pos, a)
  | .insert_count pos count value, (l, a) => (l.take pos ++ List.replicate count (value.get l) ++ l.drop pos, a)
  | .insert_range pos xs, (l, a) => (l.take pos ++ xs ++ l.drop pos, a)
  | .erase_one pos, (l, a) => (l.eraseIdx pos, a)
  | .erase first last, (l, a) => (l.take first ++ l.drop last, a)
  | .update pos value, (l, a) => (l.set pos value, a)
  | .push_back value, (l, a) => (l ++ [value.get l], a)
  | .pop_back, (l, a) => (l.dropLast, a)
  | .clear, (_, a) => ([], a)
  | .assign n value, (_, a) => (List.replicate n value, a)
  | .assign_range xs, (_, a) => (xs, a)
  | .shrink_to_fit, σ => σ
  | .swap, (l, a) => (a, l)
  | .move, (_, a) => (a, [])
  | .copy, (_, a) => (a, a)
  | .move_construct, (_, a) => (a, [])
  | .copy_construct, (_, a) => (a, a)

end Step

/-- `std::vector`'s preconditions for the operation on `pre_vector`'s
elements `l`. -/
def Op.Valid : Op T → List T → Prop
  | .insert pos value, l => pos ≤ l.length ∧ value.Valid l
  | .insert_count pos _ value, l => pos ≤ l.length ∧ value.Valid l
  | .insert_range pos _, l => pos ≤ l.length
  | .erase_one pos, l => pos < l.length
  | .erase first last, l => first ≤ last ∧ last ≤ l.length
  | .update pos _, l => pos < l.length
  | .push_back value, l => value.Valid l
  | .pop_back, l => l ≠ []
  | _, _ => True

/-- No argument of the operation refers into the prevector. -/
def Op.Plain : Op T → Prop
  | .insert _ (.item _) => False
  | .insert_count _ _ (.item _) => False
  | .push_back (.item _) => False
  | _ => True

/-- Both prevectors keep the invariant and hold the vectors' elements. -/
structure Refines (s : prevector N T × prevector N T) (σ : List T × List T) : Prop where
  wf_fst : s.1.WF
  wf_snd : s.2.WF
  fst : s.1.elements = σ.1
  snd : s.2.elements = σ.2

section Refinement

variable [Inhabited T]

/-- One operation that meets `std::vector`'s preconditions, with values for
arguments, keeps the prevectors' invariant and their elements those of the
vectors. -/
theorem step_refines {s : prevector N T × prevector N T} {σ : List T × List T} (h : Refines s σ) {op : Op T}
    (hvalid : op.Valid σ.1) (hplain : op.Plain) : ∃ s', step op s = some s' ∧ Refines s' (vecStep op σ) := by
  obtain ⟨v, w⟩ := s
  obtain ⟨l, a⟩ := σ
  obtain ⟨hv, hw, hl, ha⟩ := h
  dsimp only at hv hw hl ha hvalid
  subst hl ha
  have hsize := hv.length_elements
  cases op with
  | resize n =>
    obtain ⟨hv', he⟩ := resize_spec hv n
    exact ⟨_, rfl, hv', hw, he.trans (by rw [← hsize]; rfl), rfl⟩
  | reserve n =>
    obtain ⟨hv', -, he, -⟩ := reserve_spec hv n
    exact ⟨_, rfl, hv', hw, he, rfl⟩
  | insert pos value =>
    cases value with
    | val x =>
      obtain ⟨v', hins, hv', he⟩ := insert_spec hv (hsize ▸ hvalid.1) x
      exact ⟨_, by rw [step, hins]; rfl, hv', hw, he, rfl⟩
    | item i => exact hplain.elim
  | insert_count pos count value =>
    cases value with
    | val x =>
      obtain ⟨v', hins, hv', he⟩ := insert_count_spec hv (hsize ▸ hvalid.1) count x
      exact ⟨_, by rw [step, hins]; rfl, hv', hw, he, rfl⟩
    | item i => exact hplain.elim
  | insert_range pos xs =>
    obtain ⟨hv', he⟩ := insert_range_spec hv (show pos ≤ v.size by rw [← hsize]; exact hvalid) xs
    exact ⟨_, rfl, hv', hw, he, rfl⟩
  | erase_one pos =>
    obtain ⟨hv', he⟩ := erase_one_spec hv (show pos < v.size by rw [← hsize]; exact hvalid)
    exact ⟨_, rfl, hv', hw, he, rfl⟩
  | erase first last =>
    obtain ⟨hv', he⟩ := erase_spec hv hvalid.1 (hsize ▸ hvalid.2)
    exact ⟨_, rfl, hv', hw, he, rfl⟩
  | update pos x =>
    obtain ⟨hv', he⟩ := update_spec hv pos x
    exact ⟨_, rfl, hv', hw, he, rfl⟩
  | push_back value =>
    cases value with
    | val x =>
      obtain ⟨v', hins, hv', he⟩ := push_back_spec hv x
      exact ⟨_, by rw [step, hins]; rfl, hv', hw, he, rfl⟩
    | item i => exact hplain.elim
  | pop_back =>
    obtain ⟨hv', he⟩ := pop_back_spec hv
    exact ⟨_, rfl, hv', hw, he, rfl⟩
  | clear =>
    obtain ⟨hv', he⟩ := clear_spec hv
    exact ⟨_, rfl, hv', hw, he, rfl⟩
  | assign n x =>
    obtain ⟨hv', he⟩ := assign_spec hv n x
    exact ⟨_, rfl, hv', hw, he, rfl⟩
  | assign_range xs =>
    obtain ⟨hv', he⟩ := assign_range_spec hv xs
    exact ⟨_, rfl, hv', hw, he, rfl⟩
  | shrink_to_fit =>
    obtain ⟨hv', he⟩ := shrink_to_fit_spec hv
    exact ⟨_, rfl, hv', hw, he, rfl⟩
  | swap => exact ⟨_, rfl, hw, hv, rfl, rfl⟩
  | move =>
    obtain ⟨hv', he⟩ := clear_spec hv
    exact ⟨_, rfl, hw, hv', rfl, he⟩
  | copy =>
    obtain ⟨hv', he⟩ := assign_range_spec hv w.elements
    exact ⟨_, rfl, hv', hw, he, rfl⟩
  | move_construct => exact ⟨_, rfl, hw, empty_wf, rfl, elements_empty⟩
  | copy_construct =>
    obtain ⟨hv', he⟩ := copy_spec hw
    exact ⟨_, rfl, hv', hw, he, rfl⟩

/-- The operations in turn; `none` once one reads a dangling reference. -/
def run : List (Op T) → prevector N T × prevector N T → Option (prevector N T × prevector N T)
  | [], s => some s
  | op :: ops, s => (step op s).bind (run ops)

def vecRun : List (Op T) → List T × List T → List T × List T
  | [], σ => σ
  | op :: ops, σ => vecRun ops (vecStep op σ)

/-- Each operation meets `std::vector`'s preconditions where it runs. -/
def ValidRun : List (Op T) → List T × List T → Prop
  | [], _ => True
  | op :: ops, σ => op.Valid σ.1 ∧ ValidRun ops (vecStep op σ)

/-- A run of operations that meet `std::vector`'s preconditions, with values
for arguments, keeps the prevectors refining the vectors. -/
theorem vecRun_refines : ∀ (ops : List (Op T)) {s : prevector N T × prevector N T} {σ : List T × List T},
    Refines s σ → ValidRun ops σ → (∀ op ∈ ops, op.Plain) →
      ∃ s', run ops s = some s' ∧ Refines s' (vecRun ops σ)
  | [], s, _, h, _, _ => ⟨s, rfl, h⟩
  | op :: ops, _, _, h, ⟨hvalid, hrest⟩, hplain => by
    obtain ⟨s₁, hs₁, h₁⟩ := step_refines h hvalid (hplain op List.mem_cons_self)
    obtain ⟨s', hs', h'⟩ := vecRun_refines ops h₁ hrest fun o ho => hplain o (List.mem_cons_of_mem _ ho)
    refine ⟨s', ?_, h'⟩
    rw [run, hs₁]
    exact hs'

/-- The tester's operations to push two values into a `prevector<1, int>`
and insert a third at the front: the third element moves the prevector onto
the heap. -/
def pushPushInsert : List (Op ℕ) := [.push_back (.val 1), .push_back (.val 2), .insert 0 (.val 3)]

theorem vecRun_refines_pushPushInsert :
    Refines ((empty : prevector 1 ℕ), empty) ([], []) ∧ ValidRun pushPushInsert ([], []) ∧
      (∀ op ∈ pushPushInsert, op.Plain) ∧
      ∃ s', run pushPushInsert ((empty : prevector 1 ℕ), empty) = some s' ∧
        Refines s' (vecRun pushPushInsert ([], [])) :=
  have hr : Refines ((empty : prevector 1 ℕ), empty) ([], []) :=
    ⟨empty_wf, empty_wf, elements_empty, elements_empty⟩
  have hv : ValidRun pushPushInsert ([], []) := ⟨trivial, trivial, ⟨Nat.zero_le _, trivial⟩, trivial⟩
  have hp : ∀ op ∈ pushPushInsert, op.Plain := by simp [pushPushInsert, Op.Plain]
  ⟨hr, hv, hp, vecRun_refines pushPushInsert hr hv hp⟩

/-- Whatever the arguments, an operation that meets `std::vector`'s
preconditions and returns keeps the invariant of both prevectors. -/
theorem step_wf {s s' : prevector N T × prevector N T} (hv : s.1.WF) (hw : s.2.WF) {op : Op T}
    (hvalid : op.Valid s.1.elements) (h : step op s = some s') : s'.1.WF ∧ s'.2.WF := by
  -- with values for arguments, the refinement carries the invariant
  have of_plain : op.Plain → s'.1.WF ∧ s'.2.WF := fun hplain => by
    obtain ⟨s'', hs'', hr⟩ :=
      step_refines (⟨hv, hw, rfl, rfl⟩ : Refines s (s.1.elements, s.2.elements)) hvalid hplain
    rw [hs''] at h
    obtain rfl := Option.some.inj h
    exact ⟨hr.wf_fst, hr.wf_snd⟩
  obtain ⟨v, w⟩ := s
  have hsize := hv.length_elements
  cases op
  case insert pos value =>
    cases value with
    | val x => exact of_plain trivial
    | item i =>
      cases hr : readRef (decide (v.capacity < v.size + 1)) (.item i : ValueRef T) with
      | none =>
        have hnone : v.insert pos (.item i) = none := by simp only [insert, hr]; rfl
        rw [step, hnone] at h
        simp at h
      | some read =>
        obtain ⟨v', hins, hv', -⟩ := insert_spec_of_read hv (show pos ≤ v.size by rw [← hsize]; exact hvalid.1) hr
        rw [step, hins] at h
        obtain rfl := Option.some.inj h
        exact ⟨hv', hw⟩
  case insert_count pos count value =>
    cases value with
    | val x => exact of_plain trivial
    | item i =>
      cases hr : readRef (decide (v.capacity < v.size + count)) (.item i : ValueRef T) with
      | none =>
        have hnone : v.insert_count pos count (.item i) = none := by simp only [insert_count, hr]; rfl
        rw [step, hnone] at h
        simp at h
      | some read =>
        obtain ⟨v', hins, hv', -⟩ := insert_count_spec_of_read hv (show pos ≤ v.size by rw [← hsize]; exact hvalid.1) count hr
        rw [step, hins] at h
        obtain rfl := Option.some.inj h
        exact ⟨hv', hw⟩
  case push_back value =>
    cases value with
    | val x => exact of_plain trivial
    | item i =>
      cases hr : readRef (decide (v.capacity < v.size + 1)) (.item i : ValueRef T) with
      | none =>
        have hnone : v.push_back (.item i) = none := by simp only [push_back, hr]; rfl
        rw [step, hnone] at h
        simp at h
      | some read =>
        obtain ⟨v', hins, hv', -⟩ := push_back_spec_of_read hv hr
        rw [step, hins] at h
        obtain rfl := Option.some.inj h
        exact ⟨hv', hw⟩
  all_goals exact of_plain trivial

/-- `{1, 2}` inline in a `prevector<3, int>`, with room for a third element. -/
def oneTwo : prevector 3 ℕ := ⟨2, ⟨[1, 2, 0], 0, []⟩⟩

theorem oneTwo_wf : oneTwo.WF := ⟨rfl, fun h => absurd h (by decide)⟩

theorem step_wf_insert_aliased :
    oneTwo.WF ∧ (empty : prevector 3 ℕ).WF ∧ (Op.insert 0 (.item 1)).Valid oneTwo.elements ∧
      step (.insert 0 (.item 1)) (oneTwo, (empty : prevector 3 ℕ)) = some (⟨3, ⟨[1, 1, 2], 0, []⟩⟩, empty) ∧
      (⟨3, ⟨[1, 1, 2], 0, []⟩⟩ : prevector 3 ℕ).WF ∧ (empty : prevector 3 ℕ).WF :=
  have hvalid : (Op.insert 0 (.item 1)).Valid oneTwo.elements :=
    ⟨Nat.zero_le _, (by decide : 1 < oneTwo.elements.length)⟩
  have hstep : step (.insert 0 (.item 1)) (oneTwo, (empty : prevector 3 ℕ)) =
      some (⟨3, ⟨[1, 1, 2], 0, []⟩⟩, empty) := by decide
  ⟨oneTwo_wf, empty_wf, hvalid, hstep, step_wf oneTwo_wf empty_wf hvalid hstep⟩

/-- `insert(pos, v[i])` past `pos`, with room for one more element: the
prevector inserts the element before `i` where the vector inserts `v[i]`, so
the two differ whenever those elements do. -/
theorem step_insert_item_diverges {s : prevector N T × prevector N T} {σ : List T × List T} (h : Refines s σ)
    {pos i : ℕ} (hpos : pos < i) (hi : i < σ.1.length) (hroom : s.1.size < s.1.capacity)
    (hne : σ.1.getD (i - 1) default ≠ σ.1.getD i default) :
    ∃ s', step (.insert pos (.item i)) s = some s' ∧ s'.1.WF ∧
      s'.1.elements ≠ (vecStep (.insert pos (.item i)) σ).1 := by
  obtain ⟨v, w⟩ := s
  obtain ⟨l, a⟩ := σ
  obtain ⟨hv, hw, hl, ha⟩ := h
  dsimp only at hv hw hl ha hi hroom hne
  subst hl ha
  have hsize := hv.length_elements
  obtain ⟨v', hins, hv', he⟩ := insert_item_spec hv (show pos ≤ v.size by omega) (show i < v.size by omega) hroom
  refine ⟨_, by rw [step, hins]; rfl, hv', ?_⟩
  rw [he, if_pos hpos]
  intro heq
  have heq' : v.elements.take pos ++ [v.elements.getD (i - 1) default] ++ v.elements.drop pos =
      v.elements.take pos ++ [v.elements.getD i default] ++ v.elements.drop pos := heq
  -- the two differ at `pos`
  exact hne (List.cons.inj (List.append_cancel_left (List.append_cancel_right heq'))).1

theorem step_insert_item_diverges_oneTwo :
    Refines (oneTwo, (empty : prevector 3 ℕ)) ([1, 2], []) ∧ 0 < 1 ∧ 1 < [1, 2].length ∧
      oneTwo.size < oneTwo.capacity ∧ [1, 2].getD (1 - 1) default ≠ [1, 2].getD 1 default ∧
      ∃ s', step (.insert 0 (.item 1)) (oneTwo, (empty : prevector 3 ℕ)) = some s' ∧ s'.1.WF ∧
        s'.1.elements ≠ (vecStep (.insert 0 (.item 1)) ([1, 2], [])).1 :=
  have hr : Refines (oneTwo, (empty : prevector 3 ℕ)) ([1, 2], []) := ⟨oneTwo_wf, empty_wf, rfl, elements_empty⟩
  ⟨hr, Nat.one_pos, by decide, by decide, by decide,
    step_insert_item_diverges hr Nat.one_pos (by decide) (by decide) (by decide)⟩

end Refinement

/-- `insert(begin(), v[1])` on the prevector `{1, 2}`, which has room for a
third element inline: the prevector becomes `{1, 1, 2}`, the vector
`{2, 1, 2}`. -/
theorem insert_aliased_element :
    ValidRun [(.push_back (.val 1) : Op ℕ), .push_back (.val 2), .insert 0 (.item 1)] ([], []) ∧
      (run [.push_back (.val 1), .push_back (.val 2), .insert 0 (.item 1)]
        ((empty : prevector 3 ℕ), empty)).map (·.1.elements) = some [1, 1, 2] ∧
      (vecRun [(.push_back (.val 1) : Op ℕ), .push_back (.val 2), .insert 0 (.item 1)] ([], [])).1 = [2, 1, 2] :=
  ⟨⟨trivial, trivial, ⟨(by decide : 0 ≤ 2), (by decide : 1 < 2)⟩, trivial⟩, by decide, by decide⟩

end prevector

end XPChain
