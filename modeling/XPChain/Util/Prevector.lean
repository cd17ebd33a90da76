import XPChain.Lib.Cells

/-!
# prevector

`prevector<N, T>` of `prevector.h` holds up to `N` elements inline and more on
the heap.  One counter, `_size`, holds both the number of elements and the tag:
the elements are inline (`is_direct`) when `_size ≤ N`, and on the heap
otherwise, where `_size` is the number of elements plus `N + 1`.  The union
`_union` holds the `N` inline cells, or the capacity and the heap buffer.

The model keeps the cells of each buffer as a list (`Lib.Cells`).  The inline
cells and the heap fields share their bytes in the source; the model keeps
them apart, and the code never reads the member the tag does not select,
except through a reference argument, below.  `T` is trivially copyable, as
`memmove` and `realloc` require: destruction does nothing, and `T()` is
`default`.  Fresh heap cells, which the code never reads before it writes
them, also hold `default`.

Each member that takes a `const T&` which `std::vector` allows to point into
the vector itself (`insert` and `push_back`) takes a `ValueRef`: a value held
elsewhere, or an element of the same prevector.  The code reads the reference
where it constructs the new element, after `change_capacity` and `memmove`.
When `change_capacity` has run, the reference points into the inline cells it
overwrote or the heap buffer it freed, and the member's result is `none`.

## Main definitions

* `prevector`, `prevector.WF` — the representation and its invariant.
* `change_capacity`, `resize`, `reserve`, `shrink_to_fit`, `clear`,
  `insert`, `insert_count`, `insert_range`, `erase`, `push_back`,
  `pop_back`, `assign`, `assign_range`, `swap`, the copy constructor.
* `prevector.elements` — the element sequence, `begin()` to `end()`.
-/

set_option autoImplicit false

namespace XPChain

/-- The union of a prevector: the inline cells, or the capacity and the cells
of the heap buffer. -/
structure direct_or_indirect (T : Type*) where
  direct : List T
  capacity : ℕ
  indirect : List T
  deriving DecidableEq

/-- `prevector<N, T>`. -/
structure prevector (N : ℕ) (T : Type*) where
  _size : ℕ
  _union : direct_or_indirect T
  deriving DecidableEq

/-- A `const T&` argument: a value held outside the prevector, or its own
element at an index. -/
inductive ValueRef (T : Type*)
  | val (x : T)
  | item (i : ℕ)
  deriving DecidableEq

namespace prevector

variable {N : ℕ} {T : Type*}

/-- `prevector()`: no elements, with zeroed inline cells. -/
def empty [Inhabited T] : prevector N T := ⟨0, ⟨List.replicate N default, 0, []⟩⟩

def is_direct (v : prevector N T) : Bool := decide (v._size ≤ N)

def size (v : prevector N T) : ℕ := if v.is_direct then v._size else v._size - N - 1

def capacity (v : prevector N T) : ℕ := if v.is_direct then N else v._union.capacity

/-- The cells `item_ptr` points into. -/
def items (v : prevector N T) : List T := if v.is_direct then v._union.direct else v._union.indirect

/-- The cells `item_ptr` points into, written over with `b`. -/
def setItems (v : prevector N T) (b : List T) : prevector N T :=
  if v.is_direct then ⟨v._size, { v._union with direct := b }⟩
  else ⟨v._size, { v._union with indirect := b }⟩

/-- The elements, `begin()` to `end()`. -/
def elements (v : prevector N T) : List T := v.items.take v.size

def change_capacity [Inhabited T] (v : prevector N T) (new_capacity : ℕ) : prevector N T :=
  if new_capacity ≤ N then
    if !v.is_direct then
      -- the elements come back inline, and the heap buffer is freed
      ⟨v._size - (N + 1), { v._union with direct := Cells.copy v._union.direct v._union.indirect v.size }⟩
    else v
  else if !v.is_direct then
    ⟨v._size, { v._union with
      indirect := Cells.realloc v._union.indirect new_capacity default
      capacity := new_capacity }⟩
  else
    ⟨v._size + (N + 1), { v._union with
      indirect := Cells.copy (List.replicate new_capacity default) v._union.direct v.size
      capacity := new_capacity }⟩

/-- `fill(dst, count, value)` from cell `p`: each copy reads `value` anew,
from the cells as they are then. -/
def fill (b : List T) (p count : ℕ) (value : List T → T) : List T :=
  (List.range count).foldl (fun b k => b.set (p + k) (value b)) b

/-- The growth step that `insert` and `push_back` share: room for
`new_size` elements, with half as many again when the buffer moves. -/
def grow [Inhabited T] (v : prevector N T) (new_size : ℕ) : prevector N T :=
  if v.capacity < new_size then v.change_capacity (new_size + (new_size >>> 1)) else v

/-- `erase(first, last)`: the cells past `last` move down to `first`.  The
pointers are taken before `_size` shrinks. -/
def erase (v : prevector N T) (first last : ℕ) : prevector N T :=
  let v' := v.setItems (Cells.move v.items first last (v.size - last))
  { v' with _size := v'._size - (last - first) }

/-- `erase(pos)`. -/
def erase_one (v : prevector N T) (pos : ℕ) : prevector N T := v.erase pos (pos + 1)

def resize [Inhabited T] (v : prevector N T) (new_size : ℕ) : prevector N T :=
  let cur_size := v.size
  if cur_size = new_size then v
  else if cur_size > new_size then v.erase new_size cur_size
  else
    let v := if new_size > v.capacity then v.change_capacity new_size else v
    let increase := new_size - cur_size
    -- `fill(item_ptr(cur_size), increase)`: `T()`, zero bytes for trivially constructible `T`
    let v := v.setItems (Cells.write v.items cur_size (List.replicate increase default))
    { v with _size := v._size + increase }

def reserve [Inhabited T] (v : prevector N T) (new_capacity : ℕ) : prevector N T :=
  if new_capacity > v.capacity then v.change_capacity new_capacity else v

def shrink_to_fit [Inhabited T] (v : prevector N T) : prevector N T := v.change_capacity v.size

def clear [Inhabited T] (v : prevector N T) : prevector N T := v.resize 0

/-- Reading a `const T&` argument, after `moved` says whether
`change_capacity` ran since the call: a reference to an element then
dangles. -/
def readRef [Inhabited T] (moved : Bool) : ValueRef T → Option (List T → T)
  | .val x => some fun _ => x
  | .item i => if moved then none else some fun b => b.getD i default

/-- `insert(pos, value)`. -/
def insert [Inhabited T] (v : prevector N T) (pos : ℕ) (value : ValueRef T) : Option (prevector N T) := do
  let p := pos
  let new_size := v.size + 1
  let read ← readRef (decide (v.capacity < new_size)) value
  let v := v.grow new_size
  let b := Cells.move v.items (p + 1) p (v.size - p)
  -- `new(ptr) T(value)` reads `value` after the `memmove`
  let v := v.setItems (b.set p (read b))
  pure { v with _size := v._size + 1 }

/-- `insert(pos, count, value)`. -/
def insert_count [Inhabited T] (v : prevector N T) (pos count : ℕ) (value : ValueRef T) : Option (prevector N T) := do
  let p := pos
  let new_size := v.size + count
  let read ← readRef (decide (v.capacity < new_size)) value
  let v := v.grow new_size
  let v := v.setItems (Cells.move v.items (p + count) p (v.size - p))
  let v := { v with _size := v._size + count }
  pure (v.setItems (fill v.items p count read))

/-- `insert(pos, first, last)`. -/
def insert_range [Inhabited T] (v : prevector N T) (pos : ℕ) (xs : List T) : prevector N T :=
  let p := pos
  let count := xs.length
  let new_size := v.size + count
  let v := v.grow new_size
  let v := v.setItems (Cells.move v.items (p + count) p (v.size - p))
  -- `ptr` was taken before `_size` grew
  let v := v.setItems (Cells.write v.items p xs)
  { v with _size := v._size + count }

def push_back [Inhabited T] (v : prevector N T) (value : ValueRef T) : Option (prevector N T) := do
  let new_size := v.size + 1
  let read ← readRef (decide (v.capacity < new_size)) value
  let v := v.grow new_size
  let v := v.setItems (v.items.set v.size (read v.items))
  pure { v with _size := v._size + 1 }

def pop_back (v : prevector N T) : prevector N T := v.erase (v.size - 1) v.size

/-- `operator[](pos) = value`. -/
def update (v : prevector N T) (pos : ℕ) (value : T) : prevector N T :=
  v.setItems (v.items.set pos value)

def assign [Inhabited T] (v : prevector N T) (n : ℕ) (val : T) : prevector N T :=
  let v := v.clear
  let v := if v.capacity < n then v.change_capacity n else v
  let v := { v with _size := v._size + n }
  v.setItems (fill v.items 0 n fun _ => val)

/-- `assign(first, last)`. -/
def assign_range [Inhabited T] (v : prevector N T) (xs : List T) : prevector N T :=
  let n := xs.length
  let v := v.clear
  let v := if v.capacity < n then v.change_capacity n else v
  let v := { v with _size := v._size + n }
  v.setItems (Cells.write v.items 0 xs)

/-- `prevector(const prevector& other)`. -/
def copy [Inhabited T] (other : prevector N T) : prevector N T :=
  let n := other.size
  let v := (empty : prevector N T).change_capacity n
  let v := { v with _size := v._size + n }
  v.setItems (Cells.write v.items 0 other.elements)

/-- `swap(other)`: the two exchange `_union` and `_size`. -/
def swap (v other : prevector N T) : prevector N T × prevector N T := (other, v)

/-! ## The fields behind `size`, `capacity` and the cells -/

section Fields

variable (v : prevector N T)

@[simp] theorem _size_setItems (b : List T) : (v.setItems b)._size = v._size := by
  unfold setItems
  split <;> rfl

@[simp] theorem is_direct_setItems (b : List T) : (v.setItems b).is_direct = v.is_direct := by
  simp only [is_direct, _size_setItems]

@[simp] theorem items_setItems (b : List T) : (v.setItems b).items = b := by
  unfold items
  rw [is_direct_setItems]
  cases h : v.is_direct <;> simp [setItems, h]

@[simp] theorem size_setItems (b : List T) : (v.setItems b).size = v.size := by
  simp only [size, is_direct_setItems, _size_setItems]

@[simp] theorem capacity_setItems (b : List T) : (v.setItems b).capacity = v.capacity := by
  unfold capacity
  rw [is_direct_setItems]
  cases h : v.is_direct <;> simp [setItems, h]

theorem size_of_direct (h : v.is_direct = true) : v.size = v._size := by
  simp [size, h]

theorem size_of_indirect (h : v.is_direct = false) : v.size = v._size - N - 1 := by
  simp [size, h]

theorem capacity_of_direct (h : v.is_direct = true) : v.capacity = N := by
  simp [capacity, h]

theorem capacity_of_indirect (h : v.is_direct = false) : v.capacity = v._union.capacity := by
  simp [capacity, h]

theorem items_of_direct (h : v.is_direct = true) : v.items = v._union.direct := by
  simp [items, h]

theorem items_of_indirect (h : v.is_direct = false) : v.items = v._union.indirect := by
  simp [items, h]

theorem elements_of_direct (h : v.is_direct = true) : v.elements = v._union.direct.take v._size := by
  rw [elements, items_of_direct v h, size_of_direct v h]

theorem elements_of_indirect (h : v.is_direct = false) : v.elements = v._union.indirect.take (v._size - N - 1) := by
  rw [elements, items_of_indirect v h, size_of_indirect v h]

theorem is_direct_eq_true_iff : v.is_direct = true ↔ v._size ≤ N := decide_eq_true_iff

theorem setItems_of_direct (h : v.is_direct = true) (b : List T) :
    v.setItems b = ⟨v._size, { v._union with direct := b }⟩ := by
  rw [setItems, if_pos h]

theorem setItems_of_indirect (h : v.is_direct = false) (b : List T) :
    v.setItems b = ⟨v._size, { v._union with indirect := b }⟩ := by
  rw [setItems, if_neg (ne_true_of_eq_false h)]

theorem is_direct_eq_false_iff : v.is_direct = false ↔ N < v._size := by
  rw [is_direct, decide_eq_false_iff_not, Nat.not_le]

end Fields

/-! ## The representation invariant -/

/-- The representation invariant: `N` inline cells; on the heap, a capacity
above `N` that the elements fit, and a buffer of that many cells. -/
structure WF (v : prevector N T) : Prop where
  length_direct : v._union.direct.length = N
  heap : v.is_direct = false →
    N < v._union.capacity ∧ v._size - N - 1 ≤ v._union.capacity ∧ v._union.indirect.length = v._union.capacity

namespace WF

variable {v : prevector N T} (hw : v.WF)
include hw

theorem length_items : v.items.length = v.capacity := by
  cases h : v.is_direct
  · rw [items_of_indirect v h, capacity_of_indirect v h]
    exact (hw.heap h).2.2
  · rw [items_of_direct v h, capacity_of_direct v h]
    exact hw.length_direct

theorem size_le_capacity : v.size ≤ v.capacity := by
  cases h : v.is_direct
  · rw [size_of_indirect v h, capacity_of_indirect v h]
    exact (hw.heap h).2.1
  · rw [size_of_direct v h, capacity_of_direct v h]
    exact (is_direct_eq_true_iff v).mp h

theorem setItems {b : List T} (hb : b.length = v.items.length) : (v.setItems b).WF := by
  cases h : v.is_direct
  · rw [items_of_indirect v h] at hb
    rw [setItems_of_indirect v h]
    exact ⟨hw.length_direct, fun _ => by simpa [hb] using hw.heap h⟩
  · rw [items_of_direct v h] at hb
    rw [setItems_of_direct v h]
    -- the tag is `_size`, which `setItems` keeps
    exact ⟨hb.trans hw.length_direct, fun hd => Bool.noConfusion (h.symm.trans hd)⟩

end WF

/-! ## Changing `_size` -/

section SizeField

variable {v : prevector N T}

theorem items_congr {w : prevector N T} (hd : w.is_direct = v.is_direct) (hu : w._union = v._union) :
    w.items = v.items := by
  simp only [items, hd, hu]

variable (k : ℕ)

/-- `_size += k` keeps the tag while the elements fit the capacity. -/
theorem is_direct_addSize (hk : v.size + k ≤ v.capacity) :
    ({ v with _size := v._size + k } : prevector N T).is_direct = v.is_direct := by
  cases h : v.is_direct
  · exact (is_direct_eq_false_iff _).mpr (Nat.lt_of_lt_of_le ((is_direct_eq_false_iff v).mp h) (Nat.le_add_right _ _))
  · rw [size_of_direct v h, capacity_of_direct v h] at hk
    exact (is_direct_eq_true_iff _).mpr hk

theorem size_addSize (hk : v.size + k ≤ v.capacity) :
    ({ v with _size := v._size + k } : prevector N T).size = v.size + k := by
  have hd := is_direct_addSize k hk
  cases h : v.is_direct
  · rw [size_of_indirect _ (hd.trans h), size_of_indirect v h]
    have := (is_direct_eq_false_iff v).mp h
    show v._size + k - N - 1 = v._size - N - 1 + k
    omega
  · rw [size_of_direct _ (hd.trans h), size_of_direct v h]

/-- `_size -= k` keeps the tag while `k` elements are there to go. -/
theorem is_direct_subSize (hk : k ≤ v.size) :
    ({ v with _size := v._size - k } : prevector N T).is_direct = v.is_direct := by
  cases h : v.is_direct
  · rw [size_of_indirect v h] at hk
    have hN := (is_direct_eq_false_iff v).mp h
    exact (is_direct_eq_false_iff _).mpr (by show N < v._size - k; omega)
  · exact (is_direct_eq_true_iff _).mpr (Nat.le_trans (Nat.sub_le _ _) ((is_direct_eq_true_iff v).mp h))

theorem size_subSize (hk : k ≤ v.size) :
    ({ v with _size := v._size - k } : prevector N T).size = v.size - k := by
  have hd := is_direct_subSize k hk
  cases h : v.is_direct
  · rw [size_of_indirect _ (hd.trans h), size_of_indirect v h]
    show v._size - k - N - 1 = v._size - N - 1 - k
    omega
  · rw [size_of_direct _ (hd.trans h), size_of_direct v h]

variable {k}

theorem WF.addSize (hw : v.WF) (hk : v.size + k ≤ v.capacity) : ({ v with _size := v._size + k } : prevector N T).WF := by
  refine ⟨hw.length_direct, fun hd => ?_⟩
  have h := (is_direct_addSize k hk).symm.trans hd
  rw [size_of_indirect v h, capacity_of_indirect v h] at hk
  have hN := (is_direct_eq_false_iff v).mp h
  exact ⟨(hw.heap h).1, by show v._size + k - N - 1 ≤ v._union.capacity; omega, (hw.heap h).2.2⟩

theorem WF.subSize (hw : v.WF) (hk : k ≤ v.size) : ({ v with _size := v._size - k } : prevector N T).WF := by
  refine ⟨hw.length_direct, fun hd => ?_⟩
  have h := (is_direct_subSize k hk).symm.trans hd
  have hheap := hw.heap h
  exact ⟨hheap.1, by show v._size - k - N - 1 ≤ v._union.capacity; omega, hheap.2.2⟩

end SizeField

/-! ## `change_capacity` -/

section Capacity

variable [Inhabited T] {v : prevector N T}

/-- `change_capacity` to room for the elements keeps them and the invariant,
and leaves `max N c` cells. -/
theorem change_capacity_spec (hw : v.WF) {c : ℕ} (hc : v.size ≤ c) :
    (v.change_capacity c).WF ∧ (v.change_capacity c).size = v.size ∧
      (v.change_capacity c).elements = v.elements ∧ (v.change_capacity c).capacity = max N c := by
  cases h : v.is_direct
  · have hN := (is_direct_eq_false_iff v).mp h
    have hheap := hw.heap h
    have hsize := size_of_indirect v h
    rw [hsize] at hc
    by_cases hcN : c ≤ N
    · -- the elements come back inline, and the heap buffer is freed
      have hv : v.change_capacity c =
          ⟨v._size - (N + 1), { v._union with direct := Cells.copy v._union.direct v._union.indirect v.size }⟩ := by
        rw [change_capacity, if_pos hcN, h]
        rfl
      have hd : (v.change_capacity c).is_direct = true := by
        rw [hv]
        exact (is_direct_eq_true_iff _).mpr (by show v._size - (N + 1) ≤ N; omega)
      have hlen : (Cells.copy v._union.direct v._union.indirect v.size).length = N := by
        rw [Cells.length_copy _ _ (by rw [hw.length_direct, hsize]; omega), hw.length_direct]
      refine ⟨⟨by rw [hv]; exact hlen, fun hd' => Bool.noConfusion (hd.symm.trans hd')⟩, ?_, ?_, ?_⟩
      · rw [size_of_direct _ hd, hv, hsize, Nat.sub_sub]
      · rw [elements_of_direct _ hd, elements_of_indirect v h, hv]
        show (Cells.copy _ _ v.size).take (v._size - (N + 1)) = _
        rw [hsize, ← Nat.sub_sub, Cells.take_copy _ _ (by omega)]
      · rw [capacity_of_direct _ hd, Nat.max_eq_left hcN]
    · -- a heap buffer of the new size
      have hv : v.change_capacity c = ⟨v._size, { v._union with
          indirect := Cells.realloc v._union.indirect c default
          capacity := c }⟩ := by
        rw [change_capacity, if_neg hcN, h]
        rfl
      have hd : (v.change_capacity c).is_direct = false := by
        rw [hv]
        exact h
      refine ⟨⟨by rw [hv]; exact hw.length_direct, fun _ => ?_⟩, ?_, ?_, ?_⟩
      · rw [hv]
        exact ⟨Nat.lt_of_not_le hcN, hc, Cells.length_realloc _ _ _⟩
      · rw [size_of_indirect _ hd, hv, hsize]
      · rw [elements_of_indirect _ hd, elements_of_indirect v h, hv]
        show (Cells.realloc v._union.indirect c default).take (v._size - N - 1) = _
        exact Cells.take_realloc _ _ hc (by rw [hheap.2.2]; exact hheap.2.1)
      · rw [capacity_of_indirect _ hd, hv, Nat.max_eq_right (Nat.le_of_lt (Nat.lt_of_not_le hcN))]
  · have hsize := size_of_direct v h
    have hle := (is_direct_eq_true_iff v).mp h
    by_cases hcN : c ≤ N
    · have hv : v.change_capacity c = v := by
        rw [change_capacity, if_pos hcN, h]
        rfl
      rw [hv, capacity_of_direct v h, Nat.max_eq_left hcN]
      exact ⟨hw, rfl, rfl, rfl⟩
    · -- the elements move to a new heap buffer
      have hv : v.change_capacity c = ⟨v._size + (N + 1), { v._union with
          indirect := Cells.copy (List.replicate c default) v._union.direct v.size
          capacity := c }⟩ := by
        rw [change_capacity, if_neg hcN, h]
        rfl
      have hd : (v.change_capacity c).is_direct = false := by
        rw [hv]
        exact (is_direct_eq_false_iff _).mpr (by show N < v._size + (N + 1); omega)
      have hlen : (Cells.copy (List.replicate c (default : T)) v._union.direct v.size).length = c := by
        rw [Cells.length_copy _ _ (by rw [List.length_replicate]; omega), List.length_replicate]
      refine ⟨⟨by rw [hv]; exact hw.length_direct, fun _ => ?_⟩, ?_, ?_, ?_⟩
      · rw [hv]
        exact ⟨Nat.lt_of_not_le hcN, by show v._size + (N + 1) - N - 1 ≤ c; omega, hlen⟩
      · rw [size_of_indirect _ hd, hv, hsize]
        show v._size + (N + 1) - N - 1 = v._size
        omega
      · rw [elements_of_indirect _ hd, elements_of_direct v h, hv]
        show (Cells.copy _ _ v.size).take (v._size + (N + 1) - N - 1) = _
        rw [hsize, show v._size + (N + 1) - N - 1 = v._size by omega,
          Cells.take_copy _ _ (by rw [hw.length_direct]; exact hle)]
      · rw [capacity_of_indirect _ hd, hv, Nat.max_eq_right (Nat.le_of_lt (Nat.lt_of_not_le hcN))]

/-- `grow` leaves room for `new_size` elements and keeps them and the invariant. -/
theorem grow_spec (hw : v.WF) (new_size : ℕ) :
    (v.grow new_size).WF ∧ (v.grow new_size).size = v.size ∧ (v.grow new_size).elements = v.elements ∧
      new_size ≤ (v.grow new_size).capacity := by
  unfold grow
  split_ifs with hlt
  · have hroom : v.size ≤ new_size + (new_size >>> 1) :=
      Nat.le_trans (Nat.le_trans hw.size_le_capacity (Nat.le_of_lt hlt)) (Nat.le_add_right _ _)
    obtain ⟨hw', hsize, helems, hcap⟩ := change_capacity_spec hw hroom
    exact ⟨hw', hsize, helems, hcap ▸ Nat.le_trans (Nat.le_add_right _ _) (Nat.le_max_right _ _)⟩
  · exact ⟨hw, rfl, rfl, Nat.le_of_not_lt hlt⟩

/-- `reserve` leaves room for `new_capacity` elements and keeps them and the
invariant. -/
theorem reserve_spec (hw : v.WF) (new_capacity : ℕ) :
    (v.reserve new_capacity).WF ∧ (v.reserve new_capacity).size = v.size ∧
      (v.reserve new_capacity).elements = v.elements ∧ new_capacity ≤ (v.reserve new_capacity).capacity := by
  unfold reserve
  split_ifs with hlt
  · obtain ⟨hw', hsize, helems, hcap⟩ :=
      change_capacity_spec hw (Nat.le_trans hw.size_le_capacity (Nat.le_of_lt hlt))
    exact ⟨hw', hsize, helems, hcap ▸ Nat.le_max_right _ _⟩
  · exact ⟨hw, rfl, rfl, Nat.le_of_not_lt hlt⟩

end Capacity

/-! ## Writing the cells, then moving `_size` -/

section Cells

variable {v : prevector N T}

theorem WF.length_elements (hw : v.WF) : v.elements.length = v.size := by
  rw [elements, List.length_take, hw.length_items, Nat.min_eq_left hw.size_le_capacity]

/-- Cells written, then `_size += k`: the elements are the first `size + k`
cells. -/
theorem setItems_addSize_spec (hw : v.WF) {k : ℕ} (hk : v.size + k ≤ v.capacity) {b : List T}
    (hb : b.length = v.items.length) :
    ({ (v.setItems b) with _size := (v.setItems b)._size + k } : prevector N T).WF ∧
      ({ (v.setItems b) with _size := (v.setItems b)._size + k } : prevector N T).elements = b.take (v.size + k) := by
  have hk' : (v.setItems b).size + k ≤ (v.setItems b).capacity := by
    rwa [size_setItems, capacity_setItems]
  refine ⟨(hw.setItems hb).addSize hk', ?_⟩
  rw [elements, size_addSize k hk', size_setItems, items_congr (is_direct_addSize k hk') rfl,
    items_setItems]

/-- Cells written, then `_size -= k`: the elements are the first `size - k`
cells. -/
theorem setItems_subSize_spec (hw : v.WF) {k : ℕ} (hk : k ≤ v.size) {b : List T}
    (hb : b.length = v.items.length) :
    ({ (v.setItems b) with _size := (v.setItems b)._size - k } : prevector N T).WF ∧
      ({ (v.setItems b) with _size := (v.setItems b)._size - k } : prevector N T).elements = b.take (v.size - k) := by
  have hk' : k ≤ (v.setItems b).size := by
    rwa [size_setItems]
  refine ⟨(hw.setItems hb).subSize hk', ?_⟩
  rw [elements, size_subSize k hk', size_setItems, items_congr (is_direct_subSize k hk') rfl,
    items_setItems]

/-- `_size += k`, then the cells written: the same as the other order. -/
theorem addSize_setItems {k : ℕ} (hk : v.size + k ≤ v.capacity) (b : List T) :
    ({ v with _size := v._size + k } : prevector N T).setItems b =
      { (v.setItems b) with _size := (v.setItems b)._size + k } := by
  have hd := is_direct_addSize k hk
  cases h : v.is_direct
  · rw [setItems_of_indirect _ (hd.trans h), setItems_of_indirect v h]
  · rw [setItems_of_direct _ (hd.trans h), setItems_of_direct v h]

@[simp] theorem setItems_setItems (b b' : List T) : (v.setItems b).setItems b' = v.setItems b' := by
  cases h : v.is_direct
  · rw [setItems_of_indirect _ (by rw [is_direct_setItems, h]), setItems_of_indirect v h, setItems_of_indirect v h]
  · rw [setItems_of_direct _ (by rw [is_direct_setItems, h]), setItems_of_direct v h, setItems_of_direct v h]

/-- Opening a gap of `xs.length` cells at `p` and writing `xs` into it puts
`xs` between the elements before `p` and those from `p` on. -/
theorem take_write_move_items (hw : v.WF) {p : ℕ} (hp : p ≤ v.size) (xs : List T)
    (hroom : v.size + xs.length ≤ v.capacity) :
    (Cells.write (Cells.move v.items (p + xs.length) p (v.size - p)) p xs).take (v.size + xs.length) =
      v.elements.take p ++ xs ++ v.elements.drop p := by
  rw [Cells.take_write_move _ xs hp (by rw [hw.length_items]; exact hroom), elements, List.take_take,
    Nat.min_eq_left hp, List.drop_take]

theorem length_move_items (hw : v.WF) (dst src n : ℕ) (h : dst + n ≤ v.capacity) :
    (Cells.move v.items dst src n).length = v.items.length :=
  Cells.length_move _ (by rw [hw.length_items]; exact h)

/-- `_size` grown by `k`, then the block `xs` of `k` cells written at the
start, in a prevector with no elements and room for them: the elements are
`xs`. -/
theorem write_start_spec (hw : v.WF) (hs : v.size = 0) {k : ℕ} {xs : List T} (hxs : xs.length = k)
    (hroom : k ≤ v.capacity) :
    (({ v with _size := v._size + k } : prevector N T).setItems
        (Cells.write ({ v with _size := v._size + k } : prevector N T).items 0 xs)).WF ∧
      (({ v with _size := v._size + k } : prevector N T).setItems
        (Cells.write ({ v with _size := v._size + k } : prevector N T).items 0 xs)).elements = xs := by
  have hk : v.size + k ≤ v.capacity := by omega
  have hlen := Cells.length_write v.items xs (p := 0) (by rw [hw.length_items]; omega)
  rw [items_congr (is_direct_addSize k hk) rfl, addSize_setItems hk]
  obtain ⟨hw', helems⟩ := setItems_addSize_spec hw hk hlen
  refine ⟨hw', helems.trans ?_⟩
  have htake := Cells.take_write v.items xs (p := 0) (Nat.zero_le _)
  rw [Nat.zero_add, List.take_zero, List.nil_append, hxs] at htake
  rw [hs, Nat.zero_add]
  exact htake

end Cells

/-! ## The members on the elements -/

section Fill

theorem fill_succ (b : List T) (p n : ℕ) (value : List T → T) :
    fill b p (n + 1) value = (fill b p n value).set (p + n) (value (fill b p n value)) := by
  rw [fill, List.range_succ, List.foldl_append, List.foldl_cons, List.foldl_nil]
  rfl

theorem length_fill (b : List T) (p : ℕ) (value : List T → T) : ∀ n, (fill b p n value).length = b.length
  | 0 => rfl
  | n + 1 => by rw [fill_succ, List.length_set, length_fill b p value n]

/-- Copies of a value held elsewhere: the block of them. -/
theorem fill_const (b : List T) (p : ℕ) (x : T) :
    ∀ n, p + n ≤ b.length → fill b p n (fun _ => x) = Cells.write b p (List.replicate n x)
  | 0, _ => by rw [List.replicate_zero, Cells.write_nil]; rfl
  | n + 1, h => by
    have hset := Cells.set_write b (List.replicate n x) (p := p) (by rw [List.length_replicate]; omega) x
    rw [List.length_replicate] at hset
    rw [fill_succ, fill_const b p x n (by omega), hset, List.replicate_succ']

/-- `_size` grown by `n`, then `n` copies of a value held elsewhere filled in
at the start, in a prevector with no elements and room for them. -/
theorem fill_start_spec {v : prevector N T} (hw : v.WF) (hs : v.size = 0) {n : ℕ} (hroom : n ≤ v.capacity) (val : T) :
    (({ v with _size := v._size + n } : prevector N T).setItems
        (fill ({ v with _size := v._size + n } : prevector N T).items 0 n fun _ => val)).WF ∧
      (({ v with _size := v._size + n } : prevector N T).setItems
        (fill ({ v with _size := v._size + n } : prevector N T).items 0 n fun _ => val)).elements =
        List.replicate n val := by
  have hk : v.size + n ≤ v.capacity := by omega
  rw [fill_const _ _ _ _ (by rw [items_congr (is_direct_addSize n hk) rfl, hw.length_items]; omega)]
  exact write_start_spec hw hs List.length_replicate hroom

end Fill

section Erase

variable {v : prevector N T}

theorem erase_spec (hw : v.WF) {first last : ℕ} (hfl : first ≤ last) (hl : last ≤ v.size) :
    (v.erase first last).WF ∧ (v.erase first last).elements = v.elements.take first ++ v.elements.drop last := by
  have hcap := hw.size_le_capacity
  have hb : (Cells.move v.items first last (v.size - last)).length = v.items.length :=
    length_move_items hw _ _ _ (by omega)
  obtain ⟨hw', helems⟩ := setItems_subSize_spec hw (k := last - first) (by omega) hb
  refine ⟨hw', helems.trans ?_⟩
  rw [show v.size - (last - first) = first + (v.size - last) by omega,
    Cells.take_move _ (by rw [hw.length_items]; omega) (by rw [hw.length_items]; omega), elements,
    List.take_take, Nat.min_eq_left (by omega), List.drop_take]

theorem erase_one_spec (hw : v.WF) {pos : ℕ} (hpos : pos < v.size) :
    (v.erase_one pos).WF ∧ (v.erase_one pos).elements = v.elements.eraseIdx pos := by
  rw [List.eraseIdx_eq_take_drop_succ]
  exact erase_spec hw (Nat.le_succ pos) hpos

theorem pop_back_spec (hw : v.WF) :
    v.pop_back.WF ∧ v.pop_back.elements = v.elements.dropLast := by
  obtain ⟨hw', helems⟩ := erase_spec hw (Nat.sub_le v.size 1) (Nat.le_refl v.size)
  refine ⟨hw', helems.trans ?_⟩
  rw [List.dropLast_eq_take, hw.length_elements, ← hw.length_elements, List.drop_length, List.append_nil]

theorem update_spec (hw : v.WF) (pos : ℕ) (x : T) :
    (v.update pos x).WF ∧ (v.update pos x).elements = v.elements.set pos x := by
  refine ⟨hw.setItems (List.length_set ..), ?_⟩
  rw [elements, update, items_setItems, size_setItems, List.take_set, elements]

end Erase

theorem empty_wf [Inhabited T] : (empty : prevector N T).WF :=
  ⟨List.length_replicate, fun h => absurd h (by simp [empty, is_direct])⟩

@[simp] theorem elements_empty [Inhabited T] : (empty : prevector N T).elements = [] := by
  simp [empty, elements, size, is_direct]

@[simp] theorem size_empty [Inhabited T] : (empty : prevector N T).size = 0 := by
  simp [empty, size, is_direct]

section Members

variable [Inhabited T] {v : prevector N T}

/-- `insert(pos, value)`, where `value` reads as `read` from the cells after
the `memmove`. -/
theorem insert_spec_of_read (hw : v.WF) {pos : ℕ} (hpos : pos ≤ v.size) {value : ValueRef T}
    {read : List T → T} (hread : readRef (decide (v.capacity < v.size + 1)) value = some read) :
    ∃ w, v.insert pos value = some w ∧ w.WF ∧
      w.elements = v.elements.take pos ++
        [read (Cells.move (v.grow (v.size + 1)).items (pos + 1) pos ((v.grow (v.size + 1)).size - pos))] ++
        v.elements.drop pos := by
  obtain ⟨hw1, hs1, he1, hc1⟩ := grow_spec hw (v.size + 1)
  have hlen := length_move_items hw1 (pos + 1) pos ((v.grow (v.size + 1)).size - pos)
    (by omega)
  obtain ⟨hw', helems⟩ := setItems_addSize_spec hw1 (k := 1) (by omega)
    (b := (Cells.move (v.grow (v.size + 1)).items (pos + 1) pos ((v.grow (v.size + 1)).size - pos)).set pos
      (read (Cells.move (v.grow (v.size + 1)).items (pos + 1) pos ((v.grow (v.size + 1)).size - pos))))
    (by rw [List.length_set, hlen])
  simp only [insert, hread]
  refine ⟨_, rfl, hw', helems.trans ?_⟩
  have hkey := take_write_move_items hw1 (p := pos) (by omega)
    [read (Cells.move (v.grow (v.size + 1)).items (pos + 1) pos ((v.grow (v.size + 1)).size - pos))]
    (by rw [List.length_singleton, hs1]; exact hc1)
  rw [← Cells.write_singleton _ (by rw [hlen, hw1.length_items]; omega), ← he1]
  exact hkey

theorem insert_spec (hw : v.WF) {pos : ℕ} (hpos : pos ≤ v.size) (x : T) :
    ∃ w, v.insert pos (.val x) = some w ∧ w.WF ∧ w.elements = v.elements.take pos ++ [x] ++ v.elements.drop pos :=
  insert_spec_of_read hw hpos (show readRef _ (.val x) = some fun _ => x from rfl)

/-- `insert(pos, v[i])` with room for one more: the element is read after
the `memmove`, which has moved the element before `i` into cell `i` when
`i` is past `pos`. -/
theorem insert_item_spec (hw : v.WF) {pos i : ℕ} (hpos : pos ≤ v.size) (hi : i < v.size)
    (hroom : v.size < v.capacity) :
    ∃ w, v.insert pos (.item i) = some w ∧ w.WF ∧
      w.elements = v.elements.take pos ++ [v.elements.getD (if pos < i then i - 1 else i) default] ++
        v.elements.drop pos := by
  have hread : readRef (decide (v.capacity < v.size + 1)) (.item i : ValueRef T) = some fun b => b.getD i default := by
    rw [readRef, decide_eq_false (by omega)]
    rfl
  obtain ⟨w, hins, hw', helems⟩ := insert_spec_of_read hw hpos hread
  refine ⟨w, hins, hw', helems.trans ?_⟩
  have hgrow : v.grow (v.size + 1) = v := by
    rw [grow, if_neg (by omega)]
  -- the cell read is the element `i - 1` past `pos`, and the element `i` up to it
  have hcell := Cells.getElem?_move v.items (p := pos) (k := 1) (s := v.size) (i := i) hpos
    (by rw [hw.length_items]; omega) (by omega)
  have hsel : (if pos + 1 ≤ i then i - 1 else i) = (if pos < i then i - 1 else i) := by
    split_ifs <;> omega
  have hlt : (if pos < i then i - 1 else i) < v.size := by
    split_ifs <;> omega
  rw [hgrow, List.getD_eq_getElem?_getD, hcell, hsel, List.getD_eq_getElem?_getD, elements,
    List.getElem?_take_of_lt hlt]

/-- `insert(pos, count, value)`, where `value` reads as `read` from the cells
as `fill` leaves them. -/
theorem insert_count_spec_of_read (hw : v.WF) {pos : ℕ} (hpos : pos ≤ v.size) (count : ℕ) {value : ValueRef T}
    {read : List T → T} (hread : readRef (decide (v.capacity < v.size + count)) value = some read) :
    ∃ w, v.insert_count pos count value = some w ∧ w.WF ∧
      w.elements = (fill (Cells.move (v.grow (v.size + count)).items (pos + count) pos
        ((v.grow (v.size + count)).size - pos)) pos count read).take (v.size + count) := by
  obtain ⟨hw1, hs1, -, hc1⟩ := grow_spec hw (v.size + count)
  have hk : (v.grow (v.size + count)).size + count ≤ (v.grow (v.size + count)).capacity := by omega
  have hlen := length_move_items hw1 (pos + count) pos
    ((v.grow (v.size + count)).size - pos) (by omega)
  -- the gap is opened and `_size` grows first; `fill` then writes into the gap
  obtain ⟨hw2, -⟩ := setItems_addSize_spec hw1 hk hlen
  have hk' : ((v.grow (v.size + count)).setItems (Cells.move (v.grow (v.size + count)).items (pos + count) pos
      ((v.grow (v.size + count)).size - pos))).size + count ≤
      ((v.grow (v.size + count)).setItems (Cells.move (v.grow (v.size + count)).items (pos + count) pos
        ((v.grow (v.size + count)).size - pos))).capacity := by
    rwa [size_setItems, capacity_setItems]
  simp only [insert_count, hread]
  refine ⟨_, rfl, hw2.setItems (length_fill _ _ _ _), ?_⟩
  rw [elements, items_setItems, size_setItems, size_addSize count hk', size_setItems,
    items_congr (is_direct_addSize count hk') rfl, items_setItems, hs1]

theorem insert_count_spec (hw : v.WF) {pos : ℕ} (hpos : pos ≤ v.size) (count : ℕ) (x : T) :
    ∃ w, v.insert_count pos count (.val x) = some w ∧ w.WF ∧
      w.elements = v.elements.take pos ++ List.replicate count x ++ v.elements.drop pos := by
  obtain ⟨w, hins, hw', helems⟩ :=
    insert_count_spec_of_read hw hpos count (show readRef _ (.val x) = some fun _ => x from rfl)
  refine ⟨w, hins, hw', helems.trans ?_⟩
  obtain ⟨hw1, hs1, he1, hc1⟩ := grow_spec hw (v.size + count)
  have hlen := length_move_items hw1 (pos + count) pos
    ((v.grow (v.size + count)).size - pos) (by omega)
  -- copies of a value held elsewhere: `fill` writes the block of them
  rw [fill_const _ _ _ _ (by rw [hlen, hw1.length_items]; omega)]
  have hkey := take_write_move_items hw1 (p := pos) (by omega) (List.replicate count x)
    (by rw [List.length_replicate, hs1]; exact hc1)
  rw [List.length_replicate, he1] at hkey
  rw [hs1] at hkey ⊢
  exact hkey

theorem insert_range_spec (hw : v.WF) {pos : ℕ} (hpos : pos ≤ v.size) (xs : List T) :
    (v.insert_range pos xs).WF ∧ (v.insert_range pos xs).elements = v.elements.take pos ++ xs ++ v.elements.drop pos := by
  obtain ⟨hw1, hs1, he1, hc1⟩ := grow_spec hw (v.size + xs.length)
  have hlen := length_move_items hw1 (pos + xs.length) pos
    ((v.grow (v.size + xs.length)).size - pos) (by omega)
  have hwrite := Cells.length_write (Cells.move (v.grow (v.size + xs.length)).items (pos + xs.length) pos
    ((v.grow (v.size + xs.length)).size - pos)) xs (p := pos) (by rw [hlen, hw1.length_items]; omega)
  obtain ⟨hw', helems⟩ := setItems_addSize_spec hw1 (k := xs.length) (by omega) (hwrite.trans hlen)
  have hv : v.insert_range pos xs = { ((v.grow (v.size + xs.length)).setItems
      (Cells.write (Cells.move (v.grow (v.size + xs.length)).items (pos + xs.length) pos
        ((v.grow (v.size + xs.length)).size - pos)) pos xs)) with
      _size := ((v.grow (v.size + xs.length)).setItems
        (Cells.write (Cells.move (v.grow (v.size + xs.length)).items (pos + xs.length) pos
          ((v.grow (v.size + xs.length)).size - pos)) pos xs))._size + xs.length } := by
    simp only [insert_range, setItems_setItems, items_setItems, _size_setItems]
  rw [hv]
  refine ⟨hw', helems.trans ?_⟩
  rw [← he1]
  exact take_write_move_items hw1 (p := pos) (by omega) xs (by omega)

/-- `push_back(value)`, where `value` reads as `read` from the cells after
`grow`. -/
theorem push_back_spec_of_read (hw : v.WF) {value : ValueRef T} {read : List T → T}
    (hread : readRef (decide (v.capacity < v.size + 1)) value = some read) :
    ∃ w, v.push_back value = some w ∧ w.WF ∧ w.elements = v.elements ++ [read (v.grow (v.size + 1)).items] := by
  obtain ⟨hw1, hs1, he1, hc1⟩ := grow_spec hw (v.size + 1)
  obtain ⟨hw', helems⟩ := setItems_addSize_spec hw1 (k := 1) (by omega)
    (b := (v.grow (v.size + 1)).items.set (v.grow (v.size + 1)).size (read (v.grow (v.size + 1)).items))
    (List.length_set ..)
  simp only [push_back, hread]
  refine ⟨_, rfl, hw', helems.trans ?_⟩
  have hroom : (v.grow (v.size + 1)).size < (v.grow (v.size + 1)).items.length := by
    rw [hw1.length_items]
    omega
  have htake := Cells.take_write _ [read (v.grow (v.size + 1)).items] (Nat.le_of_lt hroom)
  rw [List.length_singleton] at htake
  rw [← Cells.write_singleton _ hroom, htake, ← he1, elements]

theorem push_back_spec (hw : v.WF) (x : T) :
    ∃ w, v.push_back (.val x) = some w ∧ w.WF ∧ w.elements = v.elements ++ [x] :=
  push_back_spec_of_read hw (show readRef _ (.val x) = some fun _ => x from rfl)

theorem resize_spec (hw : v.WF) (new_size : ℕ) :
    (v.resize new_size).WF ∧
      (v.resize new_size).elements = v.elements.take new_size ++ List.replicate (new_size - v.size) default := by
  unfold resize
  dsimp only
  by_cases heq : v.size = new_size
  · rw [if_pos heq, heq, Nat.sub_self, List.replicate_zero, List.append_nil, ← heq, ← hw.length_elements,
      List.take_length]
    exact ⟨hw, rfl⟩
  rw [if_neg heq]
  by_cases hgt : v.size > new_size
  · rw [if_pos hgt]
    obtain ⟨hw', helems⟩ := erase_spec hw (Nat.le_of_lt hgt) (Nat.le_refl _)
    refine ⟨hw', helems.trans ?_⟩
    rw [← hw.length_elements, List.drop_length, Nat.sub_eq_zero_of_le (by rw [hw.length_elements]; omega),
      List.replicate_zero]
  rw [if_neg hgt]
  -- room for the new elements, then `T()` written after the old ones
  obtain ⟨hw1, hs1, he1, hc1⟩ := reserve_spec hw new_size
  have hroom : v.size ≤ (v.reserve new_size).items.length := by
    rw [hw1.length_items, ← hs1]
    exact hw1.size_le_capacity
  have hlen := Cells.length_write (v.reserve new_size).items (List.replicate (new_size - v.size) (default : T))
    (p := v.size) (by rw [List.length_replicate, hw1.length_items]; omega)
  obtain ⟨hw', helems⟩ := setItems_addSize_spec hw1 (k := new_size - v.size) (by omega)
    (b := Cells.write (v.reserve new_size).items v.size (List.replicate (new_size - v.size) default)) hlen
  refine ⟨hw', helems.trans ?_⟩
  have htake := Cells.take_write (v.reserve new_size).items (List.replicate (new_size - v.size) (default : T)) hroom
  rw [List.length_replicate] at htake
  have hall : v.elements.take new_size = v.elements := List.take_of_length_le (by rw [hw.length_elements]; omega)
  rw [hs1, htake, hall, ← he1, elements, hs1]

theorem clear_spec (hw : v.WF) : v.clear.WF ∧ v.clear.elements = [] := by
  obtain ⟨hw', helems⟩ := resize_spec hw 0
  refine ⟨hw', helems.trans ?_⟩
  rw [List.take_zero, Nat.zero_sub, List.replicate_zero, List.append_nil]

theorem shrink_to_fit_spec (hw : v.WF) : v.shrink_to_fit.WF ∧ v.shrink_to_fit.elements = v.elements := by
  obtain ⟨hw', -, helems, -⟩ := change_capacity_spec hw (Nat.le_refl v.size)
  exact ⟨hw', helems⟩

theorem assign_range_spec (hw : v.WF) (xs : List T) :
    (v.assign_range xs).WF ∧ (v.assign_range xs).elements = xs := by
  obtain ⟨hw0, he0⟩ := clear_spec hw
  have hs0 : v.clear.size = 0 := by rw [← hw0.length_elements, he0, List.length_nil]
  obtain ⟨hw1, hs1, -, hc1⟩ := reserve_spec hw0 xs.length
  exact write_start_spec hw1 (hs1.trans hs0) rfl hc1

theorem assign_spec (hw : v.WF) (n : ℕ) (val : T) :
    (v.assign n val).WF ∧ (v.assign n val).elements = List.replicate n val := by
  obtain ⟨hw0, he0⟩ := clear_spec hw
  have hs0 : v.clear.size = 0 := by rw [← hw0.length_elements, he0, List.length_nil]
  obtain ⟨hw1, hs1, -, hc1⟩ := reserve_spec hw0 n
  exact fill_start_spec hw1 (hs1.trans hs0) hc1 val

theorem copy_spec {other : prevector N T} (hw : other.WF) : (copy other).WF ∧ (copy other).elements = other.elements := by
  obtain ⟨hw1, hs1, -, hc1⟩ := change_capacity_spec (empty_wf (N := N) (T := T)) (c := other.size) (by simp)
  rw [size_empty] at hs1
  exact write_start_spec hw1 hs1 hw.length_elements (hc1 ▸ Nat.le_max_right _ _)

end Members

end prevector

end XPChain
