import Mathlib.Data.List.Basic

/-!
# Buffers of cells

A buffer of `n` cells is a list of length `n`.  The C library moves memory a
block at a time: `memcpy` and `memmove` copy a run of cells over another run,
and `realloc` moves a buffer into one of another size.  `Cells.write b p xs`
writes the block `xs` over the cells of `b` from `p` on, and the other three
are instances of it.

A block written within bounds keeps the length of the buffer
(`length_write`), leaves the cells before `p` alone (`take_write_of_le`) and
is followed by the old cells past its end (`drop_write`).  `memmove` reads its
whole source block before it writes, which is what `Cells.move` does, so an
overlapping move needs no separate treatment.

## Main definitions

* `Cells.write` — a block written into a buffer.
* `Cells.move` (`memmove` within one buffer), `Cells.copy` (`memcpy` between
  two), `Cells.realloc`.
-/

set_option autoImplicit false

namespace Cells

variable {α : Type*}

/-- The cells of `b` with the block `xs` written over them from `p` on. -/
def write (b : List α) (p : ℕ) (xs : List α) : List α :=
  b.take p ++ xs ++ b.drop (p + xs.length)

/-- `memmove(b + dst, b + src, n)`: the `n` cells from `src` on, all read
before any is written, written from `dst` on. -/
def move (b : List α) (dst src n : ℕ) : List α :=
  write b dst ((b.drop src).take n)

/-- `memcpy(dst, src, n)`: the first `n` cells of `src` over those of `dst`. -/
def copy (dst src : List α) (n : ℕ) : List α :=
  write dst 0 (src.take n)

/-- `realloc(b, n)`: a buffer of `n` cells that holds the old cells up to
the smaller of the two sizes; the cells past the old end hold `d`. -/
def realloc (b : List α) (n : ℕ) (d : α) : List α :=
  b.take n ++ List.replicate (n - b.length) d

section Write

variable (b : List α) {p : ℕ} (xs : List α)

theorem length_write (h : p + xs.length ≤ b.length) : (write b p xs).length = b.length := by
  simp only [write, List.length_append, List.length_take, List.length_drop]
  omega

theorem take_write_of_le (hp : p ≤ b.length) {n : ℕ} (hn : n ≤ p) : (write b p xs).take n = b.take n := by
  have hlen : n ≤ (b.take p).length := by
    rw [List.length_take]
    omega
  rw [write, List.append_assoc, List.take_append_of_le_length hlen, List.take_take, Nat.min_eq_left hn]

theorem drop_write (hp : p ≤ b.length) : (write b p xs).drop p = xs ++ b.drop (p + xs.length) := by
  have hlen : (b.take p).length = p := List.length_take_of_le hp
  rw [write, List.append_assoc, List.drop_left' hlen]

/-- Reading past the block: the block, then the old cells after it. -/
theorem take_write_add (hp : p ≤ b.length) (m : ℕ) :
    (write b p xs).take (p + xs.length + m) = b.take p ++ xs ++ (b.drop (p + xs.length)).take m := by
  have hlen : (b.take p ++ xs).length = p + xs.length := by
    rw [List.length_append, List.length_take_of_le hp]
  rw [write, List.take_append, hlen, Nat.add_sub_cancel_left,
    List.take_of_length_le (by omega : (b.take p ++ xs).length ≤ p + xs.length + m)]

theorem take_write (hp : p ≤ b.length) : (write b p xs).take (p + xs.length) = b.take p ++ xs := by
  simpa using take_write_add b xs hp 0

@[simp] theorem write_nil (p : ℕ) : write b p ([] : List α) = b := by
  simp [write]

/-- Writing one cell past the block extends the block. -/
theorem set_write (h : p + xs.length < b.length) (y : α) :
    (write b p xs).set (p + xs.length) y = write b p (xs ++ [y]) := by
  have hlen : (b.take p ++ xs).length = p + xs.length := by
    rw [List.length_append, List.length_take_of_le (by omega)]
  rw [write, List.set_append_right _ _ (Nat.le_of_eq hlen), hlen, Nat.sub_self,
    List.drop_eq_getElem_cons h, List.set_cons_zero, write, List.length_append, List.length_singleton,
    ← Nat.add_assoc, List.append_assoc, List.append_assoc, List.append_assoc, List.singleton_append]

theorem write_singleton (h : p < b.length) (y : α) : write b p [y] = b.set p y := by
  have hw := set_write b [] (p := p) (by simpa using h) y
  rw [write_nil, List.length_nil, Nat.add_zero, List.nil_append] at hw
  exact hw.symm

end Write

section Move

variable (b : List α)

theorem length_move {dst src n : ℕ} (h : dst + n ≤ b.length) :
    (move b dst src n).length = b.length := by
  apply length_write
  rw [List.length_take, List.length_drop]
  omega

theorem length_take_drop_of_le {src n : ℕ} (hs : src + n ≤ b.length) : ((b.drop src).take n).length = n := by
  rw [List.length_take, List.length_drop]
  omega

/-- `memmove` down over `[dst, dst + n)`, read from `[src, src + n)`. -/
theorem take_move {dst src n : ℕ} (h : dst ≤ b.length) (hs : src + n ≤ b.length) :
    (move b dst src n).take (dst + n) = b.take dst ++ (b.drop src).take n := by
  have htake := take_write b ((b.drop src).take n) h
  rwa [length_take_drop_of_le b hs] at htake

/-- Opening a gap of `xs.length` cells at `p` among the first `s` cells, and
writing `xs` into it. -/
theorem take_write_move {p s : ℕ} (xs : List α) (hp : p ≤ s) (hs : s + xs.length ≤ b.length) :
    (write (move b (p + xs.length) p (s - p)) p xs).take (s + xs.length) =
      b.take p ++ xs ++ (b.drop p).take (s - p) := by
  have hlen : (move b (p + xs.length) p (s - p)).length = b.length := length_move b (by omega)
  have hmid := take_write_add (move b (p + xs.length) p (s - p)) xs (p := p) (by omega) (s - p)
  have hbefore : (move b (p + xs.length) p (s - p)).take p = b.take p :=
    take_write_of_le b _ (by omega) (by omega)
  have hafter : ((move b (p + xs.length) p (s - p)).drop (p + xs.length)).take (s - p) = (b.drop p).take (s - p) := by
    rw [move, drop_write b _ (by omega), List.take_left' (length_take_drop_of_le b (by omega))]
  rw [show s + xs.length = p + xs.length + (s - p) by omega, hmid, hbefore, hafter]

/-- After opening a gap of `k` cells at `p` among the first `s` cells, a
cell past the gap holds the cell `k` before it, and the others up to the gap
are unchanged. -/
theorem getElem?_move {p k s i : ℕ} (hp : p ≤ s) (hs : s + k ≤ b.length) (hi : i < s + k) :
    (move b (p + k) p (s - p))[i]? = b[if p + k ≤ i then i - k else i]? := by
  split_ifs with hpi
  · have hshift : (move b (p + k) p (s - p))[i]? = ((move b (p + k) p (s - p)).drop (p + k))[i - (p + k)]? := by
      rw [List.getElem?_drop, Nat.add_sub_cancel' hpi]
    rw [hshift, move, drop_write b _ (by omega),
      List.getElem?_append_left (by rw [length_take_drop_of_le b (by omega)]; omega),
      List.getElem?_take_of_lt (by omega), List.getElem?_drop, show p + (i - (p + k)) = i - k by omega]
  · rw [← List.getElem?_take_of_lt (Nat.lt_of_not_le hpi), move, take_write_of_le b _ (by omega) (Nat.le_refl _),
      List.getElem?_take_of_lt (Nat.lt_of_not_le hpi)]

end Move

theorem length_copy (dst src : List α) {n : ℕ} (h : n ≤ dst.length) : (copy dst src n).length = dst.length := by
  apply length_write
  rw [List.length_take]
  omega

theorem take_copy (dst src : List α) {n : ℕ} (hs : n ≤ src.length) :
    (copy dst src n).take n = src.take n := by
  have htake := take_write dst (src.take n) (p := 0) (Nat.zero_le _)
  rwa [List.length_take_of_le hs, Nat.zero_add, List.take_zero, List.nil_append] at htake

theorem length_realloc (b : List α) (n : ℕ) (d : α) : (realloc b n d).length = n := by
  simp only [realloc, List.length_append, List.length_take, List.length_replicate]
  omega

theorem take_realloc (b : List α) {m n : ℕ} (d : α) (hm : m ≤ n) (hb : m ≤ b.length) :
    (realloc b n d).take m = b.take m := by
  rw [realloc, List.take_append_of_le_length (by rw [List.length_take]; omega), List.take_take,
    Nat.min_eq_left hm]

end Cells
