import Mathlib.Logic.Function.Iterate
import Mathlib.Data.UInt

/-!
# Folds whose step is linear over exclusive or

A checksum loop that reads a symbol `v` into its state `c` as `L c ^^^ ι v`,
with `L` linear over exclusive or, computes a linear code: the state after a
list of symbols is the start state moved once by `L` for each symbol, plus
what the symbols contribute on their own from zero (`foldl_linearStep`).  Two
facts follow that every such checksum rests on.  Zero symbols only move the
state (`foldl_replicate_zero`).  Symbols that bring zero to `L^[n] c ^^^ t`
bring `c` to `t` (`foldl_of_zero`), which is how a checksum is chosen to make
the state hit a target.

## Main definitions

* `XorFold.XorGroup` — exclusive or with unit `0`, each element its own inverse.
* `XorFold.XorLinear`, `XorFold.linearStep`.

## Main statements

* `foldl_linearStep`, `foldl_replicate_zero`, `foldl_of_zero`.
-/

set_option autoImplicit false

namespace XorFold

/-- Exclusive or on `α`: associative and commutative, with unit `0`, and
every element its own inverse. -/
class XorGroup (α : Type*) [XorOp α] [Zero α] : Prop where
  xor_assoc : ∀ a b c : α, a ^^^ b ^^^ c = a ^^^ (b ^^^ c)
  xor_comm : ∀ a b : α, a ^^^ b = b ^^^ a
  xor_self : ∀ a : α, a ^^^ a = 0
  xor_zero : ∀ a : α, a ^^^ 0 = a

instance : XorGroup UInt32 :=
  ⟨UInt32.xor_assoc, UInt32.xor_comm, fun _ => UInt32.xor_self, fun _ => UInt32.xor_zero⟩

variable {α β : Type*} [XorOp α]

/-- `L` distributes over exclusive or. -/
def XorLinear (L : α → α) : Prop := ∀ a b, L (a ^^^ b) = L a ^^^ L b

variable {L : α → α}

theorem XorLinear.iterate (hL : XorLinear L) : ∀ n, XorLinear L^[n]
  | 0 => fun _ _ => rfl
  | n + 1 => fun a b => by
    rw [Function.iterate_succ_apply, Function.iterate_succ_apply, Function.iterate_succ_apply, hL,
      hL.iterate n]

variable [Zero α] [XorGroup α]

theorem zero_xor (a : α) : 0 ^^^ a = a := by
  rw [XorGroup.xor_comm, XorGroup.xor_zero]

theorem xor_cancel_left (a b : α) : a ^^^ (a ^^^ b) = b := by
  rw [← XorGroup.xor_assoc, XorGroup.xor_self, zero_xor]

theorem XorLinear.map_zero (hL : XorLinear L) : L 0 = 0 := by
  have h := hL 0 0
  rwa [XorGroup.xor_zero, XorGroup.xor_self] at h

/-- The step of the loop: the state moved by `L`, and the symbol added. -/
def linearStep (L : α → α) (ι : β → α) (c : α) (v : β) : α := L c ^^^ ι v

variable {ι : β → α}

/-- The state after the symbols `vs`: the start state moved `vs.length`
times, plus the contribution of `vs` from zero. -/
theorem foldl_linearStep (hL : XorLinear L) (vs : List β) (c : α) :
    vs.foldl (linearStep L ι) c = L^[vs.length] c ^^^ vs.foldl (linearStep L ι) 0 := by
  induction vs generalizing c with
  | nil => rw [List.foldl_nil, List.foldl_nil, List.length_nil, Function.iterate_zero_apply, XorGroup.xor_zero]
  | cons v vs ih =>
    rw [List.foldl_cons, List.foldl_cons, ih, ih (linearStep L ι 0 v), linearStep, linearStep, hL.map_zero,
      zero_xor, hL.iterate vs.length (L c) (ι v), List.length_cons, Function.iterate_succ_apply,
      XorGroup.xor_assoc]

/-- Zero symbols only move the state. -/
theorem foldl_replicate_zero [Zero β] (hL : XorLinear L) (hι : ι 0 = 0) (k : ℕ) (c : α) :
    (List.replicate k (0 : β)).foldl (linearStep L ι) c = L^[k] c := by
  have hzero : ∀ m, (List.replicate m (0 : β)).foldl (linearStep L ι) 0 = 0 := by
    intro m
    induction m with
    | zero => rfl
    | succ m ih => rw [List.replicate_succ, List.foldl_cons, linearStep, hL.map_zero, hι, XorGroup.xor_zero, ih]
  rw [foldl_linearStep hL, hzero, List.length_replicate, XorGroup.xor_zero]

/-- Symbols that bring zero to `L^[n] c ^^^ t`, for `n` their number, bring
`c` to `t`. -/
theorem foldl_of_zero (hL : XorLinear L) {c t : α} {ds : List β}
    (h : ds.foldl (linearStep L ι) 0 = L^[ds.length] c ^^^ t) : ds.foldl (linearStep L ι) c = t := by
  rw [foldl_linearStep hL, h, xor_cancel_left]

end XorFold
