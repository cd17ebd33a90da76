import Mathlib.Data.List.Basic

/-!
# Readers over token streams

A reader takes a value off the front of a stream and returns it with the rest
of the stream, or fails.  Container formats read a count and then that many
elements; this module gives that loop and the rules every format built on it
needs: what an encoder writes reads back (`readMany_flatMap`).

## Main definitions

* `readMany read n` — `n` reads of `read` in sequence.
* `RoundTrip read enc P` — `read` undoes `enc` on the values satisfying `P`,
  whatever follows in the stream.

## Main statements

* `readMany_flatMap` — the encodings of a list read back as the list.
-/

set_option autoImplicit false

namespace Reader

variable {σ α : Type}

/-- `n` reads of `read` in sequence: the values in order and the rest of the
stream, or `none` as soon as one read fails. -/
def readMany (read : List σ → Option (α × List σ)) : ℕ → List σ → Option (List α × List σ)
  | 0, s => some ([], s)
  | n + 1, s => do
    let (a, s) ← read s
    let (as, s) ← readMany read n s
    pure (a :: as, s)

@[simp] theorem readMany_zero (read : List σ → Option (α × List σ)) (s : List σ) :
    readMany read 0 s = some ([], s) := rfl

theorem readMany_succ (read : List σ → Option (α × List σ)) (n : ℕ) (s : List σ) :
    readMany read (n + 1) s =
      (read s).bind fun r => (readMany read n r.2).map fun r' => (r.1 :: r'.1, r'.2) := by
  simp only [readMany, Option.bind_eq_bind, Option.pure_def, Option.map_eq_bind]
  rfl

/-- `read` undoes the encoder `enc` on every value satisfying `P`. -/
def RoundTrip (read : List σ → Option (α × List σ)) (enc : α → List σ) (P : α → Prop) : Prop :=
  ∀ a, P a → ∀ s, read (enc a ++ s) = some (a, s)

/-- The encodings of a list, laid end to end, read back as the list. -/
theorem readMany_flatMap {read : List σ → Option (α × List σ)} {enc : α → List σ}
    {P : α → Prop} (hrt : RoundTrip read enc P) :
    ∀ (as : List α), (∀ a ∈ as, P a) → ∀ s, readMany read as.length (as.flatMap enc ++ s) =
      some (as, s)
  | [], _, s => by simp
  | a :: as, hP, s => by
    have ha : read (enc a ++ (as.flatMap enc ++ s)) = some (a, as.flatMap enc ++ s) :=
      hrt a (hP a List.mem_cons_self) _
    have has := readMany_flatMap hrt as (fun b hb => hP b (List.mem_cons_of_mem a hb)) s
    rw [List.length_cons, readMany_succ, List.flatMap_cons, List.append_assoc, ha]
    simp [has]

end Reader
