import XPChain.Script.Standard

/-!
# The coinstake destination rule

`IsDestinationSame` of `policy/stake.cpp`: the coinstake's output must pay
to the address of the coin it spends.  Both scripts must be standard with a
single solution, and `ExtractDestination` must give the same address, so a
pay-to-pubkey coin may be staked back to the pay-to-pubkey-hash of its key.

## Main definitions

* `isDestinationSame` — `IsDestinationSame`.

## Main statements

* `isDestinationSame_self` — a single-key, script-hash or version 0 witness
  script may be staked back to itself.
-/

set_option autoImplicit false

namespace XPChain

/-- `IsDestinationSame(a, b)`. -/
def isDestinationSame (crypto : Crypto) (a b : CScript) : Bool :=
  match solver a, solver b with
  | some (_, aSol), some (_, bSol) =>
    aSol.length == 1 && bSol.length == 1 &&
      match extractDestination crypto a, extractDestination crypto b with
      | some aDest, some bDest => aDest == bDest
      | _, _ => false
  | _, _ => false

open TxnOutType in
/-- A coin whose script is pay-to-pubkey, pay-to-pubkey-hash,
pay-to-script-hash or a version 0 witness program may be staked back to the
same script. -/
theorem isDestinationSame_self (crypto : Crypto) {s : CScript} {t : TxnOutType} {sol : List valtype}
    (hs : solver s = some (t, sol))
    (ht : t = TX_PUBKEY ∨ t = TX_PUBKEYHASH ∨ t = TX_SCRIPTHASH ∨ t = TX_WITNESS_V0_KEYHASH ∨
      t = TX_WITNESS_V0_SCRIPTHASH) :
    isDestinationSame crypto s s = true := by
  obtain ⟨x, rfl, hvalid⟩ := solver_single hs ht
  have hdest : ∃ d, extractDestination crypto s = some d := by
    unfold extractDestination
    rw [hs]
    rcases ht with rfl | rfl | rfl | rfl | rfl
    · simp [CPubKey.IsValid_ofBytes, hvalid rfl]
    all_goals exact ⟨_, rfl⟩
  obtain ⟨d, hd⟩ := hdest
  simp [isDestinationSame, hs, hd]

end XPChain
