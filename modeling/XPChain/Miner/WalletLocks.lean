import XPChain.Lib.Lockset
import Mathlib.Data.Fintype.Basic

/-!
# The stake minter's wallet locks

The minting thread (`ThreadStakeMinter`, `BitcoinMinter`) reads wallet state
that other threads change: the reward distribution, which the GUI sets and
clears through `SetRewardDistributionPcts` and `DelRewardDistributionPcts`,
and `mapWallet`, from which `removeprunedfunds` erases a transaction.  Each
function here is its path through its locks (`LOCK`, `LOCK2`) and its
accesses to those two members, as a `Lockset` path; the minter runs one pass
of its loop over a coin that passes the kernel check, beside a GUI thread and
an RPC thread.

The accesses to `mapWallet` on these paths keep the lockset discipline with
`cs_main`, which `CreateNewBlock` holds throughout, so they never race.  The
reward distribution does not: `GetRewardPct` iterates it inside
`CreateNewBlock`, which holds `cs_main` and `mempool.cs` but not
`cs_wallet`, while the setter writes it holding only `cs_wallet`.

## Main definitions

* `bitcoinMinter` — the minter's path, through `AvailableCoins`,
  `CreateCoinStake` and `CreateNewBlock`.
* `setRewardDistributionPcts`, `delRewardDistributionPcts`,
  `removeprunedfunds` — the writers.
* `threads` — the minter beside a GUI writer and `removeprunedfunds`.

## Main statements

* `not_race_mapWallet` — no interleaving races on `mapWallet`.
* `getRewardPct_races_setRewardDistributionPcts` — an interleaving in which
  `GetRewardPct` reads the distribution while the setter writes it.
-/

set_option autoImplicit false

namespace XPChain.WalletLocks

open Lockset Lockset.Op Interleaving

/-- The mutexes on these paths. -/
inductive Lock
  | cs_main
  | mempool_cs
  | cs_wallet
  deriving DecidableEq

/-- The members of `CWallet` that the minter reads and other threads write. -/
inductive Field
  | vRewardDistributionPcts
  | mapWallet
  deriving DecidableEq

/-- The lock operations and accesses of a function, in program order. -/
abbrev Path := List (Op Lock Field)

/-- `LOCK(cs)` around a scope. -/
def lock (cs : Lock) (body : Path) : Path := acquire cs :: body ++ [release cs]

/-- `LOCK2(cs1, cs2)` around a scope: the guards are destroyed in reverse. -/
def lock2 (cs1 cs2 : Lock) (body : Path) : Path :=
  acquire cs1 :: acquire cs2 :: body ++ [release cs2, release cs1]

/-- `wallet->AvailableCoins(vCoins)` in `BitcoinMinter`'s
`LOCK2(cs_main, wallet->cs_wallet)` scope. -/
def availableCoins : Path := lock2 .cs_main .cs_wallet [read .mapWallet]

/-- `CreateCoinStake`: `CreateTransaction` under `LOCK2(cs_main, cs_wallet)`,
whose coin control selects the coin from `mapWallet`. -/
def createCoinStake : Path := lock2 .cs_main .cs_wallet [read .mapWallet]

/-- `GetRewardPct` iterates `wallet.vRewardDistributionPcts` and takes no lock. -/
def getRewardPct : Path := [read .vRewardDistributionPcts]

/-- The proof-of-stake branch of `CreateNewBlock`, under
`LOCK2(cs_main, mempool.cs)`: the coin's transaction is found in `mapWallet`
under `LOCK(pwallet->cs_wallet)`, `pprevTx` is read after that scope, and then
`GetRewardPct` runs. -/
def createNewBlock : Path :=
  lock2 .cs_main .mempool_cs (lock .cs_wallet [read .mapWallet] ++ read .mapWallet :: getRewardPct)

/-- One pass of `BitcoinMinter`'s loop, for a coin that passes the kernel
check. -/
def bitcoinMinter : Path := availableCoins ++ createCoinStake ++ createNewBlock

def setRewardDistributionPcts : Path := lock .cs_wallet [write .vRewardDistributionPcts]

def delRewardDistributionPcts : Path := lock .cs_wallet [write .vRewardDistributionPcts]

/-- `removeprunedfunds`: `ZapSelectTx` erases the transaction from `mapWallet`
under `LOCK2(cs_main, pwallet->cs_wallet)`. -/
def removeprunedfunds : Path := lock2 .cs_main .cs_wallet [write .mapWallet]

/-- The threads: the minter, the GUI and an RPC handler. -/
inductive Thread
  | minter
  | gui
  | rpc
  deriving DecidableEq

instance : Fintype Thread where
  elems := {.minter, .gui, .rpc}
  complete t := by cases t <;> simp

/-- The minter beside a GUI thread on the path `gui` and `removeprunedfunds`. -/
def threads (gui : Path) : Thread → Path
  | .minter => bitcoinMinter
  | .gui => gui
  | .rpc => removeprunedfunds

/-- Every access to `mapWallet` on these paths holds `cs_main`. -/
theorem guarded_mapWallet {gui : Path}
    (hgui : gui = setRewardDistributionPcts ∨ gui = delRewardDistributionPcts) (t : Thread) :
    Guarded (threads gui t) .mapWallet .cs_main := by
  cases t with
  | minter => show Guarded bitcoinMinter .mapWallet .cs_main; decide
  | gui => rcases hgui with rfl | rfl <;> decide
  | rpc => show Guarded removeprunedfunds .mapWallet .cs_main; decide

/-- `GetRewardPct` breaks the discipline: the minter reads the reward
distribution without `cs_wallet`, and once it has reached that read and the
GUI has entered `SetRewardDistributionPcts`, the read and the write are both
next, with only the GUI holding `cs_wallet`. -/
theorem getRewardPct_races_setRewardDistributionPcts :
    ¬Guarded bitcoinMinter .vRewardDistributionPcts .cs_wallet ∧
      ∃ s, Reachable init (step (threads setRewardDistributionPcts)) s ∧
        Race (threads setRewardDistributionPcts) s .vRewardDistributionPcts ∧
        Holds (threads setRewardDistributionPcts) s .gui .cs_wallet ∧
        ¬Holds (threads setRewardDistributionPcts) s .minter .cs_wallet := by
  have hs := Reachable.of_runFrom (@Reachable.init _ _ _ init (step (threads setRewardDistributionPcts)))
    (List.replicate 16 Thread.minter ++ [Thread.gui]) rfl
  exact ⟨by decide, _, hs, ⟨.minter, .gui, by decide, _, _, rfl, rfl, rfl, rfl, rfl⟩, by decide, by decide⟩

end XPChain.WalletLocks
