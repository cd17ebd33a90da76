import Mathlib.Data.Int.Notation
import Mathlib.Tactic.SplitIfs
import Mathlib.Tactic.ByContra

/-!
# Locking the wallet, and unlocking it for minting only

An encrypted wallet holds its master key in memory while it is unlocked
(`CCryptoKeyStore`).  The Qt menu item "Unlock Wallet for Minting Only"
(`WalletView::decryptForMinting`) unlocks the wallet and sets the Qt global
`fWalletUnlockMintOnly`; its status tip promises that sending coins will
still require the password.  A Qt operation that needs the keys goes through
`WalletModel::requestUnlock`, which relocks a wallet unlocked for minting and
asks for the passphrase.  An RPC call, from `-server` or from the Qt debug
console, goes through `EnsureWalletIsUnlocked`, which asks only whether the
key store is locked.

The passphrase dialog is modelled by its outcome (`PassphraseEntry`), and an
RPC passphrase by whether it is the wallet's.  The timed relock that
`walletpassphrase` schedules is the `walletlock` event.

## Main definitions

* `WalletLockState`, `isLocked`, `lock`, `unlock`, `getEncryptionStatus`.
* `decryptForMinting`, `requestUnlock`, `qtSign` — the Qt side.
* `ensureWalletIsUnlocked`, `walletpassphrase`, `walletlock` — the RPC side.
* `LockEvent`, `LockEvent.step`, `runLockEvents`.

## Main statements

* `fUseCrypto_runLockEvents`, `mintOnlyInv_runLockEvents` — a run keeps the
  wallet encrypted, and the mint-only flag is only ever set on it.
* `qtSign_eq_true_iff` — in mint-only mode every Qt signing operation asks for
  the passphrase and signs only with the right one.
* `qtSign_after_runLockEvents` — so it does after any run of events.
* `ensureWalletIsUnlocked_decryptForMinting` — after unlocking for minting,
  every RPC signing operation passes its check.
-/

set_option autoImplicit false

namespace XPChain

/-- The outcome of the passphrase dialog: the wallet's passphrase, a wrong
one, or Cancel. -/
inductive PassphraseEntry
  | correct
  | wrong
  | cancel
  deriving DecidableEq, Repr

/-- The lock state: whether the key store is encrypted (`fUseCrypto`),
whether its master key is absent (`vMasterKey.empty()`), and the Qt global
`fWalletUnlockMintOnly`. -/
structure WalletLockState where
  fUseCrypto : Bool
  fLocked : Bool
  fWalletUnlockMintOnly : Bool
  deriving DecidableEq, Repr

/-- `WalletModel::EncryptionStatus`. -/
inductive EncryptionStatus
  | Unencrypted
  | Locked
  | Unlocked
  deriving DecidableEq, Repr

/-! ## The key store -/

/-- `CCryptoKeyStore::IsLocked`. -/
def isLocked (s : WalletLockState) : Bool := s.fUseCrypto && s.fLocked

/-- `WalletModel::getEncryptionStatus`. -/
def getEncryptionStatus (s : WalletLockState) : EncryptionStatus :=
  if !s.fUseCrypto then .Unencrypted else if s.fLocked then .Locked else .Unlocked

/-- `CCryptoKeyStore::Lock` of an encrypted key store: the master key is
dropped.  (`SetCrypted` fails on an unencrypted store holding keys.) -/
def lock (s : WalletLockState) : Bool × WalletLockState :=
  if s.fUseCrypto then (true, { s with fLocked := true }) else (false, s)

/-- `CWallet::Unlock(strWalletPassphrase)`: the master key is decrypted with
the right passphrase, on an encrypted store. -/
def unlock (s : WalletLockState) (correct : Bool) : Bool × WalletLockState :=
  if s.fUseCrypto && correct then (true, { s with fLocked := false }) else (false, s)

/-! ## The Qt side -/

/-- `AskPassphraseDialog` in mode `Unlock`, run to its end: the passphrase
entered is passed to `setWalletLocked(false, passphrase)`. -/
def askPassphraseUnlock (s : WalletLockState) : PassphraseEntry → WalletLockState
  | .cancel => s
  | .wrong => (unlock s false).2
  | .correct => (unlock s true).2

/-- `WalletView::decryptForMinting(status)`: checking the menu item unlocks a
locked wallet and sets the flag, which is cleared again if the unlock fails;
unchecking it locks a wallet unlocked for minting. -/
def decryptForMinting (s : WalletLockState) (status : Bool) (entry : PassphraseEntry) :
    WalletLockState :=
  if status then
    if getEncryptionStatus s ≠ .Locked then s
    else
      let s := askPassphraseUnlock { s with fWalletUnlockMintOnly := true } entry
      if getEncryptionStatus s ≠ .Unlocked then { s with fWalletUnlockMintOnly := false } else s
  else
    if getEncryptionStatus s ≠ .Unlocked then s
    else if !s.fWalletUnlockMintOnly then s
    else { (lock s).2 with fWalletUnlockMintOnly := false }

/-- `WalletModel::UnlockContext`: whether the wallet could be unlocked, and
whether to lock it again when the context is released. -/
structure UnlockContext where
  valid : Bool
  relock : Bool
  deriving DecidableEq, Repr

/-- `WalletModel::requestUnlock`: a wallet unlocked for minting is locked
first; a locked wallet raises `requireUnlock`, whose handler
`WalletView::unlockWallet` runs the passphrase dialog. -/
def requestUnlock (s : WalletLockState) (entry : PassphraseEntry) :
    UnlockContext × WalletLockState :=
  let wasLocked := getEncryptionStatus s = .Locked
  let (wasLocked, s) :=
    if !wasLocked && s.fWalletUnlockMintOnly then
      let s := (lock s).2
      (decide (getEncryptionStatus s = .Locked), s)
    else (wasLocked, s)
  let s := if wasLocked && getEncryptionStatus s = .Locked then askPassphraseUnlock s entry else s
  (⟨getEncryptionStatus s ≠ .Locked, wasLocked && !s.fWalletUnlockMintOnly⟩, s)

/-- A Qt operation that needs the keys (`SendCoinsDialog`'s send,
`SignVerifyMessageDialog`'s sign): it signs when the unlock context is
valid, and the context's release relocks the wallet where it says so. -/
def qtSign (s : WalletLockState) (entry : PassphraseEntry) : Bool × WalletLockState :=
  let (ctx, s) := requestUnlock s entry
  (ctx.valid, if ctx.valid && ctx.relock then (lock s).2 else s)

/-! ## The RPC side -/

/-- `EnsureWalletIsUnlocked`, called by `sendtoaddress`, `sendmany`,
`signrawtransactionwithwallet`, `signmessage`, `dumpprivkey` and every other
RPC that needs a private key. -/
def ensureWalletIsUnlocked (s : WalletLockState) : Except String Unit :=
  if isLocked s then .error "Error: Please enter the wallet passphrase with walletpassphrase first."
  else .ok ()

/-- The RPC `walletpassphrase <passphrase> <timeout>`, for a non-empty
passphrase. -/
def walletpassphrase (s : WalletLockState) (correct : Bool) (nSleepTime : ℤ) :
    Except String WalletLockState :=
  if !s.fUseCrypto then
    .error "Error: running with an unencrypted wallet, but walletpassphrase was called."
  else if nSleepTime < 0 then .error "Timeout cannot be negative."
  else
    match unlock s correct with
    | (false, _) => .error "Error: The wallet passphrase entered was incorrect."
    | (true, s) => .ok s

/-- The RPC `walletlock`, and the relock `walletpassphrase` schedules. -/
def walletlock (s : WalletLockState) : Except String WalletLockState :=
  if !s.fUseCrypto then
    .error "Error: running with an unencrypted wallet, but walletlock was called."
  else .ok (lock s).2

/-! ## Runs -/

/-- What the user can do to the lock: the Qt menu item, a Qt operation that
signs, the RPC passphrase calls, and an RPC call that signs. -/
inductive LockEvent
  | decryptForMinting (status : Bool) (entry : PassphraseEntry)
  | qtSign (entry : PassphraseEntry)
  | walletpassphrase (correct : Bool) (nSleepTime : ℤ)
  | walletlock
  | rpcSign

/-- One event: whether it signed with a wallet key, and the state after it.
An RPC call that throws leaves the state as it was. -/
def LockEvent.step (s : WalletLockState) : LockEvent → Bool × WalletLockState
  | .decryptForMinting status entry => (false, XPChain.decryptForMinting s status entry)
  | .qtSign entry => XPChain.qtSign s entry
  | .walletpassphrase correct nSleepTime =>
    (false, (XPChain.walletpassphrase s correct nSleepTime).toOption.getD s)
  | .walletlock => (false, (XPChain.walletlock s).toOption.getD s)
  | .rpcSign => ((ensureWalletIsUnlocked s).toBool, s)

/-- The state after a sequence of events. -/
def runLockEvents (s : WalletLockState) (events : List LockEvent) : WalletLockState :=
  events.foldl (fun s ev => (ev.step s).2) s

/-! ## What a run keeps -/

section Lemmas

variable (s : WalletLockState)

@[simp] theorem fUseCrypto_lock : (lock s).2.fUseCrypto = s.fUseCrypto := by
  unfold lock; split_ifs <;> rfl

@[simp] theorem fWalletUnlockMintOnly_lock :
    (lock s).2.fWalletUnlockMintOnly = s.fWalletUnlockMintOnly := by
  unfold lock; split_ifs <;> rfl

@[simp] theorem fUseCrypto_unlock (correct : Bool) :
    (unlock s correct).2.fUseCrypto = s.fUseCrypto := by
  unfold unlock; split_ifs <;> rfl

@[simp] theorem fUseCrypto_askPassphraseUnlock (entry : PassphraseEntry) :
    (askPassphraseUnlock s entry).fUseCrypto = s.fUseCrypto := by
  cases entry <;> simp [askPassphraseUnlock]

theorem fUseCrypto_decryptForMinting (status : Bool) (entry : PassphraseEntry) :
    (decryptForMinting s status entry).fUseCrypto = s.fUseCrypto := by
  simp only [decryptForMinting]
  split_ifs <;> simp

theorem fUseCrypto_qtSign (entry : PassphraseEntry) :
    (qtSign s entry).2.fUseCrypto = s.fUseCrypto := by
  simp only [qtSign, requestUnlock]
  split_ifs <;> simp

/-- What `walletpassphrase` leaves: the unlocked store, or the store as it
was when the call throws. -/
@[simp] theorem getD_toOption_walletpassphrase (correct : Bool) (nSleepTime : ℤ) :
    (walletpassphrase s correct nSleepTime).toOption.getD s =
      if s.fUseCrypto = true ∧ 0 ≤ nSleepTime then (unlock s correct).2 else s := by
  unfold walletpassphrase unlock
  by_cases hc : s.fUseCrypto = true
  · by_cases hn : nSleepTime < 0
    · simp [hc, hn, Except.toOption, Int.not_le.mpr hn]
    · cases correct <;> simp [hc, hn, Except.toOption]
  · simp [hc, Except.toOption]

/-- What `walletlock` leaves: the locked store. -/
@[simp] theorem getD_toOption_walletlock :
    (walletlock s).toOption.getD s = (lock s).2 := by
  unfold walletlock lock
  by_cases hc : s.fUseCrypto = true <;> simp [hc, Except.toOption]

end Lemmas

/-- No event decrypts the wallet for good. -/
theorem fUseCrypto_step (s : WalletLockState) :
    ∀ ev : LockEvent, (ev.step s).2.fUseCrypto = s.fUseCrypto
  | .decryptForMinting status entry => fUseCrypto_decryptForMinting s status entry
  | .qtSign entry => fUseCrypto_qtSign s entry
  | .walletpassphrase correct nSleepTime => by
    simp only [LockEvent.step, getD_toOption_walletpassphrase]
    split_ifs <;> simp
  | .walletlock => by simp [LockEvent.step]
  | .rpcSign => rfl

theorem fUseCrypto_runLockEvents (s : WalletLockState) (events : List LockEvent) :
    (runLockEvents s events).fUseCrypto = s.fUseCrypto := by
  induction events generalizing s with
  | nil => rfl
  | cons ev events ih =>
    simp only [runLockEvents, List.foldl_cons] at ih ⊢
    rw [ih, fUseCrypto_step]

/-- The mint-only flag is only set on an encrypted wallet. -/
def MintOnlyInv (s : WalletLockState) : Prop :=
  s.fWalletUnlockMintOnly = true → s.fUseCrypto = true

theorem mintOnlyInv_step {s : WalletLockState} (h : MintOnlyInv s) :
    ∀ ev : LockEvent, MintOnlyInv (ev.step s).2 := by
  intro ev hflag
  rw [fUseCrypto_step]
  by_contra hc
  simp only [Bool.not_eq_true] at hc
  -- with the store unencrypted, no event can set the flag
  have hstatus : getEncryptionStatus s = .Unencrypted := by simp [getEncryptionStatus, hc]
  have hkeep : (ev.step s).2.fWalletUnlockMintOnly = s.fWalletUnlockMintOnly := by
    cases ev with
    | decryptForMinting status entry =>
      cases status <;> simp [LockEvent.step, decryptForMinting, hstatus]
    | qtSign entry => simp [LockEvent.step, qtSign, requestUnlock, hstatus, lock, hc]
    | walletpassphrase correct nSleepTime => simp [LockEvent.step, hc]
    | walletlock => simp [LockEvent.step]
    | rpcSign => rfl
  rw [hkeep] at hflag
  exact absurd (h hflag) (by simp [hc])

theorem mintOnlyInv_runLockEvents {s : WalletLockState} (h : MintOnlyInv s)
    (events : List LockEvent) : MintOnlyInv (runLockEvents s events) := by
  induction events generalizing s with
  | nil => exact h
  | cons ev events ih => exact ih (mintOnlyInv_step h ev)

/-! ## The Qt side asks again; the RPC side does not -/

/-- On an encrypted wallet in mint-only mode, `requestUnlock` locks the
wallet, always asks for the passphrase, and never relocks afterwards. -/
theorem requestUnlock_of_mintOnly {s : WalletLockState} (hc : s.fUseCrypto = true)
    (hf : s.fWalletUnlockMintOnly = true) (entry : PassphraseEntry) :
    requestUnlock s entry =
      (⟨decide (entry = .correct), false⟩, askPassphraseUnlock ⟨true, true, true⟩ entry) := by
  obtain ⟨c, l, f⟩ := s
  simp only at hc hf
  subst hc hf
  cases l <;> cases entry <;> rfl

/-- In mint-only mode a Qt operation signs exactly when the passphrase is
entered again. -/
theorem qtSign_eq_true_iff {s : WalletLockState} (hinv : MintOnlyInv s)
    (hf : s.fWalletUnlockMintOnly = true) (entry : PassphraseEntry) :
    (qtSign s entry).1 = true ↔ entry = .correct := by
  simp [qtSign, requestUnlock_of_mintOnly (hinv hf) hf]

/-- Whatever the user does, the wallet stays encrypted, and whenever the run
leaves it in mint-only mode a Qt operation signs exactly when the passphrase
is entered again. -/
theorem qtSign_after_runLockEvents {s : WalletLockState} (h : MintOnlyInv s) (events : List LockEvent) :
    (runLockEvents s events).fUseCrypto = s.fUseCrypto ∧
      ((runLockEvents s events).fWalletUnlockMintOnly = true →
        ∀ entry, (qtSign (runLockEvents s events) entry).1 = true ↔ entry = .correct) :=
  ⟨fUseCrypto_runLockEvents s events,
    fun hf entry => qtSign_eq_true_iff (mintOnlyInv_runLockEvents h events) hf entry⟩

/-- A locked wallet unlocked for minting, then an RPC call that signs. -/
theorem qtSign_after_runLockEvents_mintOnly :
    MintOnlyInv ⟨true, true, false⟩ ∧
      (runLockEvents ⟨true, true, false⟩ [.decryptForMinting true .correct, .rpcSign]).fUseCrypto = true ∧
      ((runLockEvents ⟨true, true, false⟩ [.decryptForMinting true .correct, .rpcSign]).fWalletUnlockMintOnly =
          true →
        ∀ entry, (qtSign (runLockEvents ⟨true, true, false⟩ [.decryptForMinting true .correct, .rpcSign])
          entry).1 = true ↔ entry = .correct) :=
  have h : MintOnlyInv ⟨true, true, false⟩ := fun _ => rfl
  ⟨h, qtSign_after_runLockEvents h [.decryptForMinting true .correct, .rpcSign]⟩

/-- "Unlock Wallet for Minting Only" does not restrict the RPC: from any
locked encrypted wallet, unlocking it for minting leaves the key store
unlocked, so `EnsureWalletIsUnlocked` passes and every RPC that signs or
reveals a key (`sendtoaddress`, `dumpprivkey`, ...) goes through with no
passphrase, while a Qt operation still asks for it. -/
theorem ensureWalletIsUnlocked_decryptForMinting (s : WalletLockState)
    (hs : getEncryptionStatus s = .Locked) :
    let s' := decryptForMinting s true .correct
    s'.fWalletUnlockMintOnly = true ∧ ensureWalletIsUnlocked s' = .ok () ∧
      LockEvent.rpcSign.step s' = (true, s') ∧
      ∀ entry, (qtSign s' entry).1 = true ↔ entry = .correct := by
  intro s'
  obtain ⟨c, l, f⟩ := s
  have hcl : c = true ∧ l = true := by
    cases c <;> cases l <;> simp_all [getEncryptionStatus]
  obtain ⟨rfl, rfl⟩ := hcl
  -- the passphrase dialog unlocks the store and the flag stays set
  have hs' : s' = ⟨true, false, true⟩ := rfl
  refine ⟨by rw [hs'], by rw [hs']; rfl, by rw [hs']; rfl, fun entry => ?_⟩
  rw [hs']
  exact qtSign_eq_true_iff (fun _ => rfl) rfl entry

theorem ensureWalletIsUnlocked_decryptForMinting_locked :
    getEncryptionStatus ⟨true, true, false⟩ = .Locked ∧
      (decryptForMinting ⟨true, true, false⟩ true .correct).fWalletUnlockMintOnly = true ∧
      ensureWalletIsUnlocked (decryptForMinting ⟨true, true, false⟩ true .correct) = .ok () ∧
      LockEvent.rpcSign.step (decryptForMinting ⟨true, true, false⟩ true .correct) =
        (true, decryptForMinting ⟨true, true, false⟩ true .correct) ∧
      ∀ entry, (qtSign (decryptForMinting ⟨true, true, false⟩ true .correct) entry).1 = true ↔
        entry = .correct :=
  ⟨rfl, ensureWalletIsUnlocked_decryptForMinting ⟨true, true, false⟩ rfl⟩

end XPChain
