import XPChain.Coins.View
import XPChain.Lib.LocalFold
import Mathlib.Data.List.AList

/-!
# The layered coins cache

`CCoinsViewCache` of `coins.cpp` keeps a map `cacheCoins` from outpoints to
entries over a base view, which is another cache or the database.  An entry
holds a coin, possibly spent, and two flags: `DIRTY`, the entry may differ
from the base, and `FRESH`, the base has no unspent coin there.  A cache that
misses asks its base and keeps what it gets (`FetchCoin`); `Flush` hands the
entries to the base's `BatchWrite` and empties the cache.

A stack of caches is a list, the top first, over a `CCoinsViewDB`, the coins
the database stores (its best block and head markers are left out, as is the
caches' memory accounting).  `CCoinsMap`, an `unordered_map`, is an
association list: `BatchWrite` walks its entries in their order, and every
order is one an association list can have.  The operations on a stack are
`CoinsOp`; a top-cache operation on a stack with no cache, which the source
never makes, leaves the stack alone.

What the stack is for is a map of unspent coins: `view` is what the top
cache shows, `refStep` the operations on a plain map.  `WF` is the invariant
the flags stand for, at every layer, over the view of the layers below:
a clean entry shows what its base shows, and a `FRESH` entry has no unspent
coin below it.

## Main definitions

* `Coin.IsSpent`, `coinEmpty`, `CCoinsCacheEntry`, `CCoinsMap`, `CCoinsViewDB`.
* `CCoinsViewCache.fetchCoin`, `addCoin`, `spendEntry`, `batchWrite`,
  `uncache`; `CCoinsViewDB.batchWrite`.
* `CoinsStack.getCoin`, `accessCoin`, `haveCoin`, `spendCoin`, `flush`, `pop`.
* `CoinsOp`, `CoinsStack.step`, `CoinsStack.run` — the operations and runs.
* `CoinsStack.view`, `CoinsStack.WF`, `refStep`, `refRun` — the abstraction.

## Main statements

* `fetchCoin_spec`, `addCoin_spec`, `spendEntry_spec`, `uncache_spec`,
  `batchWrite_spec`, `dbView_batchWrite` — each cache's operations over a
  base that stays put.
* `getCoin_spec`, `queries_eq_view`, `spendCoin_spec`, `flush_spec`,
  `pop_spec` — the operations that walk the stack.
* `step_spec`, `run_spec` — a valid operation, and a valid run, keep the
  invariant and act on what the stack shows as on the plain map.
* `run_refines` — the stack refines the plain map: every valid run succeeds
  and the top cache answers as the map.
-/

set_option autoImplicit false

namespace XPChain

/-- `Coin::IsSpent`: the output is null, `nValue == -1`. -/
def Coin.IsSpent (coin : Coin) : Bool := coin.out.nValue == -1

/-- `coinEmpty`, also `Coin()` and what `Coin::Clear` leaves: a null output at
height `0`, not from a coinbase. -/
def coinEmpty : Coin := ⟨⟨-1, []⟩, 0, false⟩

/-- What a view shows of a stored coin: nothing when it is spent. -/
def Coin.unspent (coin : Coin) : Option Coin := if coin.IsSpent then none else some coin

/-- `CCoinsCacheEntry`: the coin and the flags `DIRTY` and `FRESH`. -/
structure CCoinsCacheEntry where
  coin : Coin
  dirty : Bool
  fresh : Bool
  deriving DecidableEq, Repr

/-- `CCoinsMap`. -/
abbrev CCoinsMap := AList fun _ : COutPoint => CCoinsCacheEntry

/-- `CCoinsViewDB`, as the coins it stores. -/
abbrev CCoinsViewDB := AList fun _ : COutPoint => Coin

/-! ## One cache -/

namespace CCoinsViewCache

/-- `FetchCoin(outpoint)` of `cacheCoins`: the entry found or pulled in, the
map after, and the base after.  `baseGetCoin` is what the base's
`GetCoin(outpoint)` returns together with the base after it; the base is
asked only on a miss, so `base` stays on a hit. -/
def fetchCoin {σ : Type} (cacheCoins : CCoinsMap) (outpoint : COutPoint) (base : σ)
    (baseGetCoin : Option Coin × σ) : Option CCoinsCacheEntry × CCoinsMap × σ :=
  match cacheCoins.lookup outpoint with
  | some entry => (some entry, cacheCoins, base)
  | none =>
    match baseGetCoin with
    | (none, base) => (none, cacheCoins, base)
    | (some tmp, base) =>
      -- the base has only an empty entry: this one may be FRESH
      let entry : CCoinsCacheEntry := ⟨tmp, false, tmp.IsSpent⟩
      (some entry, cacheCoins.insert outpoint entry, base)

/-- What `GetCoin` returns of a fetched entry: its coin when unspent. -/
def coinOf (it : Option CCoinsCacheEntry) : Option Coin := it.bind fun entry => entry.coin.unspent

/-- `AddCoin(outpoint, coin, possible_overwrite)`.  `emplace` leaves an empty
entry at a new outpoint.  Without `possible_overwrite` an unspent entry there
is a logic error, and the coin is `FRESH` unless the entry was `DIRTY`. -/
def addCoin (cacheCoins : CCoinsMap) (outpoint : COutPoint) (coin : Coin)
    (possible_overwrite : Bool) : Except String CCoinsMap :=
  if coin.IsSpent then .error "assert(!coin.IsSpent())"
  else if isUnspendable coin.out.scriptPubKey then .ok cacheCoins
  else
    let entry := (cacheCoins.lookup outpoint).getD ⟨coinEmpty, false, false⟩
    if !possible_overwrite && !entry.coin.IsSpent then
      .error "Adding new coin that replaces non-pruned entry"
    else
      let fresh := !possible_overwrite && !entry.dirty
      .ok (cacheCoins.insert outpoint ⟨coin, true, entry.fresh || fresh⟩)

/-- The part of `SpendCoin(outpoint)` after `FetchCoin` found `entry`: a
`FRESH` entry is erased, any other is cleared and marked `DIRTY`. -/
def spendEntry (cacheCoins : CCoinsMap) (outpoint : COutPoint) (entry : CCoinsCacheEntry) :
    CCoinsMap :=
  if entry.fresh then cacheCoins.erase outpoint
  else cacheCoins.insert outpoint { entry with coin := coinEmpty, dirty := true }

/-- One iteration of `BatchWrite(mapCoins)`: the child's entry for `s.1`
moved into `cacheCoins`. -/
def batchWriteEntry (cacheCoins : CCoinsMap) (s : Σ _ : COutPoint, CCoinsCacheEntry) :
    Except String CCoinsMap :=
  let child := s.2
  if !child.dirty then .ok cacheCoins
  else
    match cacheCoins.lookup s.1 with
    | none =>
      -- a FRESH spent child needs no entry here: the grandparent has none either
      if child.fresh && child.coin.IsSpent then .ok cacheCoins
      else .ok (cacheCoins.insert s.1 ⟨child.coin, true, child.fresh⟩)
    | some us =>
      if child.fresh && !us.coin.IsSpent then
        .error "FRESH flag misapplied to cache entry for base transaction with spendable outputs"
      else if us.fresh && child.coin.IsSpent then .ok (cacheCoins.erase s.1)
      else .ok (cacheCoins.insert s.1 { us with coin := child.coin, dirty := true })

/-- `BatchWrite(mapCoins)` into `cacheCoins`. -/
def batchWrite (cacheCoins mapCoins : CCoinsMap) : Except String CCoinsMap :=
  mapCoins.entries.foldlM batchWriteEntry cacheCoins

/-- `Uncache(outpoint)`: an entry with no flag is dropped. -/
def uncache (cacheCoins : CCoinsMap) (outpoint : COutPoint) : CCoinsMap :=
  match cacheCoins.lookup outpoint with
  | some entry => if !entry.dirty && !entry.fresh then cacheCoins.erase outpoint else cacheCoins
  | none => cacheCoins

end CCoinsViewCache

namespace CCoinsViewDB

/-- One iteration of `CCoinsViewDB::BatchWrite`: a `DIRTY` entry is erased when
spent and written otherwise. -/
def batchWriteEntry (db : CCoinsViewDB) (s : Σ _ : COutPoint, CCoinsCacheEntry) : CCoinsViewDB :=
  if s.2.dirty then
    if s.2.coin.IsSpent then db.erase s.1 else db.insert s.1 s.2.coin
  else db

/-- `CCoinsViewDB::BatchWrite(mapCoins)`, as it changes the stored coins. -/
def batchWrite (db : CCoinsViewDB) (mapCoins : CCoinsMap) : CCoinsViewDB :=
  mapCoins.entries.foldl batchWriteEntry db

end CCoinsViewDB

/-! ## The stack -/

/-- A stack of caches over the database, the top cache first. -/
structure CoinsStack where
  db : CCoinsViewDB
  caches : List CCoinsMap

/-- The operations on a stack: those of the top cache, `Uncache` and `Flush`
of the cache at a depth, and pushing and popping a cache. -/
inductive CoinsOp
  | addCoin (outpoint : COutPoint) (coin : Coin) (possible_overwrite : Bool)
  | spendCoin (outpoint : COutPoint)
  | accessCoin (outpoint : COutPoint)
  | getCoin (outpoint : COutPoint)
  | haveCoin (outpoint : COutPoint)
  | uncache (depth : ℕ) (outpoint : COutPoint)
  | flush (depth : ℕ)
  | push
  | pop
  deriving Repr

namespace CoinsStack

open CCoinsViewCache

/-- `GetCoin(outpoint)` of the view `caches` over `db`: the coin where it
returns `true`, and the caches after the `FetchCoin`s it made on the way down.
`CCoinsViewDB::GetCoin` returns what is stored. -/
def getCoin (db : CCoinsViewDB) : List CCoinsMap → COutPoint → Option Coin × List CCoinsMap
  | [], outpoint => (db.lookup outpoint, [])
  | cacheCoins :: caches, outpoint =>
    match fetchCoin cacheCoins outpoint caches (getCoin db caches outpoint) with
    | (it, cacheCoins, caches) => (coinOf it, cacheCoins :: caches)

/-- `AccessCoin(outpoint)` of the cache `cacheCoins` over `caches`: the
entry's coin, spent or not, or `coinEmpty`. -/
def accessCoin (db : CCoinsViewDB) (cacheCoins : CCoinsMap) (caches : List CCoinsMap)
    (outpoint : COutPoint) : Coin × List CCoinsMap :=
  match fetchCoin cacheCoins outpoint caches (getCoin db caches outpoint) with
  | (it, cacheCoins, caches) => ((it.map CCoinsCacheEntry.coin).getD coinEmpty, cacheCoins :: caches)

/-- `HaveCoin(outpoint)`: an entry was found and its coin is unspent. -/
def haveCoin (db : CCoinsViewDB) (cacheCoins : CCoinsMap) (caches : List CCoinsMap)
    (outpoint : COutPoint) : Bool × List CCoinsMap :=
  match fetchCoin cacheCoins outpoint caches (getCoin db caches outpoint) with
  | (it, cacheCoins, caches) => (it.any fun entry => !entry.coin.IsSpent, cacheCoins :: caches)

/-- `SpendCoin(outpoint, moveout)`: whether an entry was found, the coin moved
out, and the caches after. -/
def spendCoin (db : CCoinsViewDB) (cacheCoins : CCoinsMap) (caches : List CCoinsMap)
    (outpoint : COutPoint) : Bool × Option Coin × List CCoinsMap :=
  match fetchCoin cacheCoins outpoint caches (getCoin db caches outpoint) with
  | (none, cacheCoins, caches) => (false, none, cacheCoins :: caches)
  | (some entry, cacheCoins, caches) =>
    (true, some entry.coin, spendEntry cacheCoins outpoint entry :: caches)

/-- `Flush()` of the cache at `depth`: its base's `BatchWrite` of its entries,
then `cacheCoins.clear()`.  A depth past the stack changes nothing. -/
def flush (db : CCoinsViewDB) : ℕ → List CCoinsMap → Except String (CCoinsViewDB × List CCoinsMap)
  | _, [] => .ok (db, [])
  | 0, [cacheCoins] => .ok (CCoinsViewDB.batchWrite db cacheCoins, [∅])
  | 0, cacheCoins :: base :: caches => do
    let base ← batchWrite base cacheCoins
    .ok (db, ∅ :: base :: caches)
  | depth + 1, cacheCoins :: caches => do
    let (db, caches) ← flush db depth caches
    .ok (db, cacheCoins :: caches)

/-- `Uncache(outpoint)` of the cache at `depth`. -/
def uncacheAt (outpoint : COutPoint) : ℕ → List CCoinsMap → List CCoinsMap
  | _, [] => []
  | 0, cacheCoins :: caches => uncache cacheCoins outpoint :: caches
  | depth + 1, cacheCoins :: caches => cacheCoins :: uncacheAt outpoint depth caches

/-- Popping the top cache: `Flush()`, then its removal. -/
def pop (db : CCoinsViewDB) (caches : List CCoinsMap) : Except String (CCoinsViewDB × List CCoinsMap) := do
  let (db, caches) ← flush db 0 caches
  .ok (db, caches.tail)

/-- One operation on the stack. -/
def step (st : CoinsStack) : CoinsOp → Except String CoinsStack
  | .addCoin outpoint coin possible_overwrite =>
    match st.caches with
    | [] => .ok st
    | cacheCoins :: caches => do
      let cacheCoins ← CCoinsViewCache.addCoin cacheCoins outpoint coin possible_overwrite
      .ok ⟨st.db, cacheCoins :: caches⟩
  | .spendCoin outpoint =>
    match st.caches with
    | [] => .ok st
    | cacheCoins :: caches => .ok ⟨st.db, (spendCoin st.db cacheCoins caches outpoint).2.2⟩
  | .accessCoin outpoint =>
    match st.caches with
    | [] => .ok st
    | cacheCoins :: caches => .ok ⟨st.db, (accessCoin st.db cacheCoins caches outpoint).2⟩
  | .getCoin outpoint => .ok ⟨st.db, (getCoin st.db st.caches outpoint).2⟩
  | .haveCoin outpoint =>
    match st.caches with
    | [] => .ok st
    | cacheCoins :: caches => .ok ⟨st.db, (haveCoin st.db cacheCoins caches outpoint).2⟩
  | .uncache depth outpoint => .ok ⟨st.db, uncacheAt outpoint depth st.caches⟩
  | .flush depth => do
    let (db, caches) ← flush st.db depth st.caches
    .ok ⟨db, caches⟩
  | .push => .ok ⟨st.db, ∅ :: st.caches⟩
  | .pop => do
    let (db, caches) ← pop st.db st.caches
    .ok ⟨db, caches⟩

/-- A run of operations; the first error stops it. -/
def run (st : CoinsStack) : List CoinsOp → Except String CoinsStack
  | [] => .ok st
  | op :: ops => do
    let st ← step st op
    run st ops

/-! ## The abstraction -/

/-- What an entry shows, or `parent`, what the base shows, where there is none. -/
def entryView (it : Option CCoinsCacheEntry) (parent : Option Coin) : Option Coin :=
  match it with
  | some entry => entry.coin.unspent
  | none => parent

/-- What a cache shows over a base that shows `parent`. -/
def layerView (cacheCoins : CCoinsMap) (parent : CoinsView) : CoinsView := fun outpoint =>
  entryView (cacheCoins.lookup outpoint) (parent outpoint)

/-- The unspent coins the database stores. -/
def dbView (db : CCoinsViewDB) : CoinsView := fun outpoint => (db.lookup outpoint).bind Coin.unspent

/-- What the top of `caches` over `db` shows. -/
def view (db : CCoinsViewDB) : List CCoinsMap → CoinsView
  | [] => dbView db
  | cacheCoins :: caches => layerView cacheCoins (view db caches)

/-- What the flags of an entry stand for, over a base that shows `parent` at
its outpoint: a clean entry shows what the base shows, and a `FRESH` entry has
no unspent coin in the base. -/
structure EntryWF (parent : Option Coin) (entry : CCoinsCacheEntry) : Prop where
  clean : entry.dirty = false → entry.coin.unspent = parent
  fresh : entry.fresh = true → parent = none

/-- Every entry of a cache is well-formed over the base view `parent`. -/
def LayerWF (parent : CoinsView) (cacheCoins : CCoinsMap) : Prop :=
  ∀ outpoint entry, cacheCoins.lookup outpoint = some entry → EntryWF (parent outpoint) entry

/-- Every layer of the stack is well-formed over the layers below it. -/
def WF (db : CCoinsViewDB) : List CCoinsMap → Prop
  | [] => True
  | cacheCoins :: caches => LayerWF (view db caches) cacheCoins ∧ WF db caches

end CoinsStack

/-- What a caller must respect: a top-cache operation needs a cache, `AddCoin`
an unspent coin, and `AddCoin` without `possible_overwrite` an outpoint with no
unspent coin in the top cache's view. -/
def CoinsOp.Valid (st : CoinsStack) : CoinsOp → Prop
  | .addCoin outpoint coin possible_overwrite =>
    st.caches ≠ [] ∧ coin.IsSpent = false ∧
      (possible_overwrite = false → CoinsStack.view st.db st.caches outpoint = none)
  | .spendCoin _ | .accessCoin _ | .haveCoin _ => st.caches ≠ []
  | .getCoin _ | .uncache _ _ | .flush _ | .push | .pop => True

namespace CoinsStack

instance (st : CoinsStack) (op : CoinsOp) : Decidable (CoinsOp.Valid st op) := by
  cases op <;> unfold CoinsOp.Valid <;> infer_instance

/-- A run of valid operations, each valid in the stack the run has reached. -/
def ValidRun : CoinsStack → List CoinsOp → Prop
  | _, [] => True
  | st, op :: ops =>
    CoinsOp.Valid st op ∧
      match step st op with
      | .ok st' => ValidRun st' ops
      | .error _ => True

instance decidableValidRun : (st : CoinsStack) → (ops : List CoinsOp) → Decidable (ValidRun st ops)
  | _, [] => isTrue trivial
  | st, op :: ops =>
    have : Decidable (match step st op with
        | .ok st' => ValidRun st' ops
        | .error _ => True) :=
      match step st op with
      | .ok st' => decidableValidRun st' ops
      | .error _ => isTrue trivial
    instDecidableAnd

end CoinsStack

/-- The operations on a plain map of unspent coins: `AddCoin` skips an
unspendable output. -/
def refStep (ref : CoinsView) : CoinsOp → CoinsView
  | .addCoin outpoint coin _ =>
    if isUnspendable coin.out.scriptPubKey then ref else Function.update ref outpoint (some coin)
  | .spendCoin outpoint => Function.update ref outpoint none
  | _ => ref

/-- A run on the plain map. -/
def refRun (ref : CoinsView) (ops : List CoinsOp) : CoinsView := ops.foldl refStep ref

/-! ## Lemmas -/

@[simp] theorem coinEmpty_IsSpent : coinEmpty.IsSpent = true := rfl

theorem Coin.unspent_of_IsSpent {coin : Coin} (h : coin.IsSpent = true) : coin.unspent = none := by
  simp [Coin.unspent, h]

theorem Coin.unspent_of_not_IsSpent {coin : Coin} (h : coin.IsSpent = false) :
    coin.unspent = some coin := by
  simp [Coin.unspent, h]

theorem Coin.IsSpent_of_unspent_eq_none {coin : Coin} (h : coin.unspent = none) : coin.IsSpent = true := by
  cases hs : coin.IsSpent
  · rw [Coin.unspent_of_not_IsSpent hs] at h
    cases h
  · rfl

namespace CoinsStack

open CCoinsViewCache

variable {parent : CoinsView} {cacheCoins : CCoinsMap} {outpoint : COutPoint}

@[simp] theorem layerView_empty (parent : CoinsView) : layerView ∅ parent = parent := rfl

theorem layerWF_empty (parent : CoinsView) : LayerWF parent ∅ := by
  intro outpoint entry h
  cases h

theorem layerView_insert (cacheCoins : CCoinsMap) (parent : CoinsView) (outpoint : COutPoint)
    (entry : CCoinsCacheEntry) :
    layerView (cacheCoins.insert outpoint entry) parent =
      Function.update (layerView cacheCoins parent) outpoint entry.coin.unspent := by
  funext k
  by_cases hk : k = outpoint
  · subst hk
    simp [layerView, AList.lookup_insert, entryView]
  · simp [layerView, AList.lookup_insert_ne hk, hk]

theorem layerView_erase (cacheCoins : CCoinsMap) (parent : CoinsView) (outpoint : COutPoint) :
    layerView (cacheCoins.erase outpoint) parent =
      Function.update (layerView cacheCoins parent) outpoint (parent outpoint) := by
  funext k
  by_cases hk : k = outpoint
  · subst hk
    simp [layerView, AList.lookup_erase, entryView]
  · simp [layerView, AList.lookup_erase_ne hk, hk]

theorem LayerWF.insert (hwf : LayerWF parent cacheCoins) {entry : CCoinsCacheEntry}
    (hentry : EntryWF (parent outpoint) entry) : LayerWF parent (cacheCoins.insert outpoint entry) := by
  intro k e h
  by_cases hk : k = outpoint
  · subst hk
    rw [AList.lookup_insert, Option.some_inj] at h
    exact h ▸ hentry
  · rw [AList.lookup_insert_ne hk] at h
    exact hwf k e h

theorem LayerWF.erase (hwf : LayerWF parent cacheCoins) (outpoint : COutPoint) :
    LayerWF parent (cacheCoins.erase outpoint) := by
  intro k e h
  by_cases hk : k = outpoint
  · subst hk
    rw [AList.lookup_erase] at h
    cases h
  · rw [AList.lookup_erase_ne hk] at h
    exact hwf k e h

theorem layerView_of_lookup_eq_some {entry : CCoinsCacheEntry} (h : cacheCoins.lookup outpoint = some entry) :
    layerView cacheCoins parent outpoint = entry.coin.unspent := by
  simp [layerView, h, entryView]

theorem layerView_of_lookup_eq_none (h : cacheCoins.lookup outpoint = none) :
    layerView cacheCoins parent outpoint = parent outpoint := by
  simp [layerView, h, entryView]

/-- What `FetchCoin` guarantees over a base that shows `parent`, where the
base's `GetCoin` answered `tmp`: the cache is still well-formed and shows the
same, the entry returned is the one now in the cache and shows the cache's
view, and the base is the one before or after its `GetCoin`. -/
structure FetchSpec {σ : Type} (parent : CoinsView) (cacheCoins : CCoinsMap) (outpoint : COutPoint)
    (base base' : σ) (it : Option CCoinsCacheEntry) (cacheCoins' : CCoinsMap) (base'' : σ) : Prop where
  wf : LayerWF parent cacheCoins'
  view_eq : layerView cacheCoins' parent = layerView cacheCoins parent
  coinOf_eq : coinOf it = layerView cacheCoins parent outpoint
  lookup_eq : ∀ entry, it = some entry → cacheCoins'.lookup outpoint = some entry
  base_eq : base'' = base ∨ base'' = base'

theorem fetchCoin_spec {σ : Type} (hwf : LayerWF parent cacheCoins) {base base' : σ}
    {tmp : Option Coin} (htmp : tmp.bind Coin.unspent = parent outpoint)
    {it : Option CCoinsCacheEntry} {cacheCoins' : CCoinsMap} {base'' : σ}
    (h : fetchCoin cacheCoins outpoint base (tmp, base') = (it, cacheCoins', base'')) :
    FetchSpec parent cacheCoins outpoint base base' it cacheCoins' base'' := by
  unfold fetchCoin at h
  cases hlookup : cacheCoins.lookup outpoint with
  | some entry =>
    -- a hit: the cache and the base stay
    simp only [hlookup, Prod.mk.injEq] at h
    obtain ⟨rfl, rfl, rfl⟩ := h
    exact ⟨hwf, rfl, by simp [coinOf, layerView_of_lookup_eq_some hlookup], fun _ h => h ▸ hlookup, .inl rfl⟩
  | none =>
    cases tmp with
    | none =>
      simp only [hlookup, Prod.mk.injEq] at h
      obtain ⟨rfl, rfl, rfl⟩ := h
      exact ⟨hwf, rfl, by rw [layerView_of_lookup_eq_none hlookup, ← htmp]; rfl,
        fun _ h => (nomatch h), .inr rfl⟩
    | some tmp =>
      -- a miss the base answers: the pulled entry shows what the base shows
      simp only [hlookup, Prod.mk.injEq] at h
      obtain ⟨rfl, rfl, rfl⟩ := h
      simp only [Option.bind_some] at htmp
      have hentry : EntryWF (parent outpoint) ⟨tmp, false, tmp.IsSpent⟩ :=
        ⟨fun _ => htmp, fun hs => htmp ▸ Coin.unspent_of_IsSpent hs⟩
      refine ⟨hwf.insert hentry, ?_, ?_, fun _ h => ?_, .inr rfl⟩
      · rw [layerView_insert, htmp]
        exact Function.update_eq_self_iff.mpr (layerView_of_lookup_eq_none hlookup).symm
      · simpa [coinOf, layerView_of_lookup_eq_none hlookup] using htmp
      · rw [← h, AList.lookup_insert]

theorem addCoin_spec (hwf : LayerWF parent cacheCoins) {coin : Coin} {possible_overwrite : Bool}
    (hspent : coin.IsSpent = false)
    (hfree : possible_overwrite = false → layerView cacheCoins parent outpoint = none) :
    ∃ cacheCoins', CCoinsViewCache.addCoin cacheCoins outpoint coin possible_overwrite = .ok cacheCoins' ∧
      LayerWF parent cacheCoins' ∧
      layerView cacheCoins' parent =
        refStep (layerView cacheCoins parent) (.addCoin outpoint coin possible_overwrite) := by
  unfold CCoinsViewCache.addCoin refStep
  simp only [hspent, Bool.false_eq_true, if_false]
  by_cases hun : isUnspendable coin.out.scriptPubKey = true
  · simp only [hun, if_true]
    exact ⟨cacheCoins, rfl, hwf, rfl⟩
  simp only [hun, Bool.false_eq_true, if_false]
  -- the entry `emplace` finds or makes, and what its flags say of the base
  generalize hentry : (cacheCoins.lookup outpoint).getD ⟨coinEmpty, false, false⟩ = entry
  have hold : possible_overwrite = false → entry.coin.IsSpent = true ∧
      (entry.dirty = false → parent outpoint = none) := by
    intro how
    have hview := hfree how
    cases hlookup : cacheCoins.lookup outpoint with
    | none =>
      rw [hlookup, Option.getD_none] at hentry
      rw [layerView_of_lookup_eq_none hlookup] at hview
      exact ⟨hentry ▸ rfl, fun _ => hview⟩
    | some e =>
      rw [hlookup, Option.getD_some] at hentry
      subst hentry
      rw [layerView_of_lookup_eq_some hlookup] at hview
      exact ⟨Coin.IsSpent_of_unspent_eq_none hview,
        fun hd => (hwf outpoint e hlookup).clean hd ▸ hview⟩
  have hfresh : entry.fresh = true → parent outpoint = none := by
    intro hf
    cases hlookup : cacheCoins.lookup outpoint with
    | none =>
      rw [hlookup, Option.getD_none] at hentry
      subst hentry
      cases hf
    | some e =>
      rw [hlookup, Option.getD_some] at hentry
      subst hentry
      exact (hwf outpoint e hlookup).fresh hf
  have hnoerr : (!possible_overwrite && !entry.coin.IsSpent) = false := by
    cases possible_overwrite
    · simp [(hold rfl).1]
    · rfl
  rw [if_neg (by simp [hnoerr])]
  refine ⟨_, rfl, hwf.insert ⟨fun h => (nomatch h), fun h => ?_⟩, ?_⟩
  · -- the new entry is FRESH only where the base has no unspent coin
    rcases Bool.or_eq_true_iff.mp h with hf | hf
    · exact hfresh hf
    · simp only [Bool.and_eq_true, Bool.not_eq_eq_eq_not, Bool.not_true] at hf
      exact (hold hf.1).2 hf.2
  · rw [layerView_insert, Coin.unspent_of_not_IsSpent hspent]

theorem spendEntry_spec (hwf : LayerWF parent cacheCoins) {entry : CCoinsCacheEntry}
    (hlookup : cacheCoins.lookup outpoint = some entry) :
    LayerWF parent (spendEntry cacheCoins outpoint entry) ∧
      layerView (spendEntry cacheCoins outpoint entry) parent =
        Function.update (layerView cacheCoins parent) outpoint none := by
  unfold spendEntry
  cases hf : entry.fresh
  · -- a cleared, DIRTY entry shows nothing
    simp only [Bool.false_eq_true, if_false]
    refine ⟨hwf.insert ⟨fun h => (nomatch h), fun h => by simp at h⟩, ?_⟩
    rw [layerView_insert]
    rfl
  · -- a FRESH entry is dropped: the base has nothing there either
    simp only [if_true]
    rw [layerView_erase, (hwf outpoint entry hlookup).fresh hf]
    exact ⟨hwf.erase outpoint, rfl⟩

theorem uncache_spec (hwf : LayerWF parent cacheCoins) (outpoint : COutPoint) :
    LayerWF parent (uncache cacheCoins outpoint) ∧
      layerView (uncache cacheCoins outpoint) parent = layerView cacheCoins parent := by
  unfold uncache
  cases hlookup : cacheCoins.lookup outpoint with
  | none => exact ⟨hwf, rfl⟩
  | some entry =>
    dsimp only
    by_cases hflags : (!entry.dirty && !entry.fresh) = true
    · -- a clean entry shows what the base shows, so dropping it changes nothing
      rw [if_pos hflags]
      simp only [Bool.and_eq_true, Bool.not_eq_eq_eq_not, Bool.not_true] at hflags
      refine ⟨hwf.erase outpoint, ?_⟩
      rw [layerView_erase, Function.update_eq_self_iff, layerView_of_lookup_eq_some hlookup]
      exact ((hwf outpoint entry hlookup).clean hflags.1).symm
    · rw [if_neg hflags]
      exact ⟨hwf, rfl⟩

theorem lookup_of_mem_entries {cacheCoins : CCoinsMap} {s : Σ _ : COutPoint, CCoinsCacheEntry}
    (hs : s ∈ cacheCoins.entries) : cacheCoins.lookup s.1 = some s.2 :=
  AList.mem_lookup_iff.mpr hs

theorem lookup_eq_none_of_not_mem_keys {cacheCoins : CCoinsMap} {outpoint : COutPoint}
    (h : outpoint ∉ cacheCoins.entries.keys) : cacheCoins.lookup outpoint = none :=
  AList.lookup_eq_none.mpr fun hmem => h (AList.mem_keys.mp hmem)

/-- One entry of `BatchWrite` acts at its own outpoint: from the base's entry
there it makes one that is well-formed and shows what the child showed. -/
theorem batchWriteEntry_actsAt {base cacheCoins : CCoinsMap} (hbase : LayerWF parent base)
    (hwf : LayerWF (layerView base parent) cacheCoins) {s : Σ _ : COutPoint, CCoinsCacheEntry}
    (hs : s ∈ cacheCoins.entries) :
    LocalFold.ActsAt (fun m k => AList.lookup k m) (batchWriteEntry · s) s.1 (base.lookup s.1)
      fun it => (∀ entry, it = some entry → EntryWF (parent s.1) entry) ∧
        entryView it (parent s.1) = layerView cacheCoins (layerView base parent) s.1 := by
  intro m hm
  dsimp only at hm
  have hchild := hwf s.1 s.2 (lookup_of_mem_entries hs)
  rw [layerView_of_lookup_eq_some (lookup_of_mem_entries hs)]
  unfold batchWriteEntry
  dsimp only
  cases hdirty : s.2.dirty
  · -- a clean child shows what the base shows and is skipped
    refine ⟨m, rfl, ⟨fun e he => hbase s.1 e (hm ▸ he), ?_⟩, fun _ _ => rfl⟩
    rw [hm, hchild.clean hdirty]
    rfl
  simp only [Bool.not_true, Bool.false_eq_true, ↓reduceIte]
  rw [hm]
  cases hus : base.lookup s.1 with
  | none =>
    rw [layerView_of_lookup_eq_none hus] at hchild
    dsimp only
    by_cases hdrop : (s.2.fresh && s.2.coin.IsSpent) = true
    · -- a FRESH spent child over no entry: the grandparent has nothing either
      rw [if_pos hdrop]
      simp only [Bool.and_eq_true] at hdrop
      refine ⟨m, rfl, ⟨fun e he => (by rw [hm, hus] at he; cases he), ?_⟩, fun _ _ => rfl⟩
      rw [hm, hus, Coin.unspent_of_IsSpent hdrop.2]
      exact hchild.fresh hdrop.1
    · rw [if_neg hdrop]
      refine ⟨_, rfl, ⟨fun e he => ?_, by simp [AList.lookup_insert, entryView]⟩,
        fun k hk => AList.lookup_insert_ne hk⟩
      rw [AList.lookup_insert, Option.some_inj] at he
      subst he
      exact ⟨fun h => (nomatch h), hchild.fresh⟩
  | some us =>
    rw [layerView_of_lookup_eq_some hus] at hchild
    have hus' := hbase s.1 us hus
    dsimp only
    -- a FRESH child over an unspent entry is what the flags rule out
    have hnoerr : (s.2.fresh && !us.coin.IsSpent) = false := by
      cases hf : s.2.fresh
      · rfl
      · simp [Coin.IsSpent_of_unspent_eq_none (hchild.fresh hf)]
    rw [if_neg (by simp [hnoerr])]
    by_cases hdrop : (us.fresh && s.2.coin.IsSpent) = true
    · rw [if_pos hdrop]
      simp only [Bool.and_eq_true] at hdrop
      refine ⟨_, rfl, ⟨fun e he => (by rw [AList.lookup_erase] at he; cases he), ?_⟩,
        fun k hk => AList.lookup_erase_ne hk⟩
      rw [AList.lookup_erase, Coin.unspent_of_IsSpent hdrop.2]
      exact hus'.fresh hdrop.1
    · rw [if_neg hdrop]
      refine ⟨_, rfl, ⟨fun e he => ?_, by simp [AList.lookup_insert, entryView]⟩,
        fun k hk => AList.lookup_insert_ne hk⟩
      rw [AList.lookup_insert, Option.some_inj] at he
      subst he
      exact ⟨fun h => (nomatch h), hus'.fresh⟩

/-- `BatchWrite` of a well-formed child into its base cache succeeds, keeps the
base well-formed, and makes it show what the child showed. -/
theorem batchWrite_spec {base cacheCoins : CCoinsMap} (hbase : LayerWF parent base)
    (hwf : LayerWF (layerView base parent) cacheCoins) :
    ∃ base', batchWrite base cacheCoins = .ok base' ∧ LayerWF parent base' ∧
      layerView base' parent = layerView cacheCoins (layerView base parent) := by
  obtain ⟨base', hfold, hlook⟩ := LocalFold.foldlM_eq_ok (fun m k => AList.lookup k m) batchWriteEntry
    (fun k it => (∀ entry, it = some entry → EntryWF (parent k) entry) ∧
      entryView it (parent k) = layerView cacheCoins (layerView base parent) k)
    base cacheCoins.entries cacheCoins.nodupKeys fun s hs => batchWriteEntry_actsAt hbase hwf hs
  refine ⟨base', hfold, fun k e he => ?_, funext fun k => ?_⟩
  · by_cases hk : k ∈ cacheCoins.entries.keys
    · exact ((hlook k).1 hk).1 e he
    · exact hbase k e ((hlook k).2 hk ▸ he)
  · by_cases hk : k ∈ cacheCoins.entries.keys
    · exact ((hlook k).1 hk).2
    · rw [layerView_of_lookup_eq_none (lookup_eq_none_of_not_mem_keys hk)]
      exact congrArg (entryView · (parent k)) ((hlook k).2 hk)

/-- The database's `BatchWrite` of a well-formed cache makes it store what the
cache showed. -/
theorem dbView_batchWrite {db : CCoinsViewDB} (hwf : LayerWF (dbView db) cacheCoins) :
    dbView (CCoinsViewDB.batchWrite db cacheCoins) = layerView cacheCoins (dbView db) := by
  funext k
  have hlook := LocalFold.foldl_apply (fun m k => AList.lookup k m) CCoinsViewDB.batchWriteEntry
    (fun k o => o.bind Coin.unspent = layerView cacheCoins (dbView db) k) db cacheCoins.entries
    cacheCoins.nodupKeys (fun s hs m hm => ?_) k
  · by_cases hk : k ∈ cacheCoins.entries.keys
    · exact (hlook.1 hk)
    · rw [layerView_of_lookup_eq_none (lookup_eq_none_of_not_mem_keys hk)]
      exact congrArg (Option.bind · Coin.unspent) (hlook.2 hk)
  · have hchild := hwf s.1 s.2 (lookup_of_mem_entries hs)
    rw [layerView_of_lookup_eq_some (lookup_of_mem_entries hs)]
    unfold CCoinsViewDB.batchWriteEntry
    cases hdirty : s.2.dirty
    · -- a clean entry is not written: the database already shows it
      rw [if_neg Bool.false_ne_true]
      exact ⟨by rw [hm, hchild.clean hdirty]; rfl, fun _ _ => rfl⟩
    · simp only [↓reduceIte]
      cases hspent : s.2.coin.IsSpent
      · exact ⟨by simp [AList.lookup_insert, Coin.unspent_of_not_IsSpent hspent],
          fun _ hk => AList.lookup_insert_ne hk⟩
      · exact ⟨by simp [AList.lookup_erase, Coin.unspent_of_IsSpent hspent],
          fun _ hk => AList.lookup_erase_ne hk⟩

/-! ## The stack -/

variable {db : CCoinsViewDB} {caches : List CCoinsMap}

theorem coinOf_bind_unspent (it : Option CCoinsCacheEntry) :
    (coinOf it).bind Coin.unspent = coinOf it := by
  cases it with
  | none => rfl
  | some entry =>
    cases hs : entry.coin.IsSpent
    · simp [coinOf, Coin.unspent_of_not_IsSpent hs]
    · simp [coinOf, Coin.unspent_of_IsSpent hs]

/-- What the top cache's `FetchCoin` leaves, given what its base's `GetCoin`
does: the stack is still well-formed and shows the same, the entry returned is
in the top cache and shows the stack's view. -/
theorem fetchTop_spec_of_below (hwf : WF db (cacheCoins :: caches))
    (hbelow : WF db (getCoin db caches outpoint).2 ∧
      view db (getCoin db caches outpoint).2 = view db caches ∧
      (getCoin db caches outpoint).1.bind Coin.unspent = view db caches outpoint)
    {it : Option CCoinsCacheEntry} {cacheCoins' : CCoinsMap} {caches' : List CCoinsMap}
    (h : fetchCoin cacheCoins outpoint caches (getCoin db caches outpoint) = (it, cacheCoins', caches')) :
    WF db (cacheCoins' :: caches') ∧ view db (cacheCoins' :: caches') = view db (cacheCoins :: caches) ∧
      coinOf it = view db (cacheCoins :: caches) outpoint ∧
      ∀ entry, it = some entry → cacheCoins'.lookup outpoint = some entry := by
  rcases hr : getCoin db caches outpoint with ⟨tmp, base'⟩
  rw [hr] at h hbelow
  obtain ⟨hwf', hview', htmp⟩ := hbelow
  have hspec := fetchCoin_spec hwf.1 htmp h
  -- the caches below are the ones before or after the base's `GetCoin`: both show the same
  have hbase : WF db caches' ∧ view db caches' = view db caches := by
    rcases hspec.base_eq with rfl | rfl
    · exact ⟨hwf.2, rfl⟩
    · exact ⟨hwf', hview'⟩
  refine ⟨⟨hbase.2 ▸ hspec.wf, hbase.1⟩, ?_, hspec.coinOf_eq, hspec.lookup_eq⟩
  show layerView cacheCoins' (view db caches') = layerView cacheCoins (view db caches)
  rw [hbase.2, hspec.view_eq]

/-- `GetCoin` down the stack keeps it well-formed and showing the same, and
answers what it shows. -/
theorem getCoin_spec (db : CCoinsViewDB) : ∀ (caches : List CCoinsMap) (outpoint : COutPoint),
    WF db caches → WF db (getCoin db caches outpoint).2 ∧
      view db (getCoin db caches outpoint).2 = view db caches ∧
      (getCoin db caches outpoint).1.bind Coin.unspent = view db caches outpoint
  | [], _, _ => ⟨trivial, rfl, rfl⟩
  | cacheCoins :: caches, outpoint, hwf => by
    have hbelow := getCoin_spec db caches outpoint hwf.2
    rw [getCoin]
    rcases hf : fetchCoin cacheCoins outpoint caches (getCoin db caches outpoint) with
      ⟨it, cacheCoins', caches'⟩
    obtain ⟨hwf', hview, hcoin, -⟩ := fetchTop_spec_of_below hwf hbelow hf
    exact ⟨hwf', hview, by rw [coinOf_bind_unspent, hcoin]⟩

theorem fetchTop_spec (hwf : WF db (cacheCoins :: caches))
    {it : Option CCoinsCacheEntry} {cacheCoins' : CCoinsMap} {caches' : List CCoinsMap}
    (h : fetchCoin cacheCoins outpoint caches (getCoin db caches outpoint) = (it, cacheCoins', caches')) :
    WF db (cacheCoins' :: caches') ∧ view db (cacheCoins' :: caches') = view db (cacheCoins :: caches) ∧
      coinOf it = view db (cacheCoins :: caches) outpoint ∧
      ∀ entry, it = some entry → cacheCoins'.lookup outpoint = some entry :=
  fetchTop_spec_of_below hwf (getCoin_spec db caches outpoint hwf.2) h

/-- `GetCoin`, `HaveCoin` and `AccessCoin` of the top cache answer what the
stack shows. -/
theorem queries_eq_view (hwf : WF db (cacheCoins :: caches)) (outpoint : COutPoint) :
    (getCoin db (cacheCoins :: caches) outpoint).1 = view db (cacheCoins :: caches) outpoint ∧
      (haveCoin db cacheCoins caches outpoint).1 = (view db (cacheCoins :: caches) outpoint).isSome ∧
      (accessCoin db cacheCoins caches outpoint).1.unspent = view db (cacheCoins :: caches) outpoint := by
  rw [getCoin, haveCoin, accessCoin]
  rcases hf : fetchCoin cacheCoins outpoint caches (getCoin db caches outpoint) with
    ⟨it, cacheCoins', caches'⟩
  obtain ⟨-, -, hcoin, -⟩ := fetchTop_spec hwf hf
  rw [← hcoin]
  cases it with
  | none => exact ⟨rfl, rfl, rfl⟩
  | some entry =>
    cases hs : entry.coin.IsSpent
    · simp [coinOf, Coin.unspent_of_not_IsSpent hs, hs]
    · simp [coinOf, Coin.unspent_of_IsSpent hs, hs]

/-- The queries keep the stack well-formed and showing the same. -/
theorem query_caches_spec (hwf : WF db (cacheCoins :: caches)) (outpoint : COutPoint) :
    (WF db (haveCoin db cacheCoins caches outpoint).2 ∧
      view db (haveCoin db cacheCoins caches outpoint).2 = view db (cacheCoins :: caches)) ∧
    (WF db (accessCoin db cacheCoins caches outpoint).2 ∧
      view db (accessCoin db cacheCoins caches outpoint).2 = view db (cacheCoins :: caches)) := by
  rw [haveCoin, accessCoin]
  rcases hf : fetchCoin cacheCoins outpoint caches (getCoin db caches outpoint) with
    ⟨it, cacheCoins', caches'⟩
  obtain ⟨hwf', hview, -, -⟩ := fetchTop_spec hwf hf
  exact ⟨⟨hwf', hview⟩, ⟨hwf', hview⟩⟩

theorem spendCoin_spec (hwf : WF db (cacheCoins :: caches)) (outpoint : COutPoint) :
    WF db (spendCoin db cacheCoins caches outpoint).2.2 ∧
      view db (spendCoin db cacheCoins caches outpoint).2.2 =
        Function.update (view db (cacheCoins :: caches)) outpoint none := by
  rw [spendCoin]
  rcases hf : fetchCoin cacheCoins outpoint caches (getCoin db caches outpoint) with
    ⟨it, cacheCoins', caches'⟩
  obtain ⟨hwf', hview, hcoin, hlookup⟩ := fetchTop_spec hwf hf
  cases it with
  | none =>
    -- nothing found: the stack already shows no coin there
    refine ⟨hwf', ?_⟩
    rw [hview, eq_comm, Function.update_eq_self_iff]
    exact hcoin
  | some entry =>
    obtain ⟨hwfe, hviewe⟩ := spendEntry_spec hwf'.1 (hlookup entry rfl)
    refine ⟨⟨hwfe, hwf'.2⟩, ?_⟩
    show layerView _ (view db caches') = _
    rw [hviewe]
    exact congrArg (Function.update · outpoint none) hview

theorem flush_zero_spec (hwf : WF db (cacheCoins :: caches)) :
    ∃ db' caches', flush db 0 (cacheCoins :: caches) = .ok (db', ∅ :: caches') ∧ WF db' caches' ∧
      view db' caches' = view db (cacheCoins :: caches) := by
  cases caches with
  | nil =>
    -- the bottom cache writes to the database
    exact ⟨_, [], rfl, trivial, dbView_batchWrite hwf.1⟩
  | cons base caches =>
    obtain ⟨base', hbatch, hwf', hview⟩ := batchWrite_spec hwf.2.1 hwf.1
    refine ⟨db, base' :: caches, ?_, ⟨hwf', hwf.2.2⟩, hview⟩
    rw [flush, hbatch]
    rfl

theorem flush_spec : ∀ (db : CCoinsViewDB) (depth : ℕ) (caches : List CCoinsMap), WF db caches →
    ∃ db' caches', flush db depth caches = .ok (db', caches') ∧ WF db' caches' ∧
      view db' caches' = view db caches
  | db, depth, [], _ => ⟨db, [], by cases depth <;> rfl, trivial, rfl⟩
  | db, 0, cacheCoins :: caches, hwf => by
    obtain ⟨db', caches', hflush, hwf', hview⟩ := flush_zero_spec hwf
    exact ⟨db', ∅ :: caches', hflush, ⟨layerWF_empty _, hwf'⟩, hview⟩
  | db, depth + 1, cacheCoins :: caches, hwf => by
    obtain ⟨db', caches', hflush, hwf', hview⟩ := flush_spec db depth caches hwf.2
    refine ⟨db', cacheCoins :: caches', by rw [flush, hflush]; rfl, ⟨hview ▸ hwf.1, hwf'⟩, ?_⟩
    show layerView cacheCoins (view db' caches') = layerView cacheCoins (view db caches)
    rw [hview]

theorem pop_spec (hwf : WF db caches) :
    ∃ db' caches', pop db caches = .ok (db', caches') ∧ WF db' caches' ∧
      view db' caches' = view db caches := by
  cases caches with
  | nil => exact ⟨db, [], rfl, trivial, rfl⟩
  | cons cacheCoins caches =>
    obtain ⟨db', caches', hflush, hwf', hview⟩ := flush_zero_spec hwf
    exact ⟨db', caches', by rw [pop, hflush]; rfl, hwf', hview⟩

theorem uncacheAt_spec (outpoint : COutPoint) : ∀ (depth : ℕ) (caches : List CCoinsMap),
    WF db caches → WF db (uncacheAt outpoint depth caches) ∧
      view db (uncacheAt outpoint depth caches) = view db caches
  | depth, [], _ => by cases depth <;> exact ⟨trivial, rfl⟩
  | 0, cacheCoins :: caches, hwf => by
    obtain ⟨hwf', hview⟩ := uncache_spec hwf.1 outpoint
    exact ⟨⟨hwf', hwf.2⟩, hview⟩
  | depth + 1, cacheCoins :: caches, hwf => by
    obtain ⟨hwf', hview⟩ := uncacheAt_spec outpoint depth caches hwf.2
    refine ⟨⟨hview ▸ hwf.1, hwf'⟩, ?_⟩
    show layerView cacheCoins (view db _) = layerView cacheCoins (view db caches)
    rw [hview]

/-- One valid operation keeps the stack well-formed and changes what it shows
as the operation changes the plain map. -/
theorem step_spec {st : CoinsStack} (hwf : WF st.db st.caches) {op : CoinsOp} (hvalid : op.Valid st) :
    ∃ st', step st op = .ok st' ∧ WF st'.db st'.caches ∧
      view st'.db st'.caches = refStep (view st.db st.caches) op := by
  obtain ⟨db, caches⟩ := st
  cases op with
  | addCoin outpoint coin possible_overwrite =>
    obtain ⟨hne, hspent, hfree⟩ := hvalid
    cases caches with
    | nil => exact absurd rfl hne
    | cons cacheCoins caches =>
      obtain ⟨cacheCoins', hadd, hwf', hview⟩ := addCoin_spec hwf.1 hspent hfree
      exact ⟨⟨db, cacheCoins' :: caches⟩, by simp only [step, hadd]; rfl, ⟨hwf', hwf.2⟩, hview⟩
  | spendCoin outpoint =>
    cases caches with
    | nil => exact absurd rfl hvalid
    | cons cacheCoins caches =>
      exact ⟨_, rfl, spendCoin_spec hwf outpoint⟩
  | accessCoin outpoint =>
    cases caches with
    | nil => exact absurd rfl hvalid
    | cons cacheCoins caches =>
      exact ⟨_, rfl, (query_caches_spec hwf outpoint).2⟩
  | getCoin outpoint =>
    obtain ⟨hwf', hview, -⟩ := getCoin_spec db caches outpoint hwf
    exact ⟨_, rfl, hwf', hview⟩
  | haveCoin outpoint =>
    cases caches with
    | nil => exact absurd rfl hvalid
    | cons cacheCoins caches =>
      exact ⟨_, rfl, (query_caches_spec hwf outpoint).1⟩
  | uncache depth outpoint =>
    exact ⟨_, rfl, uncacheAt_spec outpoint depth caches hwf⟩
  | flush depth =>
    obtain ⟨db', caches', hflush, hwf', hview⟩ := flush_spec db depth caches hwf
    exact ⟨⟨db', caches'⟩, by rw [step, hflush]; rfl, hwf', hview⟩
  | push => exact ⟨_, rfl, ⟨layerWF_empty _, hwf⟩, rfl⟩
  | pop =>
    obtain ⟨db', caches', hpop, hwf', hview⟩ := pop_spec hwf
    exact ⟨⟨db', caches'⟩, by rw [step, hpop]; rfl, hwf', hview⟩

/-- A valid run keeps the stack well-formed and changes what it shows as the
run changes the plain map. -/
theorem run_spec : ∀ (st : CoinsStack) (ops : List CoinsOp), WF st.db st.caches → ValidRun st ops →
    ∃ st', run st ops = .ok st' ∧ WF st'.db st'.caches ∧
      view st'.db st'.caches = refRun (view st.db st.caches) ops
  | st, [], hwf, _ => ⟨st, rfl, hwf, rfl⟩
  | st, op :: ops, hwf, ⟨hvalid, hrest⟩ => by
    obtain ⟨st₁, hstep, hwf₁, hview₁⟩ := step_spec hwf hvalid
    rw [hstep] at hrest
    obtain ⟨st', hrun, hwf', hview'⟩ := run_spec st₁ ops hwf₁ hrest
    refine ⟨st', by rw [run, hstep]; exact hrun, hwf', ?_⟩
    rw [hview', hview₁]
    rfl

/-- The layered cache refines a plain map.  From a well-formed stack, every
valid run succeeds (no `AddCoin` and no `BatchWrite` throws), leaves every
entry's flags true of the layers below it, and the top cache's `GetCoin`,
`HaveCoin` and `AccessCoin` answer as the plain map the run's operations made
from what the stack showed. -/
theorem run_refines (st : CoinsStack) (ops : List CoinsOp) (hwf : WF st.db st.caches)
    (hvalid : ValidRun st ops) :
    ∃ st', run st ops = .ok st' ∧ WF st'.db st'.caches ∧
      ∀ cacheCoins caches, st'.caches = cacheCoins :: caches → ∀ outpoint,
        (getCoin st'.db st'.caches outpoint).1 = refRun (view st.db st.caches) ops outpoint ∧
        (haveCoin st'.db cacheCoins caches outpoint).1 =
          (refRun (view st.db st.caches) ops outpoint).isSome ∧
        (accessCoin st'.db cacheCoins caches outpoint).1.unspent =
          refRun (view st.db st.caches) ops outpoint := by
  obtain ⟨st', hrun, hwf', hview⟩ := run_spec st ops hwf hvalid
  refine ⟨st', hrun, hwf', fun cacheCoins caches htop outpoint => ?_⟩
  rw [← hview, htop]
  rw [htop] at hwf'
  exact queries_eq_view hwf' outpoint

/-- A run over a database holding one coin: a second cache pushed, a coin
added without overwrite, a read, a flush, a spend, an `Uncache` one level
down, a pop and a `HaveCoin`. -/
theorem run_refines_pushAddFlushSpendPop :
    let st : CoinsStack := ⟨(∅ : CCoinsViewDB).insert ⟨1, 0⟩ ⟨⟨50, [OP_1]⟩, 1, false⟩, [∅]⟩
    let ops : List CoinsOp :=
      [.push, .addCoin ⟨2, 0⟩ ⟨⟨20, [OP_1]⟩, 2, false⟩ false, .getCoin ⟨1, 0⟩, .flush 0,
        .spendCoin ⟨1, 0⟩, .uncache 1 ⟨1, 0⟩, .pop, .haveCoin ⟨2, 0⟩]
    WF st.db st.caches ∧ ValidRun st ops ∧
      ∃ st', run st ops = .ok st' ∧ WF st'.db st'.caches ∧
        ∀ cacheCoins caches, st'.caches = cacheCoins :: caches → ∀ outpoint,
          (getCoin st'.db st'.caches outpoint).1 = refRun (view st.db st.caches) ops outpoint ∧
          (haveCoin st'.db cacheCoins caches outpoint).1 =
            (refRun (view st.db st.caches) ops outpoint).isSome ∧
          (accessCoin st'.db cacheCoins caches outpoint).1.unspent =
            refRun (view st.db st.caches) ops outpoint := by
  intro st ops
  have hwf : WF st.db st.caches := ⟨layerWF_empty _, trivial⟩
  have hvalid : ValidRun st ops := by decide
  exact ⟨hwf, hvalid, run_refines st ops hwf hvalid⟩

/-- Without the caller's promise the flags go wrong: a coin added without
overwrite over one only the base holds is marked `FRESH`, and the next flush
throws. -/
example : run ⟨∅, [∅, ∅]⟩
    [.addCoin ⟨1, 0⟩ ⟨⟨50, [OP_1]⟩, 1, false⟩ true, .flush 0,
      .addCoin ⟨1, 0⟩ ⟨⟨20, [OP_1]⟩, 2, false⟩ false, .flush 0] =
    .error "FRESH flag misapplied to cache entry for base transaction with spendable outputs" := by
  rfl

end CoinsStack

end XPChain
