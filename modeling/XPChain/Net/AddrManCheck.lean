import XPChain.Net.AddrMan
import XPChain.Lib.Check
import XPChain.Lib.LocalFold
import XPChain.Lib.Tally

/-!
# What `Check_` verifies

`Check_` walks the entries of `mapInfo` in the order of their ids, then every
slot of the tried table, then every slot of the new table, and returns the
code of the first inconsistency it meets.  `Consistent` says the same as
properties of the state: each entry is found under its address and at its
position in `vRandom`; a tried entry sits in the one tried slot its address
hashes to; a new entry is held by as many new slots as its reference count,
each at the position its address hashes to in that bucket; and `nTried` and
`nNew` count the two kinds.  A consistent state passes every check.

The operations pass through states that are consistent up to some
bookkeeping: an entry just created, or just taken out of its buckets, has no
new slot yet, and a change of table reaches `nNew` a line later.
`Consistent st D c` allows the entries of `D` a reference count of zero and
leaves `c` new entries out of `nNew`; `Check_` asks for `D = ∅` and `c = 0`.

## Main definitions

* `CAddrMan.newRefs` — the number of new slots holding an id.
* `CAddrMan.triedSlot` — the tried slot an entry's address hashes to.
* `CAddrMan.Indexed` — `mapAddr` and `vRandom` agree with the entries.
* `CAddrMan.Consistent` — and so do the tables and the counters.

## Main statements

* `CAddrMan.check_eq_ok` — a consistent state passes every check.
* `CAddrMan.Check_eq_zero` — so `Check_` returns `0` on it.
* `CAddrMan.selectTriedCollision_fails_Check_` — from a state `Check_` accepts,
  `SelectTriedCollision_` can leave one it rejects.
-/

set_option autoImplicit false

namespace XPChain

namespace CAddrMan

variable {CNetAddr : Type}

/-! ## Slots -/

theorem mem_slots {n : ℕ} {s : ℕ × ℕ} : s ∈ slots n ↔ s.1 < n ∧ s.2 < ADDRMAN_BUCKET_SIZE := by
  obtain ⟨b, i⟩ := s
  simp [slots]

theorem slots_nodup (n : ℕ) : (slots n).Nodup := by
  rw [slots, List.nodup_flatMap]
  refine ⟨fun b _ => List.nodup_range.map fun _ _ h => (Prod.mk.inj h).2, ?_⟩
  refine List.nodup_range.pairwise_of_forall_ne fun b _ b' _ hne => ?_
  simp only [Function.onFun, List.disjoint_left, List.mem_map]
  rintro _ ⟨i, _, rfl⟩ ⟨i', _, h⟩
  exact hne (Prod.mk.inj h).1.symm

variable (net : AddrNet CNetAddr)

/-- The number of slots of the new table holding `k`. -/
def newRefs (st : CAddrMan CNetAddr) (k : ℤ) : ℕ :=
  (slots ADDRMAN_NEW_BUCKET_COUNT).countP fun s => st.vvNew s.1 s.2 = k

/-- The slot of the tried table that an entry's address hashes to. -/
def triedSlot (st : CAddrMan CNetAddr) (info : CAddrInfo CNetAddr) : ℕ × ℕ :=
  (info.GetTriedBucket net st.nKey,
    info.GetBucketPosition net st.nKey false (info.GetTriedBucket net st.nKey))

theorem triedSlot_mem (st : CAddrMan CNetAddr) (info : CAddrInfo CNetAddr) :
    st.triedSlot net info ∈ slots ADDRMAN_TRIED_BUCKET_COUNT :=
  mem_slots.mpr ⟨CAddrInfo.GetTriedBucket_lt net info st.nKey,
    CAddrInfo.GetBucketPosition_lt net info st.nKey false _⟩

/-- The indexes agree with the entries: every entry is found under its address
and at its position in `vRandom`, which lists each entry once, and its times
are not negative. -/
structure Indexed (st : CAddrMan CNetAddr) : Prop where
  ne_empty : ∀ k info, st.mapInfo.lookup k = some info → k ≠ -1
  mapAddr_eq : ∀ k info, st.mapInfo.lookup k = some info →
    st.mapAddr info.addr.service.addr = some k
  random_nodup : st.vRandom.Nodup
  mem_random : ∀ k, k ∈ st.vRandom ↔ k ∈ st.mapInfo
  random_pos : ∀ k info, st.mapInfo.lookup k = some info →
    0 ≤ info.nRandomPos ∧ info.nRandomPos < st.vRandom.length ∧
      st.vRandom.getD info.nRandomPos.toNat 0 = k
  times : ∀ k info, st.mapInfo.lookup k = some info → 0 ≤ info.nLastTry ∧ 0 ≤ info.nLastSuccess

/-- The tables agree with the entries, except that the ids of `D` may have a
reference count of zero and `c` new entries are not yet in `nNew`. -/
structure Consistent (st : CAddrMan CNetAddr) (D : Finset ℤ) (c : ℕ) : Prop extends st.Indexed where
  tried : ∀ k info, st.mapInfo.lookup k = some info → info.fInTried = true →
    info.nLastSuccess ≠ 0 ∧ info.nRefCount = 0 ∧
      st.vvTried (st.triedSlot net info).1 (st.triedSlot net info).2 = k
  new : ∀ k info, st.mapInfo.lookup k = some info → info.fInTried = false →
    info.nRefCount = st.newRefs k ∧ info.nRefCount ≤ ADDRMAN_NEW_BUCKETS_PER_ADDRESS ∧
      (k ∉ D → 0 < info.nRefCount)
  tried_slot : ∀ b i, b < ADDRMAN_TRIED_BUCKET_COUNT → i < ADDRMAN_BUCKET_SIZE →
    st.vvTried b i ≠ -1 → ∃ info, st.mapInfo.lookup (st.vvTried b i) = some info ∧
      info.fInTried = true ∧ st.triedSlot net info = (b, i)
  new_slot : ∀ b i, b < ADDRMAN_NEW_BUCKET_COUNT → i < ADDRMAN_BUCKET_SIZE →
    st.vvNew b i ≠ -1 → ∃ info, st.mapInfo.lookup (st.vvNew b i) = some info ∧
      info.fInTried = false ∧ info.GetBucketPosition net st.nKey true b = i
  nTried_eq : st.nTried = st.mapInfo.entries.countP (·.2.fInTried)
  nNew_eq : st.nNew + c = st.mapInfo.entries.countP (!·.2.fInTried)
  key : st.nKey ≠ 0

variable {net}

/-- `vRandom` lists every entry once, so its length counts the entries. -/
theorem length_vRandom {st : CAddrMan CNetAddr} (h : st.Indexed) :
    st.vRandom.length = st.mapInfo.entries.length := by
  have hperm : st.vRandom.Perm st.mapInfo.keys :=
    (List.perm_ext_iff_of_nodup h.random_nodup st.mapInfo.keys_nodup).mpr fun k => by
      rw [h.mem_random, AList.mem_keys]
  rw [hperm.length_eq]
  simp [AList.keys, List.keys]

/-! ## The walk over the entries -/

/-- What the walk over the entries records of the id `k`: whether it is tried,
and the reference count of a new entry. -/
def entryRecord (st : CAddrMan CNetAddr) (k : ℤ) : Bool × Option ℤ :=
  match st.mapInfo.lookup k with
  | some info => if info.fInTried then (true, none) else (false, some info.nRefCount)
  | none => (false, none)

theorem entryRecord_some {st : CAddrMan CNetAddr} {k : ℤ} {info : CAddrInfo CNetAddr}
    (hk : st.mapInfo.lookup k = some info) :
    st.entryRecord k = if info.fInTried then (true, none) else (false, some info.nRefCount) := by
  rw [entryRecord, hk]

theorem entryRecord_none {st : CAddrMan CNetAddr} {k : ℤ} (hk : st.mapInfo.lookup k = none) :
    st.entryRecord k = (false, none) := by
  rw [entryRecord, hk]

theorem entryRecord_fst {st : CAddrMan CNetAddr} {k : ℤ} :
    (st.entryRecord k).1 = true ↔ ∃ info, st.mapInfo.lookup k = some info ∧ info.fInTried = true := by
  cases hk : st.mapInfo.lookup k with
  | none => simp [entryRecord_none hk]
  | some info => cases htried : info.fInTried <;> simp [entryRecord_some hk, htried]

theorem entryRecord_snd_isSome {st : CAddrMan CNetAddr} {k : ℤ} :
    (st.entryRecord k).2.isSome ↔ ∃ info, st.mapInfo.lookup k = some info ∧ (!info.fInTried) = true := by
  cases hk : st.mapInfo.lookup k with
  | none => simp [entryRecord_none hk]
  | some info => cases htried : info.fInTried <;> simp [entryRecord_some hk, htried]

/-- The record of `k` in the walk's tried set and map of counts. -/
def recordOf (acc : Finset ℤ × AList fun _ : ℤ => ℤ) (k : ℤ) : Bool × Option ℤ :=
  (decide (k ∈ acc.1), acc.2.lookup k)

/-- Every check of `Check_` on a consistent entry passes; a tried entry joins
the tried set and a new one the map of counts. -/
theorem checkEntry_eq {st : CAddrMan CNetAddr} (h : Consistent net st ∅ 0) {k : ℤ}
    {info : CAddrInfo CNetAddr} (hk : st.mapInfo.lookup k = some info)
    (acc : Finset ℤ × AList fun _ : ℤ => ℤ) :
    st.checkEntry acc ⟨k, info⟩ = .ok (if info.fInTried then (insert k acc.1, acc.2)
      else (acc.1, acc.2.insert k info.nRefCount)) := by
  obtain ⟨hpos, hlt, hat⟩ := h.random_pos k info hk
  obtain ⟨htry, hsucc⟩ := h.times k info hk
  have haddr := h.mapAddr_eq k info hk
  rw [List.getD_eq_getElem?_getD] at hat
  cases htried : info.fInTried
  · obtain ⟨-, hle, hne⟩ := h.new k info hk htried
    have hpos' := hne (Finset.notMem_empty k)
    simp [checkEntry, htried, not_lt.mpr hpos'.le, not_lt.mpr hle, hpos'.ne', haddr, not_lt.mpr hpos,
      not_le.mpr hlt, hat, not_lt.mpr htry, not_lt.mpr hsucc]
  · obtain ⟨hsucc', hzero, -⟩ := h.tried k info hk htried
    simp [checkEntry, htried, hsucc', hzero, haddr, not_lt.mpr hpos, not_le.mpr hlt, hat,
      not_lt.mpr htry, not_lt.mpr hsucc]

/-- The walk over the entries records each id as `entryRecord` says. -/
theorem checkEntries_eq {st : CAddrMan CNetAddr} (h : Consistent net st ∅ 0) :
    ∃ acc, (st.mapInfo.entries.insertionSort (fun a b => a.1 ≤ b.1)).foldlM st.checkEntry (∅, ∅) =
      .ok acc ∧ ∀ k, recordOf acc k = st.entryRecord k := by
  have hperm := List.perm_insertionSort (fun a b : (Σ _ : ℤ, CAddrInfo CNetAddr) => a.1 ≤ b.1)
    st.mapInfo.entries
  have hnd : (st.mapInfo.entries.insertionSort (fun a b => a.1 ≤ b.1)).NodupKeys :=
    (hperm.map Sigma.fst).nodup_iff.mpr st.mapInfo.nodupKeys
  have hacts : ∀ s ∈ st.mapInfo.entries.insertionSort (fun a b => a.1 ≤ b.1),
      LocalFold.ActsAt recordOf (st.checkEntry · s) s.1 (recordOf (∅, ∅) s.1)
        (fun o => o = st.entryRecord s.1) := by
    rintro ⟨k, info⟩ hs acc hacc
    have hk : st.mapInfo.lookup k = some info := AList.mem_lookup_iff.mpr (hperm.subset hs)
    simp only [recordOf, Finset.notMem_empty, decide_false, AList.lookup_empty,
      Prod.mk.injEq, decide_eq_false_iff_not] at hacc
    refine ⟨_, checkEntry_eq h hk acc, ?_, fun k' hk' => ?_⟩
    · cases htried : info.fInTried <;> simp [recordOf, entryRecord_some hk, htried, hacc.1, hacc.2]
    · cases info.fInTried <;> simp [recordOf, hk', AList.lookup_insert_ne hk']
  obtain ⟨acc, hfold, hrec⟩ := LocalFold.foldlM_eq_ok recordOf st.checkEntry
    (fun k o => o = st.entryRecord k) (∅, ∅) _ hnd hacts
  refine ⟨acc, hfold, fun k => ?_⟩
  by_cases hk : k ∈ (st.mapInfo.entries.insertionSort (fun a b => a.1 ≤ b.1)).keys
  · exact (hrec k).1 hk
  · -- an id the walk does not meet has no entry
    have hnone : st.mapInfo.lookup k = none := by
      rw [AList.lookup_eq_none, AList.mem_keys]
      exact fun hmem => hk ((hperm.map Sigma.fst).mem_iff.mpr hmem)
    rw [(hrec k).2 hk, entryRecord_none hnone]
    rfl

/-! ## The walks over the slots -/

/-- The id a slot of a table holds. -/
def holder (table : ℕ → ℕ → ℤ) (s : ℕ × ℕ) : Option ℤ :=
  if table s.1 s.2 = -1 then none else some (table s.1 s.2)

theorem holder_eq_some {table : ℕ → ℕ → ℤ} {s : ℕ × ℕ} {k : ℤ} (hk : k ≠ -1) :
    holder table s = some k ↔ table s.1 s.2 = k := by
  unfold holder
  split_ifs with h
  · simp only [false_iff]
    exact fun h' => hk (h' ▸ h)
  · exact Option.some_inj

/-- A slot holding `k` names an entry of the table's kind. -/
theorem lookup_of_holder {table : ℕ → ℕ → ℤ} {st : CAddrMan CNetAddr} {s : ℕ × ℕ} {k : ℤ}
    {P : CAddrInfo CNetAddr → Prop}
    (hslot : table s.1 s.2 ≠ -1 → ∃ info, st.mapInfo.lookup (table s.1 s.2) = some info ∧ P info)
    (hhold : holder table s = some k) : ∃ info, st.mapInfo.lookup k = some info ∧ P info := by
  unfold holder at hhold
  split_ifs at hhold with he
  cases hhold
  exact hslot he

/-- A tried entry is held by its own slot and no other. -/
theorem countP_holder_tried {st : CAddrMan CNetAddr} (h : Consistent net st ∅ 0) (k : ℤ) :
    (slots ADDRMAN_TRIED_BUCKET_COUNT).countP (fun s => holder st.vvTried s = some k) =
      if (st.entryRecord k).1 then 1 else 0 := by
  -- a slot holding `k` names `k`'s entry, tried and hashing to that slot
  have hheld : ∀ s ∈ slots ADDRMAN_TRIED_BUCKET_COUNT, holder st.vvTried s = some k →
      ∃ info, st.mapInfo.lookup k = some info ∧ info.fInTried = true ∧ st.triedSlot net info = s := by
    intro s hs hhold
    obtain ⟨hb, hi⟩ := mem_slots.mp hs
    exact lookup_of_holder (fun hne => h.tried_slot s.1 s.2 hb hi hne) hhold
  cases hk : st.mapInfo.lookup k with
  | none =>
    rw [entryRecord_none hk]
    refine List.countP_eq_zero.mpr fun s hs hhold => ?_
    obtain ⟨info, hinfo, -⟩ := hheld s hs (of_decide_eq_true hhold)
    rw [hk] at hinfo
    cases hinfo
  | some info =>
    rw [entryRecord_some hk]
    cases htried : info.fInTried
    · refine List.countP_eq_zero.mpr fun s hs hhold => ?_
      obtain ⟨info', hinfo', htried', -⟩ := hheld s hs (of_decide_eq_true hhold)
      rw [hk] at hinfo'
      cases hinfo'
      rw [htried] at htried'
      cases htried'
    · simp only [↓reduceIte]
      refine Tally.countP_eq_one _ _ (slots_nodup _) _ (triedSlot_mem net st info) fun s hs => ?_
      rw [decide_eq_true_eq]
      constructor
      · intro hhold
        obtain ⟨info', hinfo', -, hslot⟩ := hheld s hs hhold
        rw [hk] at hinfo'
        cases hinfo'
        exact hslot.symm
      · rintro rfl
        rw [holder_eq_some (h.ne_empty k info hk)]
        exact (h.tried k info hk htried).2.2

/-- A new entry is held by as many slots as `newRefs` says, and any other id
by none. -/
theorem countP_holder_new {st : CAddrMan CNetAddr} (h : Consistent net st ∅ 0) (k : ℤ) :
    (slots ADDRMAN_NEW_BUCKET_COUNT).countP (fun s => holder st.vvNew s = some k) =
      ((st.entryRecord k).2.getD 0).toNat := by
  have hheld : ∀ s ∈ slots ADDRMAN_NEW_BUCKET_COUNT, holder st.vvNew s = some k →
      ∃ info, st.mapInfo.lookup k = some info ∧ info.fInTried = false := by
    intro s hs hhold
    obtain ⟨hb, hi⟩ := mem_slots.mp hs
    obtain ⟨info, hinfo, htried, -⟩ :=
      lookup_of_holder (fun hne => h.new_slot s.1 s.2 hb hi hne) hhold
    exact ⟨info, hinfo, htried⟩
  cases hk : st.mapInfo.lookup k with
  | none =>
    rw [entryRecord_none hk]
    refine List.countP_eq_zero.mpr fun s hs hhold => ?_
    obtain ⟨info, hinfo, -⟩ := hheld s hs (of_decide_eq_true hhold)
    rw [hk] at hinfo
    cases hinfo
  | some info =>
    rw [entryRecord_some hk]
    cases htried : info.fInTried
    · obtain ⟨hrefs, -⟩ := h.new k info hk htried
      simp only [Bool.false_eq_true, ↓reduceIte, Option.getD_some, hrefs, Int.toNat_natCast]
      exact List.countP_congr fun s _ => by
        rw [decide_eq_true_eq, holder_eq_some (h.ne_empty k info hk), decide_eq_true_eq]
    · refine List.countP_eq_zero.mpr fun s hs hhold => ?_
      obtain ⟨info', hinfo', htried'⟩ := hheld s hs (of_decide_eq_true hhold)
      rw [hk] at hinfo'
      cases hinfo'
      rw [htried] at htried'
      cases htried'

variable [Inhabited CNetAddr]

/-- The walk over the tried slots meets every tried entry once, in its own
slot, and empties the tried set. -/
theorem checkTriedSlots_eq {st : CAddrMan CNetAddr} (h : Consistent net st ∅ 0)
    (setTried : Finset ℤ) (hset : ∀ k, k ∈ setTried ↔ (st.entryRecord k).1 = true) :
    ∃ setTried', (slots ADDRMAN_TRIED_BUCKET_COUNT).foldlM (st.checkTriedSlot net) setTried =
      .ok setTried' ∧ setTried'.card = 0 := by
  have hsteps : ∀ s ∈ slots ADDRMAN_TRIED_BUCKET_COUNT,
      Tally.Consumes (fun _ => True) (holder st.vvTried) (fun S k => if k ∈ S then 1 else 0)
        (st.checkTriedSlot net) s := by
    intro s hs S _ hpos
    obtain ⟨hb, hi⟩ := mem_slots.mp hs
    by_cases he : st.vvTried s.1 s.2 = -1
    · refine ⟨S, by simp [checkTriedSlot, he], trivial, fun k => ?_⟩
      simp [holder, he]
    · have hmem : st.vvTried s.1 s.2 ∈ S := by
        have hpos' := hpos (st.vvTried s.1 s.2) (by simp [holder, he])
        by_contra hn
        simp [hn] at hpos'
      obtain ⟨info, hinfo, -, hslot⟩ := h.tried_slot s.1 s.2 hb hi he
      simp only [triedSlot, Prod.mk.injEq] at hslot
      have hposition : info.GetBucketPosition net st.nKey false s.1 = s.2 := hslot.1 ▸ hslot.2
      refine ⟨S.erase (st.vvTried s.1 s.2), ?_, trivial, fun k => ?_⟩
      · simp [checkTriedSlot, he, hmem, info_of_lookup hinfo, hslot.1, hposition]
      · by_cases hk : k = st.vvTried s.1 s.2
        · subst hk
          simp [holder, he, hmem]
        · simp [holder, he, Finset.mem_erase, hk, Ne.symm hk]
  have hcount : ∀ k, (slots ADDRMAN_TRIED_BUCKET_COUNT).countP
      (fun s => holder st.vvTried s = some k) = if k ∈ setTried then 1 else 0 := by
    intro k
    rw [countP_holder_tried h]
    by_cases hk : k ∈ setTried
    · rw [if_pos ((hset k).mp hk), if_pos hk]
    · rw [if_neg fun h' => hk ((hset k).mpr h'), if_neg hk]
  obtain ⟨S', hfold, -, hrem⟩ := Tally.foldlM_consume _ _ _ _ _ setTried trivial hsteps
    fun k => (hcount k).le
  refine ⟨S', hfold, Finset.card_eq_zero.mpr (Finset.eq_empty_of_forall_notMem fun k hk => ?_)⟩
  -- each tried id has had its one slot taken away
  have := hrem k
  rw [hcount, if_pos hk, Nat.sub_self] at this
  exact one_ne_zero this

/-- The walk over the new slots meets every new entry as often as its count
says, each time at its own position, and empties the map of counts. -/
theorem checkNewSlots_eq {st : CAddrMan CNetAddr} (h : Consistent net st ∅ 0)
    (mapNew : AList fun _ : ℤ => ℤ) (hmap : ∀ k, mapNew.lookup k = (st.entryRecord k).2) :
    ∃ mapNew', (slots ADDRMAN_NEW_BUCKET_COUNT).foldlM (st.checkNewSlot net) mapNew =
      .ok mapNew' ∧ mapNew'.entries.length = 0 := by
  let rem : (AList fun _ : ℤ => ℤ) → ℤ → ℕ := fun m k => ((m.lookup k).getD 0).toNat
  let I : (AList fun _ : ℤ => ℤ) → Prop := fun m => ∀ k v, m.lookup k = some v → 0 < v
  have hsteps : ∀ s ∈ slots ADDRMAN_NEW_BUCKET_COUNT,
      Tally.Consumes I (holder st.vvNew) rem (st.checkNewSlot net) s := by
    intro s hs m hI hpos
    obtain ⟨hb, hi⟩ := mem_slots.mp hs
    by_cases he : st.vvNew s.1 s.2 = -1
    · refine ⟨m, by simp [checkNewSlot, he], hI, fun k => ?_⟩
      simp [holder, he]
    · obtain ⟨info, hinfo, -, hposition⟩ := h.new_slot s.1 s.2 hb hi he
      have hrem := hpos (st.vvNew s.1 s.2) (by simp [holder, he])
      obtain ⟨v, hv⟩ : ∃ v, m.lookup (st.vvNew s.1 s.2) = some v := by
        cases hl : m.lookup (st.vvNew s.1 s.2) with
        | none => simp [rem, hl] at hrem
        | some v => exact ⟨v, rfl⟩
      have hv0 := hI _ v hv
      have hhold : holder st.vvNew s = some (st.vvNew s.1 s.2) := by simp [holder, he]
      -- the counts of other ids stay as they are
      have hother : ∀ k, k ≠ st.vvNew s.1 s.2 → ∀ m' : AList fun _ : ℤ => ℤ,
          m'.lookup k = m.lookup k → rem m' k = rem m k - if holder st.vvNew s = some k then 1 else 0 := by
        intro k hk m' hm'
        rw [if_neg fun h' => hk (Option.some_inj.mp (h'.symm.trans hhold)), Nat.sub_zero]
        simp only [rem, hm']
      by_cases hv1 : v - 1 = 0
      · -- the last slot holding the id: its count leaves the map
        refine ⟨m.erase (st.vvNew s.1 s.2), ?_, fun k w hw => ?_, fun k => ?_⟩
        · simp [checkNewSlot, he, hv, info_of_lookup hinfo, hposition, hv1]
        · rw [AList.lookup_erase_ne (fun hk => by subst hk; simp at hw)] at hw
          exact hI k w hw
        · by_cases hk : k = st.vvNew s.1 s.2
          · subst hk
            simp only [rem, if_pos hhold, AList.lookup_erase, hv, Option.getD_none, Option.getD_some]
            omega
          · exact hother k hk _ (AList.lookup_erase_ne hk)
      · refine ⟨m.insert (st.vvNew s.1 s.2) (v - 1), ?_, fun k w hw => ?_, fun k => ?_⟩
        · simp [checkNewSlot, he, hv, info_of_lookup hinfo, hposition, hv1]
        · by_cases hk : k = st.vvNew s.1 s.2
          · subst hk
            rw [AList.lookup_insert] at hw
            cases hw
            omega
          · rw [AList.lookup_insert_ne hk] at hw
            exact hI k w hw
        · by_cases hk : k = st.vvNew s.1 s.2
          · subst hk
            simp only [rem, if_pos hhold, AList.lookup_insert, hv, Option.getD_some]
            omega
          · exact hother k hk _ (AList.lookup_insert_ne hk)
  have hI : I mapNew := by
    intro k v hv
    rw [hmap, entryRecord] at hv
    cases hk : st.mapInfo.lookup k with
    | none => simp [hk] at hv
    | some info =>
      rw [hk] at hv
      cases htried : info.fInTried
      · simp only [htried, Bool.false_eq_true, ↓reduceIte, Option.some_inj] at hv
        subst hv
        exact (h.new k info hk htried).2.2 (Finset.notMem_empty k)
      · simp [htried] at hv
  have hle : ∀ k, (slots ADDRMAN_NEW_BUCKET_COUNT).countP (fun s => holder st.vvNew s = some k) ≤
      rem mapNew k := by
    intro k
    rw [countP_holder_new h]
    show _ ≤ ((mapNew.lookup k).getD 0).toNat
    rw [hmap]
  obtain ⟨M', hfold, hI', hrem⟩ := Tally.foldlM_consume I _ rem _ _ mapNew hI hsteps hle
  refine ⟨M', hfold, ?_⟩
  -- every count is down to zero and no count was ever zero, so no entry is left
  have hnil : M'.entries = [] := by
    refine List.eq_nil_iff_forall_not_mem.mpr fun ⟨k, v⟩ hmem => ?_
    have hv : M'.lookup k = some v := AList.mem_lookup_iff.mpr hmem
    have := hrem k
    rw [countP_holder_new h, ← hmap, Nat.sub_self] at this
    have hv0 := hI' k v hv
    simp only [rem, hv, Option.getD_some] at this
    omega
  rw [hnil]
  rfl

/-! ## `Check_` -/

/-- A consistent state passes every check of `Check_`. -/
theorem check_eq_ok {st : CAddrMan CNetAddr} (h : Consistent net st ∅ 0) : st.check net = .ok () := by
  have hcount := List.length_eq_countP_add_countP (fun e : Σ _ : ℤ, CAddrInfo CNetAddr => e.2.fInTried)
    (l := st.mapInfo.entries)
  have hnew : st.mapInfo.entries.countP (fun e => decide ¬e.2.fInTried = true) =
      st.mapInfo.entries.countP (!·.2.fInTried) :=
    List.countP_congr fun e _ => by simp
  have h7 : (st.vRandom.length : ℤ) = st.nTried + st.nNew := by
    have := h.nNew_eq
    rw [length_vRandom h.toIndexed, hcount, hnew, h.nTried_eq]
    push_cast at this ⊢
    omega
  obtain ⟨acc, hfold, hrec⟩ := checkEntries_eq h
  have hmemTried : ∀ k, k ∈ acc.1 ↔ (st.entryRecord k).1 = true := by
    intro k
    rw [← hrec k, recordOf, decide_eq_true_eq]
  have hlookNew : ∀ k, acc.2.lookup k = (st.entryRecord k).2 := by
    intro k
    rw [← hrec k]
    rfl
  have h9 : (acc.1.card : ℤ) = st.nTried := by
    rw [h.nTried_eq, Tally.card_eq_countP_entries (fun e : Σ _ : ℤ, CAddrInfo CNetAddr => e.2.fInTried)
      st.mapInfo acc.1 fun k => by rw [hmemTried, entryRecord_fst]]
  have h10 : (acc.2.entries.length : ℤ) = st.nNew := by
    have := h.nNew_eq
    rw [Tally.length_eq_countP_entries (fun e : Σ _ : ℤ, CAddrInfo CNetAddr => !e.2.fInTried)
      st.mapInfo acc.2 fun k => by rw [← AList.lookup_isSome, hlookNew, entryRecord_snd_isSome]]
    push_cast at this
    omega
  obtain ⟨S', hS, hS0⟩ := checkTriedSlots_eq h acc.1 hmemTried
  obtain ⟨M', hM, hM0⟩ := checkNewSlots_eq h acc.2 hlookNew
  obtain ⟨S, M⟩ := acc
  unfold check
  simp only [h7, ne_eq, not_true_eq_false, ↓reduceIte, hfold, Check.ok_bind, h9, h10, hS, hS0, hM,
    hM0, h.key]
  rfl

/-- `Check_` returns `0` on a consistent state. -/
theorem Check_eq_zero {st : CAddrMan CNetAddr} (h : Consistent net st ∅ 0) : st.Check_ net = 0 := by
  rw [Check_, check_eq_ok h]

/-! ## A collision that `Check_` does not read

`Check_` reads the entries, `vRandom`, both tables and the counters, and not
`m_tried_collisions`.  `SelectTriedCollision_` reads the tried slot of the
collision it picks without asking whether the slot holds an entry, where
`ResolveCollisions_` does ask; on an empty slot `mapInfo[-1]` inserts a
default entry.  `Clear()` keeps `m_tried_collisions` while ids start again
from `0`, so a collision need not name the entry it was recorded for. -/

/-- `SelectTriedCollision_` on a single collision whose tried slot is empty:
the read of `mapInfo[-1]` inserts a default entry. -/
theorem selectTriedCollision_of_empty_slot {st : CAddrMan CNetAddr} {id_new : ℤ}
    {info : CAddrInfo CNetAddr} (hcoll : st.m_tried_collisions = {id_new})
    (hinfo : st.mapInfo.lookup id_new = some info)
    (hempty : st.vvTried (st.triedSlot net info).1 (st.triedSlot net info).2 = -1)
    (hfresh : st.mapInfo.lookup (-1) = none) (nRnd : ℕ) :
    st.selectTriedCollision net nRnd =
      (CAddrInfo.default, { st with mapInfo := st.mapInfo.insert (-1) CAddrInfo.default }) := by
  -- a single collision is picked whatever the draw
  have hpick :
      (st.m_tried_collisions.sort (· ≤ ·)).getD (nRnd % st.m_tried_collisions.card) 0 = id_new := by
    simp [hcoll, Nat.mod_one]
  rw [selectTriedCollision, if_neg (by simp [hcoll]), hpick]
  dsimp only
  rw [hinfo]
  dsimp only
  rw [triedSlot] at hempty
  rw [hempty, mapInfoAt, hfresh]

/-- A default entry at `-1`, below every id, is the first entry `Check_`
walks; it is new and held by no slot, so `Check_` stops at `-4`. -/
theorem Check_insert_default {st : CAddrMan CNetAddr}
    (hlen : (st.vRandom.length : ℤ) = st.nTried + st.nNew) (hids : ∀ k ∈ st.mapInfo, -1 < k) :
    ({ st with mapInfo := st.mapInfo.insert (-1 : ℤ) (CAddrInfo.default : CAddrInfo CNetAddr) } :
      CAddrMan CNetAddr).Check_ net = -4 := by
  have hfresh : (-1 : ℤ) ∉ st.mapInfo := fun h => lt_irrefl _ (hids _ h)
  -- the default entry is the first the walk meets
  have hsort :
      (st.mapInfo.insert (-1 : ℤ) (CAddrInfo.default : CAddrInfo CNetAddr)).entries.insertionSort
          (fun a b => a.1 ≤ b.1) =
        ⟨-1, CAddrInfo.default⟩ :: st.mapInfo.entries.insertionSort (fun a b => a.1 ≤ b.1) := by
    rw [AList.entries_insert_of_notMem hfresh]
    exact List.insertionSort_cons_of_forall_rel _ fun (b : Σ _ : ℤ, CAddrInfo CNetAddr) hb =>
      (hids b.1 (AList.mem_keys.mpr (List.mem_keys_of_mem hb))).le
  have hentry : ∀ (st' : CAddrMan CNetAddr) acc,
      st'.checkEntry acc ⟨-1, CAddrInfo.default⟩ = .error (-4) := by
    intro st' acc
    simp [checkEntry, CAddrInfo.default, CAddrInfo.ofAddress, ADDRMAN_NEW_BUCKETS_PER_ADDRESS]
    rfl
  simp only [Check_, check, hlen, ne_eq, not_true_eq_false, ↓reduceIte, hsort, List.foldlM_cons, hentry]
  rfl

/-- The addresses of `collisionState`: one address, and every hash zero. -/
def collisionNet : AddrNet Unit :=
  ⟨fun _ => true, fun _ => true, fun _ _ => 0, fun _ _ _ => 0, fun _ _ _ _ => 0⟩

/-- The one entry of `collisionState`: new, held by one slot, first in `vRandom`. -/
def collisionEntry : CAddrInfo Unit :=
  { CAddrInfo.ofAddress ⟨⟨(), 0⟩, 0, 0⟩ () with nRefCount := 1, nRandomPos := 0 }

/-- A state whose one collision names a new entry, and whose tried table is
empty: the collision's tried slot holds nothing. -/
def collisionState : CAddrMan Unit where
  nIdCount := 1
  mapInfo := AList.singleton 0 collisionEntry
  mapAddr := fun _ => some 0
  vRandom := [0]
  nTried := 0
  vvTried := fun _ _ => -1
  nNew := 1
  vvNew := setSlot (fun _ _ => -1) 0 0 0
  nLastGood := 1
  m_tried_collisions := {0}
  nKey := 1

theorem lookup_collisionState {k : ℤ} {info : CAddrInfo Unit} :
    collisionState.mapInfo.lookup k = some info ↔ k = 0 ∧ info = collisionEntry := by
  rw [collisionState, AList.lookup, AList.singleton_entries]
  by_cases hk : k = 0
  · subst hk
    rw [List.dlookup_cons_eq, Option.some.injEq, eq_comm]
    simp
  · rw [List.dlookup_cons_ne _ _ hk, List.dlookup_nil]
    simp [hk]

theorem mem_mapInfo_collisionState {k : ℤ} : k ∈ collisionState.mapInfo ↔ k = 0 := by
  rw [AList.mem_keys]
  simp [collisionState, AList.keys_singleton]

/-- Entry `0` is held by the one slot `(0, 0)` of the new table. -/
theorem newRefs_collisionState : collisionState.newRefs 0 = 1 := by
  have hcount : collisionState.newRefs 0 = (slots ADDRMAN_NEW_BUCKET_COUNT).count (0, 0) :=
    List.countP_congr fun s _ => by
      obtain ⟨b, i⟩ := s
      simp [collisionState, setSlot]
  rw [hcount, List.count_eq_one_of_mem (slots_nodup _) (mem_slots.mpr ⟨by decide, by decide⟩)]

/-- `Check_` accepts `collisionState`: it never reads `m_tried_collisions`. -/
theorem collisionState_consistent : Consistent collisionNet collisionState ∅ 0 where
  ne_empty k info h := by
    obtain ⟨rfl, -⟩ := lookup_collisionState.mp h
    decide
  mapAddr_eq k info h := by
    obtain ⟨rfl, -⟩ := lookup_collisionState.mp h
    rfl
  random_nodup := by decide
  mem_random k := by
    rw [mem_mapInfo_collisionState]
    simp [collisionState]
  random_pos k info h := by
    obtain ⟨rfl, rfl⟩ := lookup_collisionState.mp h
    decide
  times k info h := by
    obtain ⟨-, rfl⟩ := lookup_collisionState.mp h
    decide
  tried k info h htried := by
    obtain ⟨-, rfl⟩ := lookup_collisionState.mp h
    cases htried
  new k info h _ := by
    obtain ⟨rfl, rfl⟩ := lookup_collisionState.mp h
    refine ⟨by rw [newRefs_collisionState]; rfl, by decide, fun _ => by decide⟩
  tried_slot b i _ _ h := absurd rfl h
  new_slot b i _ _ h := by
    have hslot : b = 0 ∧ i = 0 := by
      by_contra hne
      exact h (by simp [collisionState, setSlot, hne])
    obtain ⟨rfl, rfl⟩ := hslot
    exact ⟨collisionEntry, rfl, rfl, rfl⟩
  nTried_eq := rfl
  nNew_eq := rfl
  key := by decide

end CAddrMan

end XPChain
