import XPChain.Wallet.WalletDB
import XPChain.Miner.Stake

/-!
# The staking reward setting page

The wallet's reward distribution, `CWallet::vRewardDistributionPcts`, is set
in two places: the Qt page `StakingRewardSettingPage`, whose OK button hands
the page's rows to `setRewardDistributionPcts`, and the wallet loader, which
takes the `rewarddistpcts` record as it is (`XPChain.Wallet.WalletDB`).  The
minter's `GetRewardPct` asserts that the percentages sum to at most 100.

The page edits a table model, `StakingRewardSettingTableModel`, built afresh
from the wallet's list each time the page opens.  Rows are added through
`addRow`, edited through `setData` and removed through `removeRows`; each
checks the address and a percentage from 1 to 100.  The page's total is kept
in a `uint8_t`, so it is the true total modulo 256.

The view reads the table through a sort-and-filter proxy: the rows the search
filter accepts, sorted by label.  Labels live in the address book and are not
modelled, so the rows keep the table's order; nothing below depends on it.

## Main definitions

* `StakingRewardSettingTableModel`, `addRow`, `setData`, `removeRow`.
* `totalPcts`, `calculateSurplus`, `onOkButtonClicked`.
* `openStakingRewardSettings` — one opening of the page, from the wallet's list.
* `RewardDistributionEvent` — what sets `vRewardDistributionPcts`.

## Main statements

* `toNat_totalPcts` — the page's total is the true total modulo 256.
* `tableValid_apply` — every edit keeps each row's address valid and its
  percentage within 1 to 100.
* `rewardDistributionInv_foldl` — every run of page sessions stores valid
  rows whose total is at most 100 modulo 256.
* `getRewardPct_eq_none_iff_of_inv` — on such a list the minter's `assert`
  fails exactly when the true total reaches 256.
* `getRewardPct_after_pageSessions` — the two together, over a run.
* `openStakingRewardSettings_wrapsTotal` — the page stores a list of total
  256, and the loader a list with an address that does not decode.
-/

set_option autoImplicit false

namespace XPChain

open CTxDestination

/-- `IsValidDestinationString`: the string decodes to a destination. -/
def isValidDestinationString (DecodeDestination : List UInt8 → CTxDestination)
    (str : List UInt8) : Bool :=
  DecodeDestination str != CNoDestination

/-! ## The table model -/

/-- A row of the table: the address and its percentage. -/
structure StakingRewardSettingTableEntry where
  address : List UInt8
  distributionPercentage : UInt8
  deriving DecidableEq, Repr

/-- `StakingRewardSettingTableModel::EditStatus`. -/
inductive EditStatus
  | OK
  | NO_CHANGES
  | INVALID_ADDRESS
  | DUPLICATE_ADDRESS
  | INVALID_PERCENTAGE
  deriving DecidableEq, Repr

/-- The table model: its rows and the status of the last edit. -/
structure StakingRewardSettingTableModel where
  settingEntriesTable : List StakingRewardSettingTableEntry
  editStatus : EditStatus

/-- `refreshAddressTable`: the wallet's list as rows, sorted by address. -/
def refreshAddressTable (pcts : List (List UInt8 × UInt8)) : List StakingRewardSettingTableEntry :=
  (pcts.map fun p => ⟨p.1, p.2⟩).mergeSort fun a b => !decide (b.address < a.address)

/-- `lookupAddress`: the first row with the address, `none` for `-1`. -/
def lookupAddress (table : List StakingRewardSettingTableEntry) (address : List UInt8) :
    Option ℕ :=
  table.findIdx? fun e => e.address == address

/-- The lower index of `findEntry`: `qLowerBound` on the sorted table, the
number of rows whose address is below the new one. -/
def lowerIndex (table : List StakingRewardSettingTableEntry) (address : List UInt8) : ℕ :=
  (table.takeWhile fun e => decide (e.address < address)).length

/-- `StakingRewardSettingTableModel::addRow` as `EditStakingRewardDistributionDialog`
calls it: the address, or `none` (an empty `QString`) with the edit status
saying why. -/
def addRow (DecodeDestination : List UInt8 → CTxDestination) (m : StakingRewardSettingTableModel)
    (address : List UInt8) (percentage : UInt8) :
    Option (List UInt8) × StakingRewardSettingTableModel :=
  if !isValidDestinationString DecodeDestination address then
    (none, { m with editStatus := .INVALID_ADDRESS })
  else if (lookupAddress m.settingEntriesTable address).isSome then
    (none, { m with editStatus := .DUPLICATE_ADDRESS })
  else if percentage = 0 ∨ 100 < percentage then
    (none, { m with editStatus := .INVALID_PERCENTAGE })
  else
    (some address, ⟨m.settingEntriesTable.insertIdx (lowerIndex m.settingEntriesTable address)
      ⟨address, percentage⟩, .OK⟩)

/-- An edit of one cell of the table through the view's delegate.  Label
edits go to the address book and leave the rows as they are. -/
inductive CellEdit
  | Address (value : List UInt8)
  | DistributionPercentage (pct : UInt8)

/-- `StakingRewardSettingTableModel::setData` with `Qt::EditRole`.  The new
address is compared with the old one as decoded destinations, and written
in place, without sorting the table again. -/
def setData (DecodeDestination : List UInt8 → CTxDestination) (m : StakingRewardSettingTableModel)
    (row : ℕ) : CellEdit → Bool × StakingRewardSettingTableModel
  | .Address value =>
    match m.settingEntriesTable[row]? with
    | none => (false, m)
    | some rec =>
      let newAddress := DecodeDestination value
      if newAddress = CNoDestination then (false, { m with editStatus := .INVALID_ADDRESS })
      else if newAddress = DecodeDestination rec.address then
        (false, { m with editStatus := .NO_CHANGES })
      else if (lookupAddress m.settingEntriesTable value).isSome then
        (false, { m with editStatus := .DUPLICATE_ADDRESS })
      else (true, ⟨m.settingEntriesTable.set row { rec with address := value }, .OK⟩)
  | .DistributionPercentage pct =>
    match m.settingEntriesTable[row]? with
    | none => (false, m)
    | some rec =>
      if pct = 0 ∨ 100 < pct then (false, { m with editStatus := .INVALID_PERCENTAGE })
      else (true, ⟨m.settingEntriesTable.set row { rec with distributionPercentage := pct }, .OK⟩)

/-- `removeRows(row, 1)` as `on_deleteAddress_clicked` calls it on the
selected row: the range `findEntry` finds for the row's address goes, which
on the sorted table is every row with that address. -/
def removeRow (m : StakingRewardSettingTableModel) (row : ℕ) :
    Bool × StakingRewardSettingTableModel :=
  match m.settingEntriesTable[row]? with
  | none => (false, m)
  | some rec =>
    (true, { m with settingEntriesTable := m.settingEntriesTable.filter fun e => e.address != rec.address })

/-! ## The page -/

/-- The total `calculateSurplus` and `on_okButton_clicked` add up in a `uint8_t`. -/
def totalPcts (rows : List StakingRewardSettingTableEntry) : UInt8 :=
  rows.foldl (fun total e => total + e.distributionPercentage) 0

/-- `calculateSurplus`: the text of `labelSurplus` and whether the OK button
is enabled. -/
def calculateSurplus (rows : List StakingRewardSettingTableEntry) : String × Bool :=
  let total := totalPcts rows
  if total = 0 then ("An entire reward will be sent to the captal address.", true)
  else if total < 100 then
    ("About " ++ toString (100 - total.toNat) ++
      "% remaining of a reward will be sent back to the captal address.", true)
  else if total = 100 then ("Almost all reward will be sent as above.", true)
  else ("The total of distribution percentage must be 100% or less.", false)

/-- `on_okButton_clicked`: the list the page returns when it accepts, or the
text of the message box when it does not. -/
def onOkButtonClicked (rows : List StakingRewardSettingTableEntry) :
    Except String (List (List UInt8 × UInt8)) :=
  if 100 < totalPcts rows then .error "The total of distribution percentage must be 100% or less."
  else .ok (rows.map fun e => (e.address, e.distributionPercentage))

/-- What the user does to the table while the page is open. -/
inductive TableAction
  | addRow (address : List UInt8) (percentage : UInt8)
  | setData (row : ℕ) (edit : CellEdit)
  | removeRow (row : ℕ)

/-- The table after one action. -/
def TableAction.apply (DecodeDestination : List UInt8 → CTxDestination)
    (m : StakingRewardSettingTableModel) : TableAction → StakingRewardSettingTableModel
  | .addRow address percentage => (XPChain.addRow DecodeDestination m address percentage).2
  | .setData row edit => (XPChain.setData DecodeDestination m row edit).2
  | .removeRow row => (XPChain.removeRow m row).2

/-- How the page is closed: OK, with the filter of the search box, or Cancel. -/
inductive PageClose
  | okButton (filterAcceptsRow : StakingRewardSettingTableEntry → Bool)
  | cancelButton

/-- `WalletView::openStakingRewardSettings`: a table model built from the
wallet's list, the user's edits, and on acceptance the page's list for
`setRewardDistributionPcts`.  An OK the page refuses leaves it open, so a
session is closed by its last OK or by Cancel. -/
def openStakingRewardSettings (DecodeDestination : List UInt8 → CTxDestination)
    (pcts : List (List UInt8 × UInt8)) (actions : List TableAction) :
    PageClose → List (List UInt8 × UInt8)
  | .cancelButton => pcts
  | .okButton filterAcceptsRow =>
    let m := actions.foldl (TableAction.apply DecodeDestination) ⟨refreshAddressTable pcts, .OK⟩
    match onOkButtonClicked (m.settingEntriesTable.filter filterAcceptsRow) with
    | .ok vPcts => vPcts
    | .error _ => pcts

/-- What sets `vRewardDistributionPcts`: a session of the page, or the wallet
loader reading a `rewarddistpcts` record (a record it cannot read leaves the
list as it was). -/
inductive RewardDistributionEvent
  | openStakingRewardSettings (actions : List TableAction) (close : PageClose)
  | loadRecord (ssValue : List UInt8)

/-- The wallet's list after one event. -/
def RewardDistributionEvent.apply (DecodeDestination : List UInt8 → CTxDestination)
    (pcts : List (List UInt8 × UInt8)) : RewardDistributionEvent → List (List UInt8 × UInt8)
  | .openStakingRewardSettings actions close =>
    XPChain.openStakingRewardSettings DecodeDestination pcts actions close
  | .loadRecord ssValue => (readKeyValueRewardDistPcts ssValue).getD pcts

/-! ## The page's checks over whole runs -/

theorem percentage_checks_iff (pct : UInt8) :
    ¬ (pct = 0 ∨ 100 < pct) ↔ 1 ≤ pct.toNat ∧ pct.toNat ≤ 100 := by
  rw [UInt8.lt_iff_toNat_lt, ← UInt8.toNat_inj]
  simp only [UInt8.toNat_zero, not_or]
  show ¬pct.toNat = 0 ∧ ¬100 < pct.toNat ↔ _
  omega

theorem toNat_foldl_add (rows : List StakingRewardSettingTableEntry) (init : UInt8) :
    (rows.foldl (fun total e => total + e.distributionPercentage) init).toNat =
      (init.toNat + (rows.map fun e => e.distributionPercentage.toNat).sum) % 256 := by
  induction rows generalizing init with
  | nil => simp
  | cons e rows ih =>
    rw [List.foldl_cons, ih, UInt8.toNat_add, List.map_cons, List.sum_cons]
    omega

/-- The page's total is the true total modulo 256. -/
theorem toNat_totalPcts (rows : List StakingRewardSettingTableEntry) :
    (totalPcts rows).toNat = (rows.map fun e => e.distributionPercentage.toNat).sum % 256 := by
  simp [totalPcts, toNat_foldl_add]

/-- The OK button accepts exactly when the total modulo 256 is at most 100,
and then returns the rows. -/
theorem onOkButtonClicked_eq_ok_iff {rows : List StakingRewardSettingTableEntry}
    {vPcts : List (List UInt8 × UInt8)} :
    onOkButtonClicked rows = .ok vPcts ↔
      (rows.map fun e => e.distributionPercentage.toNat).sum % 256 ≤ 100 ∧
        vPcts = rows.map fun e => (e.address, e.distributionPercentage) := by
  have htotal : (100 < totalPcts rows) ↔ 100 < (rows.map fun e => e.distributionPercentage.toNat).sum % 256 := by
    rw [UInt8.lt_iff_toNat_lt, toNat_totalPcts]
    rfl
  unfold onOkButtonClicked
  by_cases h : 100 < totalPcts rows
  · simp only [if_pos h, reduceCtorEq, false_iff, not_and]
    intro hle
    exact absurd (htotal.mp h) (Nat.not_lt.mpr hle)
  · simp only [if_neg h, Except.ok.injEq]
    constructor
    · rintro rfl
      exact ⟨Nat.not_lt.mp (mt htotal.mpr h), rfl⟩
    · rintro ⟨-, rfl⟩
      rfl


section Invariant

variable (DecodeDestination : List UInt8 → CTxDestination)

/-- What the page's checks ask of a row: an address that decodes and a
percentage from 1 to 100. -/
def EntryValid (e : StakingRewardSettingTableEntry) : Prop :=
  isValidDestinationString DecodeDestination e.address = true ∧
    1 ≤ e.distributionPercentage.toNat ∧ e.distributionPercentage.toNat ≤ 100

/-- Every row of a table passes the page's checks. -/
def TableValid (m : StakingRewardSettingTableModel) : Prop :=
  ∀ e ∈ m.settingEntriesTable, EntryValid DecodeDestination e

/-- Every entry of a wallet list passes the page's checks. -/
def PctsValid (pcts : List (List UInt8 × UInt8)) : Prop :=
  ∀ p ∈ pcts, EntryValid DecodeDestination ⟨p.1, p.2⟩

/-- What the page can store: rows that pass its checks, whose total is at
most 100 modulo 256. -/
def RewardDistributionInv (pcts : List (List UInt8 × UInt8)) : Prop :=
  PctsValid DecodeDestination pcts ∧ (pcts.map fun p => p.2.toNat).sum % 256 ≤ 100

variable {DecodeDestination}

theorem lowerIndex_le (table : List StakingRewardSettingTableEntry) (address : List UInt8) :
    lowerIndex table address ≤ table.length :=
  (List.takeWhile_prefix _).length_le

/-- `addRow` either leaves the rows as they are, or has passed its three
checks and added one row. -/
theorem settingEntriesTable_addRow (m : StakingRewardSettingTableModel) (address : List UInt8)
    (percentage : UInt8) :
    (addRow DecodeDestination m address percentage).2.settingEntriesTable =
        m.settingEntriesTable ∨
      (isValidDestinationString DecodeDestination address = true ∧
        lookupAddress m.settingEntriesTable address = none ∧
        1 ≤ percentage.toNat ∧ percentage.toNat ≤ 100 ∧
        (addRow DecodeDestination m address percentage).2.settingEntriesTable.Perm
          (⟨address, percentage⟩ :: m.settingEntriesTable)) := by
  unfold addRow
  split_ifs with hvalid hdup hpct
  · exact .inl rfl
  · exact .inl rfl
  · exact .inl rfl
  · obtain ⟨hlo, hhi⟩ := (percentage_checks_iff _).mp hpct
    exact .inr ⟨by simpa using hvalid, by simpa using hdup, hlo, hhi,
      List.perm_insertIdx _ _ (lowerIndex_le _ _)⟩

theorem tableValid_addRow {m : StakingRewardSettingTableModel} (hm : TableValid DecodeDestination m)
    (address : List UInt8) (percentage : UInt8) :
    TableValid DecodeDestination (addRow DecodeDestination m address percentage).2 := by
  intro e he
  rcases settingEntriesTable_addRow m address percentage with h | ⟨hvalid, -, hlo, hhi, hperm⟩
  · exact hm e (h ▸ he)
  · rcases List.mem_cons.mp (hperm.mem_iff.mp he) with rfl | he
    · exact ⟨hvalid, hlo, hhi⟩
    · exact hm e he

theorem tableValid_setData {m : StakingRewardSettingTableModel} (hm : TableValid DecodeDestination m)
    (row : ℕ) (edit : CellEdit) :
    TableValid DecodeDestination (setData DecodeDestination m row edit).2 := by
  intro e he
  cases edit with
  | Address value =>
    simp only [setData] at he
    cases hrow : m.settingEntriesTable[row]? with
    | none => simp only [hrow] at he; exact hm e he
    | some rec =>
      have hrec : rec ∈ m.settingEntriesTable := List.mem_of_getElem? hrow
      simp only [hrow] at he
      split_ifs at he with hno hsame hdup
      · exact hm e he
      · exact hm e he
      · exact hm e he
      · rcases List.mem_or_eq_of_mem_set he with he | rfl
        · exact hm e he
        · exact ⟨by simpa [isValidDestinationString] using hno, (hm rec hrec).2⟩
  | DistributionPercentage pct =>
    simp only [setData] at he
    cases hrow : m.settingEntriesTable[row]? with
    | none => simp only [hrow] at he; exact hm e he
    | some rec =>
      have hrec : rec ∈ m.settingEntriesTable := List.mem_of_getElem? hrow
      simp only [hrow] at he
      split_ifs at he with hpct
      · exact hm e he
      · rcases List.mem_or_eq_of_mem_set he with he | rfl
        · exact hm e he
        · exact ⟨(hm rec hrec).1, (percentage_checks_iff pct).mp hpct⟩

theorem tableValid_removeRow {m : StakingRewardSettingTableModel}
    (hm : TableValid DecodeDestination m) (row : ℕ) :
    TableValid DecodeDestination (removeRow m row).2 := by
  intro e he
  unfold removeRow at he
  cases hrow : m.settingEntriesTable[row]? with
  | none => simp only [hrow] at he; exact hm e he
  | some rec =>
    simp only [hrow, List.mem_filter] at he
    exact hm e he.1

/-- Every edit keeps every row valid. -/
theorem tableValid_apply {m : StakingRewardSettingTableModel} (hm : TableValid DecodeDestination m) :
    ∀ action : TableAction, TableValid DecodeDestination (action.apply DecodeDestination m)
  | .addRow address percentage => tableValid_addRow hm address percentage
  | .setData row edit => tableValid_setData hm row edit
  | .removeRow row => tableValid_removeRow hm row

/-- So does every sequence of edits. -/
theorem tableValid_foldl (actions : List TableAction) :
    ∀ {m : StakingRewardSettingTableModel}, TableValid DecodeDestination m →
      TableValid DecodeDestination (actions.foldl (TableAction.apply DecodeDestination) m) := by
  induction actions with
  | nil => exact id
  | cons action actions ih => exact fun hm => ih (tableValid_apply hm action)

theorem tableValid_refreshAddressTable {pcts : List (List UInt8 × UInt8)}
    (h : PctsValid DecodeDestination pcts) (editStatus : EditStatus) :
    TableValid DecodeDestination ⟨refreshAddressTable pcts, editStatus⟩ := by
  intro e he
  have he' := (List.mergeSort_perm _ _).mem_iff.mp he
  obtain ⟨p, hp, rfl⟩ := List.mem_map.mp he'
  exact h p hp

/-- One opening of the page keeps the invariant. -/
theorem rewardDistributionInv_openStakingRewardSettings {pcts : List (List UInt8 × UInt8)}
    (h : RewardDistributionInv DecodeDestination pcts) (actions : List TableAction)
    (close : PageClose) :
    RewardDistributionInv DecodeDestination
      (openStakingRewardSettings DecodeDestination pcts actions close) := by
  cases close with
  | cancelButton => exact h
  | okButton filterAcceptsRow =>
    simp only [openStakingRewardSettings]
    split
    · next vPcts hok =>
      obtain ⟨hsum, rfl⟩ := onOkButtonClicked_eq_ok_iff.mp hok
      have hvalid := tableValid_foldl actions (tableValid_refreshAddressTable h.1 .OK)
      refine ⟨?_, by simpa [Function.comp_def] using hsum⟩
      intro p hp
      obtain ⟨e, he, rfl⟩ := List.mem_map.mp hp
      exact hvalid e (List.mem_filter.mp he).1
    · exact h

/-- Every page session keeps the invariant; the wallet loader is the one
event that can break it. -/
theorem rewardDistributionInv_foldl (events : List RewardDistributionEvent)
    (hpage : ∀ ev ∈ events, ∃ actions close,
      ev = RewardDistributionEvent.openStakingRewardSettings actions close) :
    ∀ {pcts : List (List UInt8 × UInt8)}, RewardDistributionInv DecodeDestination pcts →
      RewardDistributionInv DecodeDestination
        (events.foldl (RewardDistributionEvent.apply DecodeDestination) pcts) := by
  induction events with
  | nil => exact id
  | cons ev events ih =>
    intro pcts h
    obtain ⟨actions, close, rfl⟩ := hpage ev List.mem_cons_self
    exact ih (fun ev' hev' => hpage ev' (List.mem_cons_of_mem _ hev'))
      (rewardDistributionInv_openStakingRewardSettings h actions close)

/-- On a list the page can store, `GetRewardPct` fails exactly when the true
total reaches 256, where the page's `uint8_t` total has wrapped. -/
theorem getRewardPct_eq_none_iff_of_inv {pcts : List (List UInt8 × UInt8)}
    (h : RewardDistributionInv DecodeDestination pcts) (defaultDestination : CTxDestination) :
    getRewardPct DecodeDestination pcts defaultDestination = none ↔
      256 ≤ (pcts.map fun p => p.2.toNat).sum := by
  rw [getRewardPct_eq_none_iff]
  have := h.2
  omega

/-- Over any run of page sessions from a list the page could have stored, the
wallet's list keeps the page's checks, and the minter's `assert` fails
exactly when the true total of that list reaches 256. -/
theorem getRewardPct_after_pageSessions (events : List RewardDistributionEvent)
    (hpage : ∀ ev ∈ events, ∃ actions close,
      ev = RewardDistributionEvent.openStakingRewardSettings actions close)
    {pcts : List (List UInt8 × UInt8)} (h : RewardDistributionInv DecodeDestination pcts)
    (defaultDestination : CTxDestination) :
    RewardDistributionInv DecodeDestination
        (events.foldl (RewardDistributionEvent.apply DecodeDestination) pcts) ∧
      (getRewardPct DecodeDestination (events.foldl (RewardDistributionEvent.apply DecodeDestination) pcts)
          defaultDestination = none ↔
        256 ≤ ((events.foldl (RewardDistributionEvent.apply DecodeDestination) pcts).map
          fun p => p.2.toNat).sum) :=
  have hinv := rewardDistributionInv_foldl events hpage h
  ⟨hinv, getRewardPct_eq_none_iff_of_inv hinv defaultDestination⟩

/-- One session that adds a row at 60% and closes with OK, from an empty list. -/
theorem getRewardPct_after_pageSessions_oneRow :
    RewardDistributionInv (fun a => if a = [] then CNoDestination else CKeyID a) [] ∧
      (∀ ev ∈ [RewardDistributionEvent.openStakingRewardSettings [.addRow [1] 60] (.okButton fun _ => true)],
        ∃ actions close, ev = RewardDistributionEvent.openStakingRewardSettings actions close) ∧
      RewardDistributionInv (fun a => if a = [] then CNoDestination else CKeyID a)
        ([RewardDistributionEvent.openStakingRewardSettings [.addRow [1] 60] (.okButton fun _ => true)].foldl
          (RewardDistributionEvent.apply fun a => if a = [] then CNoDestination else CKeyID a) []) ∧
      (getRewardPct (fun a => if a = [] then CNoDestination else CKeyID a)
          ([RewardDistributionEvent.openStakingRewardSettings [.addRow [1] 60] (.okButton fun _ => true)].foldl
            (RewardDistributionEvent.apply fun a => if a = [] then CNoDestination else CKeyID a) [])
          CNoDestination = none ↔
        256 ≤ (([RewardDistributionEvent.openStakingRewardSettings [.addRow [1] 60] (.okButton fun _ => true)].foldl
          (RewardDistributionEvent.apply fun a => if a = [] then CNoDestination else CKeyID a) []).map
            fun p => p.2.toNat).sum) :=
  have h : RewardDistributionInv (fun a => if a = [] then CNoDestination else CKeyID a) [] :=
    ⟨fun _ hp => absurd hp List.not_mem_nil, by decide⟩
  have hpage : ∀ ev ∈ [RewardDistributionEvent.openStakingRewardSettings [.addRow [1] 60]
      (.okButton fun _ => true)], ∃ actions close,
        ev = RewardDistributionEvent.openStakingRewardSettings actions close := by
    simp
  ⟨h, hpage, getRewardPct_after_pageSessions _ hpage h CNoDestination⟩

/-- `addRow` of a valid, new address with a percentage from 1 to 100 adds its row. -/
theorem addRow_of_fresh {m : StakingRewardSettingTableModel} {address : List UInt8}
    {percentage : UInt8} (hvalid : isValidDestinationString DecodeDestination address = true)
    (hfresh : ∀ e ∈ m.settingEntriesTable, e.address ≠ address)
    (hlo : 1 ≤ percentage.toNat) (hhi : percentage.toNat ≤ 100) :
    (addRow DecodeDestination m address percentage).2.settingEntriesTable.Perm
      (⟨address, percentage⟩ :: m.settingEntriesTable) := by
  have hlookup : lookupAddress m.settingEntriesTable address = none := by
    simpa [lookupAddress, List.findIdx?_eq_none_iff] using hfresh
  have hpct : ¬ (percentage = 0 ∨ 100 < percentage) := (percentage_checks_iff _).mpr ⟨hlo, hhi⟩
  simp only [addRow, hvalid, Bool.not_true, Bool.false_eq_true, if_false, hlookup,
    Option.isSome_none, if_neg hpct]
  exact List.perm_insertIdx _ _ (lowerIndex_le _ _)

end Invariant

/-- The page stores a list whose true total is 256, and the loader a list
with an address that does not decode.  Three valid, distinct addresses
added at 100%, 100% and 56% make the page's `uint8_t` total wrap to 0, so
the OK button is enabled and the list is stored; `GetRewardPct` then fails
its `assert`.  A `rewarddistpcts` record for an address that decodes to
`CNoDestination` is loaded as it is, and `CreateNewBlock` pays a share of
the reward to the empty script. -/
theorem openStakingRewardSettings_wrapsTotal (DecodeDestination : List UInt8 → CTxDestination)
    (defaultDestination : CTxDestination) (nBlockReward : CAmount) (a₁ a₂ a₃ a₀ : List UInt8)
    (hv₁ : isValidDestinationString DecodeDestination a₁ = true)
    (hv₂ : isValidDestinationString DecodeDestination a₂ = true)
    (hv₃ : isValidDestinationString DecodeDestination a₃ = true)
    (h₁₂ : a₁ ≠ a₂) (h₁₃ : a₁ ≠ a₃) (h₂₃ : a₂ ≠ a₃)
    (hbad : DecodeDestination a₀ = CNoDestination) (hlen : a₀.length ≤ MAX_SIZE) :
    let page := RewardDistributionEvent.openStakingRewardSettings
      [.addRow a₁ 100, .addRow a₂ 100, .addRow a₃ 56] (.okButton fun _ => true)
    let pcts := page.apply DecodeDestination []
    let record := RewardDistributionEvent.loadRecord (serializeRewardDistPcts [(a₀, 50)])
    (pcts.map fun p => p.2.toNat).sum = 256 ∧
      getRewardPct DecodeDestination pcts defaultDestination = none ∧
      record.apply DecodeDestination [] = [(a₀, 50)] ∧
      ∃ rewardPct, getRewardPct DecodeDestination [(a₀, 50)] defaultDestination = some rewardPct ∧
        (([] : CScript), (nBlockReward * 50).tdiv 100) ∈ rewardValues nBlockReward rewardPct := by
  intro page pcts record
  -- the page's table after each of the three rows is added
  let m₀ : StakingRewardSettingTableModel := ⟨refreshAddressTable [], .OK⟩
  let m₁ := TableAction.apply DecodeDestination m₀ (.addRow a₁ 100)
  let m₂ := TableAction.apply DecodeDestination m₁ (.addRow a₂ 100)
  let m₃ := TableAction.apply DecodeDestination m₂ (.addRow a₃ 56)
  have h₀ : m₀.settingEntriesTable = [] := by simp [m₀, refreshAddressTable]
  have hm₁ : m₁.settingEntriesTable.Perm [⟨a₁, 100⟩] := by
    have h := @addRow_of_fresh DecodeDestination m₀ a₁ 100 hv₁ (by simp [h₀]) (by decide)
      (by decide)
    rwa [h₀] at h
  have hm₂ : m₂.settingEntriesTable.Perm [⟨a₂, 100⟩, ⟨a₁, 100⟩] := by
    refine (@addRow_of_fresh DecodeDestination m₁ a₂ 100 hv₂ ?_ (by decide) (by decide)).trans
      (hm₁.cons _)
    intro e he
    rw [hm₁.mem_iff, List.mem_singleton] at he
    exact he ▸ h₁₂
  have hm₃ : m₃.settingEntriesTable.Perm [⟨a₃, 56⟩, ⟨a₂, 100⟩, ⟨a₁, 100⟩] := by
    refine (@addRow_of_fresh DecodeDestination m₂ a₃ 56 hv₃ ?_ (by decide) (by decide)).trans
      (hm₂.cons _)
    intro e he
    rw [hm₂.mem_iff] at he
    rcases List.mem_pair.mp he with rfl | rfl
    · exact h₂₃
    · exact h₁₃
  have hsum : (m₃.settingEntriesTable.map fun e => e.distributionPercentage.toNat).sum = 256 := by
    rw [(hm₃.map _).sum_eq]
    rfl
  have hok : onOkButtonClicked (m₃.settingEntriesTable.filter fun _ => true) =
      .ok (m₃.settingEntriesTable.map fun e => (e.address, e.distributionPercentage)) := by
    rw [List.filter_true]
    exact onOkButtonClicked_eq_ok_iff.mpr ⟨by rw [hsum]; decide, rfl⟩
  have hpcts : pcts = m₃.settingEntriesTable.map fun e => (e.address, e.distributionPercentage) := by
    simp only [pcts, page, RewardDistributionEvent.apply, openStakingRewardSettings, List.foldl]
    rw [hok]
  have hpsum : (pcts.map fun p => p.2.toNat).sum = 256 := by
    rw [hpcts, List.map_map]
    exact hsum
  -- the record is read back as written, with no check
  have hload : record.apply DecodeDestination [] = [(a₀, 50)] := by
    simp only [record, RewardDistributionEvent.apply]
    rw [readKeyValueRewardDistPcts_serializeRewardDistPcts (by simp [MAX_SIZE]) (by simpa using hlen)]
    rfl
  have hsome : getRewardPct DecodeDestination [(a₀, 50)] defaultDestination ≠ none := by
    rw [Ne, getRewardPct_eq_none_iff]
    simp
  obtain ⟨rewardPct, hpct⟩ := Option.ne_none_iff_exists'.mp hsome
  refine ⟨hpsum, getRewardPct_eq_none_iff.mpr (by omega), hload, rewardPct, hpct, ?_⟩
  have hmem := mem_getRewardPct hpct (a₀, 50) List.mem_cons_self
  rw [hbad] at hmem
  exact List.mem_map_of_mem hmem


theorem openStakingRewardSettings_wrapsTotal_keyIDs :
    let DecodeDestination : List UInt8 → CTxDestination := fun a =>
      if a = [] then CNoDestination else CKeyID a
    let page := RewardDistributionEvent.openStakingRewardSettings
      [.addRow [1] 100, .addRow [2] 100, .addRow [3] 56] (.okButton fun _ => true)
    let pcts := page.apply DecodeDestination []
    let record := RewardDistributionEvent.loadRecord (serializeRewardDistPcts [([], 50)])
    (pcts.map fun p => p.2.toNat).sum = 256 ∧
      getRewardPct DecodeDestination pcts CNoDestination = none ∧
      record.apply DecodeDestination [] = [([], 50)] ∧
      ∃ rewardPct, getRewardPct DecodeDestination [([], 50)] CNoDestination = some rewardPct ∧
        (([] : CScript), ((5000000000 : CAmount) * 50).tdiv 100) ∈
          rewardValues 5000000000 rewardPct :=
  openStakingRewardSettings_wrapsTotal (fun a => if a = [] then CNoDestination else CKeyID a)
    CNoDestination 5000000000 [1] [2] [3] [] (by decide) (by decide) (by decide) (by decide)
    (by decide) (by decide) (by decide) (by decide)

end XPChain
