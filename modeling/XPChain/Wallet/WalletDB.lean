import XPChain.Primitives.Serialize
import XPChain.Lib.Reader

/-!
# The reward distribution record

The wallet keeps its staking reward distribution, a list of addresses with a
percentage each, in one database record under the key `rewarddistpcts`.
`WalletBatch::WriteRewardDistributionPcts` writes the
`std::vector<std::pair<std::string, uint8_t>>` with the serialisation of
`serialize.h`; `ReadKeyValue` of `walletdb.cpp` reads it back at load and
assigns it to `CWallet::vRewardDistributionPcts` as it is.

The vector reader of `serialize.h` resizes in batches of `5000000 / sizeof(T)`
elements; that changes only when memory is allocated, so the read is modelled
as the count followed by that many elements.

## Main definitions

* `serializeRewardDistPcts`, `readRewardDistPcts` — the record's format.
* `readKeyValueRewardDistPcts` — the `rewarddistpcts` branch of `ReadKeyValue`.

## Main statements

* `readRewardDistPcts_serializeRewardDistPcts` — the record reads back as
  written.
* `readKeyValueRewardDistPcts_serializeRewardDistPcts` — the loader takes
  every list it can read, with no check on addresses or percentages.
-/

set_option autoImplicit false

namespace XPChain

/-- `Serialize` of a `std::pair<std::string, uint8_t>`. -/
def serializeRewardDistPct (p : List UInt8 × UInt8) : List UInt8 := serializeString p.1 ++ [p.2]

/-- `WriteRewardDistributionPcts`: the value written under `rewarddistpcts`. -/
def serializeRewardDistPcts (pcts : List (List UInt8 × UInt8)) : List UInt8 :=
  writeCompactSize pcts.length ++ pcts.flatMap serializeRewardDistPct

/-- `Unserialize` of a `std::pair<std::string, uint8_t>`. -/
def readRewardDistPct (s : List UInt8) : Option ((List UInt8 × UInt8) × List UInt8) := do
  let (str, s) ← readString s
  let (pct, s) ← readUInt8 s
  pure ((str, pct), s)

/-- `Unserialize` of the record's vector: a compact-size count, then that many
pairs; `none` where it throws. -/
def readRewardDistPcts (s : List UInt8) : Option (List (List UInt8 × UInt8) × List UInt8) := do
  let (nSize, s) ← readCompactSize s
  Reader.readMany readRewardDistPct nSize s

/-- The `rewarddistpcts` branch of `ReadKeyValue`: the list read from
`ssValue`, which becomes `vRewardDistributionPcts`, or `none` where the read
throws and `ReadKeyValue` returns `false`.  What follows the vector in the
record is not looked at. -/
def readKeyValueRewardDistPcts (ssValue : List UInt8) : Option (List (List UInt8 × UInt8)) :=
  (readRewardDistPcts ssValue).map Prod.fst

theorem roundTrip_readRewardDistPct :
    Reader.RoundTrip readRewardDistPct serializeRewardDistPct fun p => p.1.length ≤ MAX_SIZE := by
  intro p hp s
  simp only [readRewardDistPct, serializeRewardDistPct, List.append_assoc,
    readString_serializeString hp, Option.bind_eq_bind, Option.bind_some, List.singleton_append,
    readUInt8, Option.pure_def]

/-- A record of at most `MAX_SIZE` entries, each address at most `MAX_SIZE`
bytes, reads back as written. -/
theorem readRewardDistPcts_serializeRewardDistPcts {pcts : List (List UInt8 × UInt8)}
    (hlen : pcts.length ≤ MAX_SIZE) (hstr : ∀ p ∈ pcts, p.1.length ≤ MAX_SIZE)
    (s : List UInt8) :
    readRewardDistPcts (serializeRewardDistPcts pcts ++ s) = some (pcts, s) := by
  have helems := Reader.readMany_flatMap roundTrip_readRewardDistPct pcts hstr s
  simp only [readRewardDistPcts, serializeRewardDistPcts, List.append_assoc,
    readCompactSize_writeCompactSize hlen, Option.bind_eq_bind, Option.bind_some, helems]

/-- The loader checks nothing: whatever list fits the format, whatever its
addresses and percentages, becomes `vRewardDistributionPcts`. -/
theorem readKeyValueRewardDistPcts_serializeRewardDistPcts {pcts : List (List UInt8 × UInt8)}
    (hlen : pcts.length ≤ MAX_SIZE) (hstr : ∀ p ∈ pcts, p.1.length ≤ MAX_SIZE) :
    readKeyValueRewardDistPcts (serializeRewardDistPcts pcts) = some pcts := by
  have h := readRewardDistPcts_serializeRewardDistPcts hlen hstr []
  rw [List.append_nil] at h
  simp [readKeyValueRewardDistPcts, h]

end XPChain
