import XPChain.Lib.LittleEndian
import XPChain.Arith.Compact
import XPChain.Lib.Limbs
import XPChain.Arith.BaseUint
import XPChain.Arith.BaseUintShift
import XPChain.Consensus.Pow
import XPChain.Script.Script
import XPChain.Script.ScriptNum
import XPChain.Script.Interpreter
import XPChain.Script.Run
import XPChain.Script.Standard
import XPChain.Script.Verify
import XPChain.Primitives.Transaction
import XPChain.Policy.Stake
import XPChain.Validation.BlockSignature
import XPChain.Primitives.Serialize
import XPChain.Primitives.SerializeTransaction
import XPChain.Validation.CoinBase
import XPChain.Miner.Stake
import XPChain.Validation.Kernel
import XPChain.Lib.Reader
import XPChain.Wallet.WalletDB
import XPChain.Qt.StakingRewardSetting
import XPChain.Wallet.Lock
import XPChain.Lib.Decimal
import XPChain.Rpc.Amount
import XPChain.Rpc.FixedPoint
import XPChain.Util.MoneyStr
import XPChain.Util.AmountFormat
import XPChain.Lib.Radix
import XPChain.Util.Base58
import XPChain.Lib.Check
import XPChain.Validation.CheckBlock
import XPChain.Lib.PartialMap
import XPChain.Coins.View
import XPChain.Validation.Undo
import XPChain.Script.SoftFork
import XPChain.Consensus.VersionBits
import XPChain.Lib.LocalFold
import XPChain.Coins.Cache
import XPChain.Lib.Tally
import XPChain.Net.AddrMan
import XPChain.Net.AddrManCheck
import XPChain.Net.RollingBloomFilter
import XPChain.Lib.TreePath
import XPChain.Wallet.BranchAndBound
import XPChain.Lib.Cells
import XPChain.Util.Prevector
import XPChain.Util.PrevectorRefinement
import XPChain.Validation.Merkle
import XPChain.Lib.BigEndian
import XPChain.Primitives.PubKey
import XPChain.Lib.ListRel
import XPChain.Consensus.SequenceLocks
import XPChain.Lib.Interleaving
import XPChain.Validation.CheckQueue
import XPChain.Lib.Lockset
import XPChain.Miner.WalletLocks
import XPChain.Wallet.CreateTransaction
import XPChain.Lib.Selection
import XPChain.Wallet.CoinSelection
import XPChain.Chain.SkipList
import XPChain.Chain.BlockProof
import XPChain.Primitives.VarInt
import XPChain.Coins.Compressor
import XPChain.Lib.BitPack
import XPChain.Validation.MerkleBlock
import XPChain.Lib.BitGroups
import XPChain.Util.ConvertBits
import XPChain.Lib.XorFold
import XPChain.Util.Bech32
import XPChain.Util.KeyIo
import XPChain.Util.Scheduler
import XPChain.Net.BlockEncodings
import XPChain.Lib.Worklist
import XPChain.Miner.TxMemPool
import XPChain.Miner.Assembler
import XPChain.Miner.PackageOrder
import XPChain.Miner.PackageLoop
