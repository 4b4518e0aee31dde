import Kash.Lib.AListLoops
import Kash.Lib.ExceptLoops
import Kash.TxData
import Kash.UtxoDiff
import Kash.UtxoDiffAlgebraProofs
import Kash.Hashing
import Kash.HashingProofs
import Kash.Script.Opcodes
import Kash.Script.DataStack
import Kash.Script.Engine
import Kash.Script.EngineProofs
import Kash.Validation.TxValidator
import Kash.Validation.TxValidatorProofs
import Kash.Coinbase
import Kash.Lib.MultisetHash
import Kash.MuHash
import Kash.Merkle
import Kash.Pipeline.BodyValidation
import Kash.Pipeline.UtxoValidation
import Kash.UtxoDiffTransactionProofs
import Kash.Pipeline.ParallelValidationProofs
import Kash.Pipeline.UtxoCommitmentProofs
import Kash.Lib.Limbs
import Kash.Math.Uint
import Kash.Script.SigOpCountProofs
import Kash.Math.UintProofs
import Kash.Math.UintWordProofs
import Kash.Math.UintDivProofs
import Kash.Address
import Kash.AddressProofs
import Kash.AddressRoundTripProofs
import Kash.Lib.Bfs
import Kash.Mining.Mempool
import Kash.Mining.MempoolUtxoSetProofs
import Kash.Mining.TransactionsPoolProofs
import Kash.Mining.Selector
import Kash.Lib.Tiling
import Kash.Mining.SelectorProofs
import Kash.Mining.SelectorSessionProofs
import Kash.Consensus.Ghostdag
import Kash.Consensus.MergesetProofs
import Kash.Consensus.GhostdagRunProofs
import Kash.Consensus.OrderingProofs
import Kash.Script.CondStackProofs
import Kash.SigHashProofs
import Kash.Script.NumberProofs
import Kash.Script.OpcodeStreamProofs
import Kash.UtxoDiffRunProofs
import Kash.Script.ScriptBuilder
import Kash.Script.ScriptBuilderProofs
import Kash.Lib.FlatTree
import Kash.MerkleProofs
import Kash.CoinbaseProofs
import Kash.Consensus.CompactTargetProofs
import Kash.Consensus.Interval
import Kash.Consensus.IntervalProofs
import Kash.Lib.MinMax
import Kash.Math.UintOpsProofs
import Kash.Consensus.Difficulty
import Kash.Consensus.DifficultyProofs
import Kash.Lib.OrderStatistic
import Kash.Consensus.PastMedianTime
import Kash.Consensus.PastMedianTimeProofs
import Kash.Lib.BoundedHeap
import Kash.Consensus.Window
import Kash.Consensus.WindowProofs
import Kash.Consensus.SampledWindowProofs
