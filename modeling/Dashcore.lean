import Dashcore.Chain.CompactTarget
import Dashcore.Consensus.Sighash
import Dashcore.Network.BloomFilter
import Dashcore.Network.Headers2
import Dashcore.Sml.BlockContainer
import Dashcore.Storage.CrashRecovery
import Dashcore.Storage.FiniteMap
import Dashcore.Sync.BlockHeaders.Divergence
import Dashcore.Sync.BlockHeaders.Following
import Dashcore.Sync.BlockHeaders.ForkStreaming
import Dashcore.Sync.BlockHeaders.PipelineRuns
import Dashcore.Sync.BlockHeaders.SegmentRejection
import Dashcore.Sync.Blocks.Exchange
import Dashcore.Sync.Blocks.Ordering
import Dashcore.Sync.ChainLock.Agreement
import Dashcore.Sync.FilterHeaders.Chained
import Dashcore.Sync.FilterHeaders.Coverage
import Dashcore.Sync.Filters.Delivery
import Dashcore.Sync.Filters.TipBound
import Dashcore.Sync.InstantLockSlots
import Dashcore.Sync.Masternodes.Pipeline
import Dashcore.Sync.Rebroadcast
import Dashcore.Wallet.Bip32
import Dashcore.Wallet.Confirmation
import Dashcore.Wallet.Maturity
import Dashcore.Wallet.PoolRuns
import Dashcore.Wallet.Rewind
import Dashcore.Wallet.Routing
import Dashcore.Wallet.SelectionOptimality
import Dashcore.Wallet.TransactionBuilder
