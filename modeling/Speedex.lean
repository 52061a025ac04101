import Speedex.Lib.Except
import Speedex.Lib.BigEndian
import Speedex.Lib.SortedMap
import Speedex.Types
import Speedex.Arithmetic
import Speedex.Database.Account
import Speedex.Database.MemoryDatabase
import Speedex.Database.AutoRollback
import Speedex.Modlog
import Speedex.Modlog.AccountModificationEntry
import Speedex.Modlog.Normalize
import Speedex.Orderbook.Trie
import Speedex.Orderbook.Checker
import Speedex.Orderbook.Thunk
import Speedex.Orderbook.Clearing
import Speedex.Orderbook.Categories
import Speedex.Orderbook.Orderbook
import Speedex.Orderbook.Undo
import Speedex.Orderbook.Steps
import Speedex.Orderbook.Rollback
import Speedex.Orderbook.Rounds
import Speedex.Orderbook.BlockRounds
import Speedex.Orderbook.Rewind
import Speedex.Orderbook.Fate
import Speedex.Orderbook.Persist
import Speedex.Orderbook.PersistExact
import Speedex.Orderbook.Recovery
import Speedex.Lib.Spread
import Speedex.Lib.WordBits
import Speedex.Lib.Superadditive
import Speedex.Lib.WrappingInt
import Speedex.Database.SequenceTracker
import Speedex.Database.Transfers
import Speedex.Database.View
import Speedex.Database.Unwind
import Speedex.Database.Persistence
import Speedex.Database.CommitmentTrie
import Speedex.Database.StoreRuns
import Speedex.Database.AccountRuns
import Speedex.Database.Rewinds
import Speedex.Database.Committed
import Speedex.Orderbook.Manager
import Speedex.Orderbook.Executions
import Speedex.Orderbook.Loading
import Speedex.Orderbook.Rounding
import Speedex.Orderbook.Conservation
import Speedex.Orderbook.PriceOrder
import Speedex.Orderbook.Supply
import Speedex.Orderbook.Demand
import Speedex.Orderbook.UnscaledDemand
import Speedex.Orderbook.SmoothMult
import Speedex.BlockProcessing.Handler
import Speedex.BlockProcessing.Processor
import Speedex.BlockProcessing.Rejected
import Speedex.BlockProcessing.Unwinding
import Speedex.BlockProcessing.Validator
import Speedex.BlockProcessing.Effects
import Speedex.BlockProcessing.AssetSlots
import Speedex.BlockProcessing.Returns
import Speedex.BlockProcessing.Transactions
import Speedex.Vm.Validation
import Speedex.Vm.InPlace
import Speedex.Vm.FeeRate
import Speedex.Vm.SpeedexVm
import Speedex.HeaderHash.BlockHeaderHashMap
import Speedex.PriceComputation.LpSolver
import Speedex.PriceComputation.Tatonnement
import Speedex.Vm.BlockNumbers
import Speedex.BlockProcessing.BlockProducer
import Speedex.Vm.Replay
import Speedex.Vm.Crashes
import Speedex.Filtering.Verdict
import Speedex.Mempool
import Speedex.Utils.SaveLoadXdr
import Speedex.Utils.SaveAccountBlock
import Speedex.Cda.Trades
import Speedex.Cda.TryExecute
import Speedex.Cda.RestingOffers
import Speedex.Cda.SerialObExperiment
import Speedex.Cda.Conservation
import Speedex.Simplex.ObjectiveRow
import Speedex.Simplex.Tableau
import Speedex.Simplex.Pivot
import Speedex.PriceComputation.WideProduct
import Speedex.Orderbook.OfferKeys
import Speedex.Orderbook.Growth
import Speedex.Database.AccountVector
import Speedex.Simplex.BitcompressedRow
import Speedex.Database.SequentialBalances
import Speedex.Simplex.ForwardList
import Speedex.Vm.NewOffers
import Speedex.PriceComputation.DemandOracleProgress
import Speedex.Commutativity.OrderIndependence
