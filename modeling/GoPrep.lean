import GoPrep.Ports.BlockingQueueLinearizable
import GoPrep.Ports.BuildASemaphoreMain
import GoPrep.Ports.ConnectionPoolSettles
import GoPrep.Ports.ConnectionPoolNew
import GoPrep.Ports.DispatcherPending
import GoPrep.Ports.DispatcherRate
import GoPrep.Ports.DispatcherSettles
import GoPrep.Ports.EventBusSettles
import GoPrep.Ports.FanInAndOutReturns
import GoPrep.Ports.GoIndexSettles
import GoPrep.Ports.GoIterator
import GoPrep.Ports.GracefulShutdown
import GoPrep.Ports.HashAggregation
import GoPrep.Ports.IndexAndIteratorQuery
import GoPrep.Ports.IndexAndIteratorSnapshot
import GoPrep.Ports.IteratorPlusIndexClose
import GoPrep.Ports.IteratorPlusIndexReturns
import GoPrep.Ports.IteratorPlusIndexRoundTrip
import GoPrep.Ports.IteratorPlusIndexSnapshot
import GoPrep.Ports.JoinEquivalence
import GoPrep.Ports.JoinParameters
import GoPrep.Ports.JoinSides
import GoPrep.Ports.LRUCache
import GoPrep.Ports.LldConnectionPool
import GoPrep.Ports.LldRateLimiter
import GoPrep.Ports.MergeSortWords
import GoPrep.Ports.NestedLoopJoinCost
import GoPrep.Ports.ThreadPoolSettles
import GoPrep.Ports.ThreadPoolShutdown
import GoPrep.Ports.ThreadPoolTasks
import GoPrep.Ports.SortMergeJoinCost
import GoPrep.Ports.IndexAndIteratorReplay
import GoPrep.Ports.IndexAndIteratorReturns
import GoPrep.Ports.PoolAllocator
import GoPrep.Ports.TransferReturns
import GoPrep.Ports.FilterOperators
import GoPrep.Ports.ArenaAllocator
import GoPrep.Ports.StringInterner
import GoPrep.Verified.WaitGraph
