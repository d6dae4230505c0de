import LiteExchange.OrderMatcher.Uncrossed
import LiteExchange.OrderMatcher.Priority
import LiteExchange.OrderMatcher.Conservation
import LiteExchange.OrderMatcher.Concurrent
import LiteExchange.OrderMatcher.Simulation
import LiteExchange.OrderMatcher.Refinement
import LiteExchange.OrderMatcher.LifeCycle
import LiteExchange.OrderMatcher.ExecutionReports
import LiteExchange.Fix.Constants
import LiteExchange.Foundation.Framing
import LiteExchange.Fix.Message
import LiteExchange.Fix.Parser
import LiteExchange.Fix.ReceiveCache
import LiteExchange.Fix.Reassembly
import LiteExchange.Foundation.Decimal
import LiteExchange.OrderMatcher.SystemRules
import LiteExchange.Server.ServerFix
import LiteExchange.Server.LimitPrice
import LiteExchange.Fix.Session
import LiteExchange.Foundation.Lineage
import LiteExchange.OrderMatcher.Evolution
import LiteExchange.OrderMatcher.ExactQuantities
import LiteExchange.Server.Quantities
import LiteExchange.Server.CancelRequests
import LiteExchange.Fix.Reactor
import LiteExchange.Server.OutgoingMessages
import LiteExchange.Server.Exchange
import LiteExchange.Fix.SessionSteps
import LiteExchange.Fix.SlotTables
import LiteExchange.Fix.ReactorRuns
import LiteExchange.Fix.IncomingNumbers
import LiteExchange.Fix.OutgoingNumbers
import LiteExchange.Fix.StoredNumbers
import LiteExchange.Server.MessageHandling
import LiteExchange.Server.Answers
import LiteExchange.Fix.BufferParser
import LiteExchange.Fix.HostileInput
import LiteExchange.Core.RingBuffer
import LiteExchange.Core.RingInvariant
import LiteExchange.Core.BoundedFifo
import LiteExchange.OrderMatcher.OutgoingRings
import LiteExchange.OrderMatcher.Outstanding
import LiteExchange.Fix.CompIds
import LiteExchange.Server.OrderOwnership
import LiteExchange.Foundation.BoundedQueue
import LiteExchange.Foundation.Refinement
import LiteExchange.Core.RingQueue
import LiteExchange.OrderMatcher.OutgoingRefinement
import LiteExchange.Fix.Header
import LiteExchange.Fix.TwoBuffers
import LiteExchange.Fix.FileParser
import LiteExchange.Fix.Concatenation
import LiteExchange.Fix.Receive
import LiteExchange.Foundation.Allocation
import LiteExchange.OrderMatcher.Sweep
import LiteExchange.Fix.Lockstep
import LiteExchange.Fix.Sockets
import LiteExchange.Fix.Descriptors
import LiteExchange.Core.ThreadPool
import LiteExchange.Fix.WireFields
import LiteExchange.Fix.SentMessages
import LiteExchange.Server.Replies
import LiteExchange.OrderMatcher.Outcomes
import LiteExchange.OrderMatcher.Draining
import LiteExchange.Server.ServerOffline
import LiteExchange.Server.HandedMessages
import LiteExchange.Server.OfflineAgreement
import LiteExchange.Fix.Decoding
import LiteExchange.Fix.ReceiveSizes
import LiteExchange.Foundation.RelatedLists
import LiteExchange.OrderMatcher.CancelFrame
import LiteExchange.OrderMatcher.Mirror
import LiteExchange.Foundation.WeightedMean
import LiteExchange.OrderMatcher.AveragePrice
import LiteExchange.Core.WrappedIndexes
import LiteExchange.Server.OrderSides
import LiteExchange.Fix.WireNumbers
import LiteExchange.Fix.RequiredTags
import LiteExchange.Fix.MessageEnds
import LiteExchange.Fix.CacheCompaction
import LiteExchange.Fix.ClientEvents
import LiteExchange.Core.Configuration
import LiteExchange.Core.QueueMPSC
import LiteExchange.Server.SymbolRouting
import LiteExchange.Core.MemoryMappedFile
import LiteExchange.Core.SpinLock
import LiteExchange.Core.Singleton
import LiteExchange.Core.SingleInstance
import LiteExchange.Fix.EventLoop
import LiteExchange.OrderMatcher.Facing
import LiteExchange.OrderMatcher.LaterOrders
import LiteExchange.Core.Logger
import LiteExchange.OrderMatcher.Untraded
import LiteExchange.Fix.SequenceFiles
import LiteExchange.Fix.FiledNumbers
import LiteExchange.Server.ClientReports
import LiteExchange.Server.ExchangeRuns
import LiteExchange.Server.Echoes
import LiteExchange.Server.ClientView
