import TinyMq.Lib.ByteStrings
import TinyMq.Lib.Machines
import TinyMq.Lib.TombstoneLog
import TinyMq.Lib.AssocLists
import TinyMq.Lib.DelimitedText
import TinyMq.Lib.BandQueue
import TinyMq.Lib.BitMasks
import TinyMq.Lib.LinkedChains
import TinyMq.Storage.TomFile
import TinyMq.Storage.LinearStorage
import TinyMq.Storage.LogImage
import TinyMq.Storage.Refinement
import TinyMq.Storage.StorageRuns
import TinyMq.Storage.TornTail
import TinyMq.Storage.Sweep
import TinyMq.Storage.ManyToms
import TinyMq.Storage.SweepPasses
import TinyMq.Storage.FailedAppends
import TinyMq.Storage.Worker
import TinyMq.Storage.WorkerHandshake
import TinyMq.Storage.WorkerRuns
import TinyMq.Storage.StopQueue
import TinyMq.Storage.RepeatedUuids
import TinyMq.Broker.TransactionBuffer
import TinyMq.Broker.CommitCrash
import TinyMq.Broker.Message
import TinyMq.Broker.PriorityQueue
import TinyMq.Broker.DeliveryScheduler
import TinyMq.Broker.Store
import TinyMq.Broker.Destination
import TinyMq.Broker.Session
import TinyMq.Broker.Frames
import TinyMq.Broker.SessionRuns
import TinyMq.Broker.TransactionIds
import TinyMq.Broker.ConsumerOwners
import TinyMq.Broker.TransactedProducers
import TinyMq.Broker.TransactedCommit
import TinyMq.Broker.Fanout
import TinyMq.Broker.TransactedTopic
import TinyMq.Broker.Records
import TinyMq.Broker.AppendFailures
import TinyMq.Broker.QueueSink
import TinyMq.Broker.Holders
import TinyMq.Broker.QueueRuns
import TinyMq.Broker.SingleHolder
import TinyMq.Broker.AutoAcknowledge
import TinyMq.Broker.DurableRegistry
import TinyMq.Broker.DurableSubs
import TinyMq.Broker.StoreBacking
import TinyMq.Broker.BufferRuns
import TinyMq.Broker.QueueRouting
import TinyMq.Broker.DeadLetters
import TinyMq.Broker.Places
import TinyMq.Broker.Origins
import TinyMq.Broker.Inversion
import TinyMq.Broker.ForeignAcks
import TinyMq.Broker.RedeliveryLimit
import TinyMq.Broker.SelectorSafety
import TinyMq.Broker.CacheCoherence
import TinyMq.Broker.RestartRuns
import TinyMq.Broker.RestartFidelity
import TinyMq.Broker.LabelledRecords
import TinyMq.Broker.SubscriptionFiles
import TinyMq.Broker.CachedLocations
import TinyMq.Broker.ResentMessages
import TinyMq.Broker.InFlightChain
import TinyMq.Broker.CumulativeAcks
import TinyMq.Broker.DistinctRecords
import TinyMq.Broker.Forwarding
import TinyMq.Broker.RedeliveryOrder
import TinyMq.Broker.RedeliveryBackoff
import TinyMq.Broker.TransactedReceive
import TinyMq.Broker.SubscriptionMaps
import TinyMq.Broker.SubscriptionNames
import TinyMq.Broker.ReceiveBudget
import TinyMq.Broker.LazyAcks
import TinyMq.Broker.StoredBacklog
import TinyMq.Broker.DurableDelivery
import TinyMq.Broker.LogReplay
import TinyMq.Broker.WireFormat
import TinyMq.Broker.WireRoundTrip
import TinyMq.Broker.StoredOffsets
import TinyMq.Broker.StreamCursor
import TinyMq.Broker.CodecLosses
import TinyMq.Broker.DeadLetterCopies
import TinyMq.Broker.SelectorParsing
import TinyMq.Broker.SelectorLogic
import TinyMq.Broker.BytesWrites
import TinyMq.Broker.SelectorTokens
import TinyMq.Broker.SelectorErrors
import TinyMq.Broker.LikePatterns
import TinyMq.Broker.IntegerComparison
import TinyMq.Broker.CheckedDecoding
import TinyMq.Broker.TruncatedRecords
import TinyMq.Broker.LegacyRecords
import TinyMq.Storage.BTreeIndex
import TinyMq.Broker.LightweightSemaphore
import TinyMq.Broker.SelectorTexts
import TinyMq.Broker.AtLeastOnce
import TinyMq.Broker.SchedulerProgress
import TinyMq.Broker.ConcurrentQueue
import TinyMq.Broker.ConcurrentQueueBlocks
import TinyMq.Broker.ConcurrentQueueOrder
