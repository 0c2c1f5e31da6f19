import DistWalk.ByteMemory
import DistWalk.Message
import DistWalk.Connection
import DistWalk.SendStream
import DistWalk.HeapOrder
import DistWalk.PriorityQueue
import DistWalk.Worker
import DistWalk.Timeout
import DistWalk.Node
import DistWalk.Transitions
import DistWalk.Requests
import DistWalk.TimeoutTable
import DistWalk.Wire
import DistWalk.TimerService
import DistWalk.ForwardReply
import DistWalk.Forwarding
import DistWalk.ForwardContext
import DistWalk.Batches
import DistWalk.Quorum
import DistWalk.ForwardQuorum
import DistWalk.Walkers
import DistWalk.ContextGrammar
import DistWalk.Template
import DistWalk.ClientOptions
import DistWalk.BalancedTemplate
import DistWalk.TemplateSkip
import DistWalk.Decoding
import DistWalk.FullChain
import DistWalk.ForwardSteps
import DistWalk.TemplateRoom
import DistWalk.TemplateDump
import DistWalk.TemplateRoundTrip
import DistWalk.MessageSkip
import DistWalk.SkipAgreement
import DistWalk.Acknowledgements
import DistWalk.ReplyOrder
import DistWalk.ConnectionSlots
import DistWalk.ForwardedMessage
import DistWalk.BoundedReads
import DistWalk.ThreadedBlocks
import DistWalk.OwnBytes
import DistWalk.ReceiveQueue
import DistWalk.BufferLayout
import DistWalk.LayoutSteps
import DistWalk.BufferSpace
import DistWalk.ReceivedBytes
import DistWalk.QueueRuns
import DistWalk.CircularWindow
import DistWalk.BoundedQueue
import DistWalk.KeyedTable
import DistWalk.PollBackends
import DistWalk.PollAgreement
import DistWalk.StorageWorkers
import DistWalk.FairFifo
import DistWalk.StorageAcks
import DistWalk.ClientReceiver
import DistWalk.ReplyStream
import DistWalk.SessionEnds
import DistWalk.ReceiverSpace
import DistWalk.LayoutRuns
import DistWalk.DeadPeer
import DistWalk.ContextWalks
import DistWalk.CurrentCommands
import DistWalk.TailCopy
import DistWalk.DumpSpace
import DistWalk.Defragmentation
import DistWalk.RequestLists
import DistWalk.ReturnCodes
import DistWalk.ClosedOnce
import DistWalk.RequestLookup
import DistWalk.CancelledTimeouts
import DistWalk.TimeoutKeys
import DistWalk.ExistingConnections
import DistWalk.TlsSending
import DistWalk.SendfileCursors
import DistWalk.FullChain
import DistWalk.ForwardSteps
import DistWalk.AckCounts
import DistWalk.RejectionSampling
import DistWalk.ReplySizes
import DistWalk.StorageFile
import DistWalk.CyclicReads
import DistWalk.StoragePlacement
import DistWalk.ElapsedTimes
import DistWalk.SequenceLength
import DistWalk.LinkedChain
import DistWalk.TemplateQueue
import DistWalk.TimerEvents
import DistWalk.Scanning
import DistWalk.CoreLists
import DistWalk.ByteUnits
import DistWalk.PairReader
import DistWalk.ScriptOptions
import DistWalk.ReplyFraming
import DistWalk.EventRuns
import DistWalk.SessionOutput
import DistWalk.RateRamp
import DistWalk.WhileLoops
import DistWalk.CheckedWalks
import DistWalk.SkipRounds
import DistWalk.SwapIteration
import DistWalk.PollIteration
import DistWalk.StorageOptions
import DistWalk.StorageSetup
import DistWalk.Segmentation
import DistWalk.Service
import DistWalk.EndToEnd
import DistWalk.Sender
import DistWalk.SessionLoop
import DistWalk.Proxy
import DistWalk.Programs
import DistWalk.Relocation
import DistWalk.ProgramFrames
import DistWalk.Turns
import DistWalk.OtherRequests
import DistWalk.RoundRuns
import DistWalk.Execution
import DistWalk.StaleReply
import DistWalk.ReplyRuns
import DistWalk.ContextRuns
import DistWalk.Backlog
import DistWalk.Pacing
import DistWalk.ThreadService
