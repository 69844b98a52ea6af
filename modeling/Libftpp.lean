import Libftpp.DataBuffer
import Libftpp.StreamDecoding
import Libftpp.TypedValues
import Libftpp.DataBufferFifo
import Libftpp.Memento
import Libftpp.Extraction
import Libftpp.Host
import Libftpp.History
import Libftpp.Client
import Libftpp.ClientReception
import Libftpp.ClientDispatch
import Libftpp.ClientIsolation
import Libftpp.ClientClosing
import Libftpp.ClientHandlers
import Libftpp.Server
import Libftpp.ServerReception
import Libftpp.ServerSteps
import Libftpp.ServerRegistry
import Libftpp.ServerAttribution
import Libftpp.ServerIntake
import Libftpp.ServerDispatch
import Libftpp.ServerDisconnection
import Libftpp.ThrowingActions
import Libftpp.TwoRuns
import Libftpp.QuietNetwork
import Libftpp.Sending
import Libftpp.CarefulCalls
import Libftpp.ServerBroadcast
import Libftpp.BoundedQueue
import Libftpp.RingBuffer
import Libftpp.Pool
import Libftpp.PoolSlots
import Libftpp.PoolResize
import Libftpp.PoolLifetimes
import Libftpp.PoolFailures
import Libftpp.PoolHandles
import Libftpp.Threads
import Libftpp.WorkerPool
import Libftpp.WorkerPoolRuns
import Libftpp.PersistentWorker
import Libftpp.PersistentWorkerRounds
import Libftpp.ThreadSafeQueue
import Libftpp.Lines
import Libftpp.ThreadSafeIOStream
import Libftpp.Logger
import Libftpp.StateMachine
import Libftpp.StateMachinePaths
import Libftpp.PrefixedOutput
import Libftpp.StandardInput
import Libftpp.LoggerFile
import Libftpp.ObservableValue
import Libftpp.ObservableTurns
import Libftpp.BoundsChecks
import Libftpp.DataBufferCursor
import Libftpp.Chronometre
import Libftpp.PerlinNoise2D
import Libftpp.Random2DCoordinateGenerator
import Libftpp.OrderedTree
import Libftpp.NAryTree
import Libftpp.NAryTreeCompute
import Libftpp.RingBufferVariants
import Libftpp.ClientDelivery
import Libftpp.Link
import Libftpp.LinkValues
import Libftpp.CriticalSections
import Libftpp.LockedCalls
import Libftpp.Descriptors
import Libftpp.Thread
import Libftpp.Observer
import Libftpp.Singleton
import Libftpp.PerlinRepetition
import Libftpp.ObservableHistory
import Libftpp.TreeTraversals
import Libftpp.ServerRecount
