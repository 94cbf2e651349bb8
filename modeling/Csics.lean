import Csics.Base.Memory
import Csics.Base.Ring
import Csics.Base.Run
import Csics.Queue.Placement
import Csics.Queue.Invariant
import Csics.Queue.Steps
import Csics.Queue.Safety
import Csics.Ecs.SparseSet
import Csics.Ecs.View
import Csics.Ecs.World
import Csics.Ecs.Liveness
import Csics.Ecs.Handles
import Csics.Base.Parser
import Csics.Base.Word
import Csics.Serialization.Direct
import Csics.Dis.Records
import Csics.Dis.Emission
import Csics.Dis.EntityState
import Csics.Dis.RoundTrip
import Csics.Dis.Truncation
import Csics.Dis.Transmitter
import Csics.Dis.Counting
import Csics.Dis.TransmitterLoss
import Csics.Json.Serializer
import Csics.Json.Emission
import Csics.Json.Refinement
import Csics.Json.Text
import Csics.Json.ShortBuffer
import Csics.Base.Base64
import Csics.EncDec.Base64Encoder
import Csics.EncDec.Chunking
import Csics.EncDec.Resumption
import Csics.Base.Delimited
import Csics.Net.URI
import Csics.Net.Grammar
import Csics.Dis.Faults
import Csics.Dis.Reach
import Csics.Dis.Starvation
import Csics.Dis.Complete
import Csics.Dis.Dispatch
import Csics.Dis.ParameterCount
import Csics.Dis.Lengths
import Csics.Dis.Interop
import Csics.Ecs.Stale
import Csics.Dis.BeamRecord
import Csics.Dis.Prefixes
import Csics.Dis.TransmitterLength
import Csics.Dis.Hosts
import Csics.Dis.Exercise
import Csics.Net.Bounds
import Csics.Executor.Tasks
import Csics.Net.MQTTEndpoint
import Csics.Net.Routing
import Csics.Base.Total
import Csics.Net.Ownership
import Csics.Net.Publishing
import Csics.Net.SockAddr
import Csics.Net.Endpoints
import Csics.Ecs.Flush
import Csics.Ecs.Entries
import Csics.Ecs.Registry
import Csics.Ecs.Contexts
import Csics.Ecs.Layers
import Csics.Ecs.Deferred
import Csics.Ecs.ContextCalls
import Csics.Base.Bits
import Csics.Queue.Capacity
import Csics.Queue.Blocks
import Csics.Queue.MessageQueue
import Csics.Queue.MessageCapacity
import Csics.Ecs.SetCalls
import Csics.Ecs.FiniteMap
import Csics.Base.Traverse
import Csics.Ecs.Iteration
import Csics.Ecs.Identity
import Csics.Ecs.Allocation
import Csics.Base.StringLiteral
import Csics.Json.Strings
import Csics.Json.Reuse
import Csics.Queue.Drained
import Csics.Queue.Peek
import Csics.Queue.Rounds
import Csics.Base.Ledger
import Csics.Queue.Lifetimes
import Csics.Queue.MessageOwnership
import Csics.Base.Loop
import Csics.Base.Codec
import Csics.Base.Transcoding
import Csics.Compression.Compressor
import Csics.Compression.ZLIBCompressor
import Csics.Compression.ZSTDCompressor
import Csics.Compression.Accounting
import Csics.Compression.Termination
import Csics.Compression.Sessions
import Csics.Base.Storage
import Csics.Container.Capacity
import Csics.Container.Buffer
import Csics.Container.Contents
import Csics.Container.Buffers
import Csics.Container.Refinement
import Csics.Container.ElementLifetimes
import Csics.Container.MovedFrom
import Csics.Container.View
import Csics.Container.Subviews
import Csics.Container.ViewConstructors
import Csics.Container.Covering
import Csics.Base.Bins
import Csics.Linalg.Complex
import Csics.Dsp.Transfer
import Csics.Dsp.Bandpass
import Csics.Ecs.Builder
import Csics.Ecs.Hooks
import Csics.Linalg.ComplexField
import Csics.Dsp.Product
import Csics.Em.Propagation
import Csics.Dsp.Unshifted
import Csics.Radio.RxLoop
import Csics.Radio.Stopping
import Csics.Queue.Rows
import Csics.Radio.Stream
import Csics.Radio.Integrity
import Csics.Radio.Lifecycle
import Csics.Radio.Wrapping
import Csics.Json.RoundTrip
import Csics.EncDec.RoundTrip
import Csics.Ecs.Traits
import Csics.Ecs.Store
import Csics.Net.Descriptors
import Csics.Net.Connection
import Csics.Net.Clients
import Csics.Net.Schedule
import Csics.Net.Callbacks
import Csics.Net.Answers
import Csics.Text.String
import Csics.Text.Texts
import Csics.Linalg.Matrix
import Csics.Linalg.Expressions
