import DynamoCpp.Transports.StreamCompletion
import DynamoCpp.Components.Routing
import DynamoCpp.Llm.KvRouter.Interference
import DynamoCpp.Llm.KvRouter.Eviction
import DynamoCpp.Llm.StopSequences
import DynamoCpp.Discovery.KeepAlive
import DynamoCpp.Transports.Corruption
import DynamoCpp.Discovery.Queue
import DynamoCpp.Runtime.Receivers
import DynamoCpp.Runtime.Registrations
import DynamoCpp.Pipeline.Controller
import DynamoCpp.Discovery.LeaseTokens
import DynamoCpp.Discovery.CreateOrValidate
import DynamoCpp.Llm.Protocols.RoundTrip
import DynamoCpp.Discovery.Streams
import DynamoCpp.Discovery.Values
import DynamoCpp.Discovery.Backends
import DynamoCpp.Components.Arrivals
import DynamoCpp.Components.Serving
import DynamoCpp.Llm.Http.Streaming
import DynamoCpp.Llm.IncrementalDecoding
import DynamoCpp.Llm.KvRouter.Router
import DynamoCpp.Llm.KvRouter.EarlyExit
import DynamoCpp.Llm.Kv.Prefill
import DynamoCpp.Llm.Kv.FailedOffload
import DynamoCpp.Llm.StopSequenceDecoder
import DynamoCpp.Llm.TokenAlignment
import DynamoCpp.Llm.Http.ModelMirror
import DynamoCpp.Llm.Protocols.SseRoundTrip
import DynamoCpp.Llm.Protocols.Aggregation
import DynamoCpp.Llm.Http.RequestFraming
import DynamoCpp.Llm.Http.ChunkedBody
import DynamoCpp.Llm.Kv.Geometry
import DynamoCpp.Llm.Kv.ViewBounds
import DynamoCpp.Llm.Kv.SlabSizes
