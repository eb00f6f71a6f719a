import Balancer.Cpp.Fault
import Balancer.Cpp.Integers
import Balancer.Cpp.Bytes
import Balancer.Cpp.Floats
import Balancer.Slots
import Balancer.FirstMin
import Balancer.Runs
import Balancer.Pipe
import Balancer.SelfInverse
import Balancer.Rounds
import Balancer.Chaining
import Balancer.Configuration
import Balancer.State
import Balancer.Validation
import Balancer.Algorithm
import Balancer.Listener
import Balancer.Routing.Weights
import Balancer.Routing.RoundRobin
import Balancer.Routing.Soundness
import Balancer.Routing.Pinged
import Balancer.Routing.Cyclic
import Balancer.Routing.RandomLaw
import Balancer.Routing.Faults
import Balancer.Routing.Starvation
import Balancer.Routing.Resource
import Balancer.Routing.Score
import Balancer.Routing.Outage
import Balancer.Routing.Sensitivity
import Balancer.Codec.Base64
import Balancer.Codec.HealthReport
import Balancer.Routing.FloatScore
import Balancer.Codec.Plusaes
import Balancer.Codec.Aes
import Balancer.Codec.AesBlock
import Balancer.Codec.Cbc
import Balancer.Realtime.Messages
import Balancer.Realtime.Reporter
import Balancer.Realtime.Measurement
import Balancer.Realtime.Thread
import Balancer.Realtime.Delivery
import Balancer.Realtime.Forgery
import Balancer.Realtime.Handshake
import Balancer.Realtime.Failures
import Balancer.Realtime.Chunks
import Balancer.Realtime.Segmentation
import Balancer.Realtime.System
import Balancer.Realtime.Staleness
import Balancer.Realtime.Invalidator
import Balancer.Realtime.Link
import Balancer.Realtime.Network
import Balancer.Realtime.Exchange
import Balancer.Realtime.Agreement
import Balancer.Realtime.Completion
import Balancer.Realtime.InOrder
import Balancer.Realtime.Routed
import Balancer.Realtime.Silence
import Balancer.Proxy.Forward
import Balancer.Proxy.Lifecycle
import Balancer.Proxy.Threads
