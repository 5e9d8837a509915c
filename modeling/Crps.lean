import Crps.Broker.Atomicity
import Crps.Broker.ClientCounters
import Crps.Broker.Clients
import Crps.Broker.Correlation
import Crps.Broker.Overflow
import Crps.Broker.References
import Crps.Broker.Robustness
import Crps.Broker.Routing
import Crps.Broker.Runts
import Crps.Broker.Service
import Crps.Broker.Sizes
import Crps.Endpoint.QueueRefinement
import Crps.Node.Charted
import Crps.Node.Delivery
import Crps.Node.Registration
import Crps.Node.Rpc
import Crps.Node.PacketSizes
import Crps.Node.Priority
import Crps.Node.Pointers
import Crps.Node.Storage
import Crps.Node.TypeSafety
import Crps.Node.WhileWork
import Crps.Network.Addresses
import Crps.Foundation.GrowingVector
import Crps.Protocol.Framing
import Crps.System.StaleBytes
import Crps.System.State
import Crps.System.Steps
import Crps.System.Handshake
import Crps.System.Agreement
import Crps.System.Solo
import Crps.System.Priorities
import Crps.System.Connected
import Crps.System.Books
import Crps.System.History
import Crps.System.Backing
import Crps.System.Retries
import Crps.Foundation.Relay
import Crps.Foundation.LittleEndian
import Crps.Node.Receipt
import Crps.Node.Callbacks
import Crps.System.Carriage
import Crps.System.Reception
import Crps.System.Passage
import Crps.System.EndToEnd
import Crps.Foundation.Bus
import Crps.System.Observation
import Crps.System.Uninterrupted
import Crps.System.Reliable
import Crps.System.Multiplicity
import Crps.System.Progress
import Crps.System.Deadline
import Crps.System.Deliveries
import Crps.Broker.Plan
import Crps.System.Planned
import Crps.System.Joining
import Crps.Benchmark.Node
import Crps.Benchmark.Run
import Crps.Benchmark.Samples
import Crps.Benchmark.Reflection
import Crps.Benchmark.Latency
