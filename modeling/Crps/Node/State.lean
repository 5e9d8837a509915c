import Mathlib.Logic.Function.Basic
import Crps.Endpoint.Handles
import Crps.Foundation.Session
import Crps.Protocol.Codec

/-!
# A node and its connection handshake

The registration functions run as a session: `broker_rpc_blocking` is the call,
the node itself the local state. Endpoint pointers are positions in the two
endpoint vectors, which do not change once `connect` runs. The node's name for
the broker's address is the far end of its link and is not repeated here.
-/

namespace Crps

/-- Entries of `m_topics` and `m_topics_by_prio`. -/
structure TopicInfo where
  publishers : List ℕ := []
  subscribers : List ℕ := []
  deriving DecidableEq, Repr

structure Node where
  name : String
  nodeId : BpNodeId
  publishers : List Publisher
  subscribers : List Subscriber
  topics : TopicId → Option TopicInfo
  topicsByPrio : List (TopicPriority × TopicInfo)
  bpCounter : BpCounter
  buffer : Memory

/-- What `recvfrom` gives a node: nothing waiting, another error, or a datagram. -/
inductive Reception where
  | wouldBlock
  | failed
  | datagram (bytes : Bytes)

/-- `receive_message` by the sign of its result. -/
inductive Received where
  | error
  | nothing
  | packet (decoded : Decoded)

namespace Node

def create (name : String) : Node where
  name := name
  nodeId := 0
  publishers := []
  subscribers := []
  topics := fun _ => none
  topicsByPrio := []
  bpCounter := 0
  buffer := fun _ => 0

variable (n : Node)

def createPublisher (topicName typeName : String) (messageSize : MessageSize)
    (topicPriority : TopicPriority) : Node :=
  { n with publishers := n.publishers ++
      [.create topicName typeName messageSize topicPriority (bpHeaderSize + bpDataHeaderSize)] }

def createSubscriber (topicName typeName : String) (messageSize : MessageSize)
    (topicPriority : TopicPriority) : Node :=
  { n with subscribers := n.subscribers ++
      [.create topicName typeName messageSize topicPriority] }

/-- A node as the application sets it up before `connect`. -/
inductive Created : Node → Prop
  | create (name : String) : Created (create name)
  | publisher {n : Node} (topicName typeName : String) (messageSize : MessageSize)
      (topicPriority : TopicPriority) :
      Created n → Created (n.createPublisher topicName typeName messageSize topicPriority)
  | subscriber {n : Node} (topicName typeName : String) (messageSize : MessageSize)
      (topicPriority : TopicPriority) :
      Created n → Created (n.createSubscriber topicName typeName messageSize topicPriority)

/-! ## Sending and receiving -/

def nextBpCounter : BpCounter × Node :=
  (n.bpCounter + 1, { n with bpCounter := n.bpCounter + 1 })

def rpcId : UInt32 := n.bpCounter

variable (text : JsonText)

/-- `send_control` up to its `sendto`: the packet and the node after it. -/
def sendControl (request : Json) : Bytes × Node :=
  let counted := n.nextBpCounter
  (bpControlJsonToPacketBuffer text request counted.1, counted.2)

/-- `send_data` up to its `sendto`: the filled packet and the node after it.
The payload size is a `size_t` difference passed as 32 bits. -/
def sendData (topicId : TopicId) (messageTypeId : MessageTypeId) (buffer : Bytes)
    (bufferSize : ℕ) : Bytes × Node :=
  let counted := n.nextBpCounter
  let messageSize :=
    (UInt64.ofNat bufferSize - UInt64.ofNat (bpHeaderSize + bpDataHeaderSize)).toUInt32
  (bpFillDataHeader counted.1 topicId messageTypeId messageSize buffer, counted.2)

/-- `receive_message`; a control text that does not parse throws. -/
def receiveMessage (block : Bool) (reception : Reception) : Except Fault (Node × Received) :=
  match reception with
  | .wouldBlock => .ok (n, if block then .error else .nothing)
  | .failed => .ok (n, .error)
  | .datagram bytes => do
    let buffer := Memory.load bytes n.buffer
    let decoded ← decodePacketBuffer text buffer bytes.length
    let n' := { n with buffer }
    if decoded.type = .invalid then return (n', .error) else return (n', .packet decoded)

/-- `broker_rpc_blocking` from its blocking receive on. Anything but a control
packet ends the call with the empty response. -/
def rpcResponse (reception : Reception) : Except Fault (Node × Json) := do
  let (n', received) ← n.receiveMessage text true reception
  match received with
  | .packet decoded =>
    if decoded.type ≠ .control then return (n', .null) else return (n', decoded.controlJson)
  | _ => return (n', .null)

/-- `broker_rpc_blocking`, given the results of its `sendto` and `recvfrom`. -/
def brokerRpcBlocking (request : Json) (sent : Bool) (reception : Reception) :
    Except Fault (Node × Json) :=
  let n' := (n.sendControl text request).2
  if !sent then .ok (n', .null) else n'.rpcResponse text reception

end Node

/-! ## Registration -/

/-- A node function that may call the broker. -/
abbrev NodeM := Program Node Json Json Fault

namespace Node

def brokerRpc (request : Json) : NodeM Json := Program.call request

/-- The request literal shared by the registration functions. -/
def requestTemplate (scope action : String) : Json :=
  (Json.null.set "scope" (.string scope)).set scope
    ((Json.null.set "action" (.string action)).set "params" (.object []))

def registerNodeRequest (rpcId : UInt32) (name : String) : Json :=
  ((requestTemplate "node" "register").set "rpc_id" (.ofUInt32 rpcId)).setIn
    ["node", "params", "name"] (.string name)

def registerMessageTypeRequest (rpcId : UInt32) (messageTypeName : String)
    (messageSize : MessageSize) : Json :=
  (((requestTemplate "message" "register").set "rpc_id" (.ofUInt32 rpcId)).setIn
    ["message", "params", "name"] (.string messageTypeName)).setIn
    ["message", "params", "size"] (.ofUInt32 messageSize)

def registerTopicRequest (rpcId : UInt32) (topicName : String) (messageTypeId : MessageTypeId)
    (topicPriority : TopicPriority) : Json :=
  ((((requestTemplate "topic" "register").set "rpc_id" (.ofUInt32 rpcId)).setIn
    ["topic", "params", "name"] (.string topicName)).setIn
    ["topic", "params", "message_type_id"] (.ofUInt32 messageTypeId)).setIn
    ["topic", "params", "priority"] (.ofInt8 topicPriority)

/-- The requests of `register_publisher` and `register_subscriber` that add the
endpoint differ in the action only. -/
def addEndpointRequest (action : String) (rpcId : UInt32) (nodeId : BpNodeId)
    (topicId : TopicId) (messageTypeId : MessageTypeId) : Json :=
  ((((requestTemplate "topic" action).set "rpc_id" (.ofUInt32 rpcId)).setIn
    ["topic", "params", "node_id"] (.ofUInt32 nodeId)).setIn
    ["topic", "params", "topic_id"] (.ofUInt32 topicId)).setIn
    ["topic", "params", "message_type_id"] (.ofUInt32 messageTypeId)

/-- `result.empty() || !result["success"]`, negated. -/
def succeeded (result : Json) : NodeM Bool :=
  if result.isEmpty then pure false
  else do
    let success ← Program.ofExcept (result.entry "success")
    Program.ofExcept success.toBool

def fieldUInt32 (result : Json) (key : String) : NodeM UInt32 := do
  let value ← Program.ofExcept (result.entry key)
  Program.ofExcept value.toUInt32

/-- `Node::register_node`. -/
def registerNode : NodeM Bool := do
  let n ← Program.get
  let result ← brokerRpc (registerNodeRequest n.rpcId n.name)
  if !(← succeeded result) then return false
  let nodeId ← fieldUInt32 result "node_id"
  Program.modify fun n => { n with nodeId }
  return true

/-- `Node::register_message_type`; the id when it returned true. -/
def registerMessageType (messageTypeName : String) (messageSize : MessageSize) :
    NodeM (Option MessageTypeId) := do
  let n ← Program.get
  let result ← brokerRpc (registerMessageTypeRequest n.rpcId messageTypeName messageSize)
  if !(← succeeded result) then return none
  let messageTypeId ← fieldUInt32 result "message_type_id"
  return some messageTypeId

/-- `Node::register_topic`; id and actual priority when it returned true. The
publisher's call passes no pointer for the priority and does not read it. -/
def registerTopic (topicName : String) (messageTypeId : MessageTypeId)
    (topicPriority : TopicPriority) (wantPriority : Bool) :
    NodeM (Option (TopicId × TopicPriority)) := do
  let n ← Program.get
  let result ← brokerRpc (registerTopicRequest n.rpcId topicName messageTypeId topicPriority)
  if !(← succeeded result) then return none
  let topicId ← fieldUInt32 result "topic_id"
  if wantPriority then
    let value ← Program.ofExcept (result.entry "topic_priority")
    let actual ← Program.ofExcept value.toInt8
    return some (topicId, actual)
  else return some (topicId, topicPriority)

/-- The third step of both endpoint registrations. -/
def addEndpoint (action : String) (topicId : TopicId) (messageTypeId : MessageTypeId) :
    NodeM Bool := do
  let n ← Program.get
  let result ← brokerRpc (addEndpointRequest action n.rpcId n.nodeId topicId messageTypeId)
  succeeded result

def updateTopic (topicId : TopicId) (f : TopicInfo → TopicInfo) (n : Node) : Node :=
  let entry := f ((n.topics topicId).getD {})
  { n with topics := Function.update n.topics topicId (some entry) }

/-- Change the entry of a priority, created where the order wants it: highest first. -/
def insertByPrio (priority : TopicPriority) (f : TopicInfo → TopicInfo) :
    List (TopicPriority × TopicInfo) → List (TopicPriority × TopicInfo)
  | [] => [(priority, f {})]
  | (p, info) :: rest =>
    if p = priority then (p, f info) :: rest
    else if p < priority then (priority, f {}) :: (p, info) :: rest
    else (p, info) :: insertByPrio priority f rest

def updatePrio (priority : TopicPriority) (f : TopicInfo → TopicInfo) (n : Node) : Node :=
  { n with topicsByPrio := insertByPrio priority f n.topicsByPrio }

def updatePublisher (k : ℕ) (f : Publisher → Publisher) (n : Node) : Node :=
  { n with publishers := n.publishers.modify k f }

def updateSubscriber (k : ℕ) (f : Subscriber → Subscriber) (n : Node) : Node :=
  { n with subscribers := n.subscribers.modify k f }

/-- `Node::register_publisher` on the publisher at position `k`. -/
def registerPublisher (k : ℕ) (p : Publisher) : NodeM Bool := do
  let some messageTypeId ← registerMessageType p.messageTypeName p.messageSize | return false
  Program.modify (updatePublisher k (·.setMessageTypeId messageTypeId))
  let some (topicId, _) ← registerTopic p.topicName messageTypeId p.topicPriority false
    | return false
  Program.modify (updatePublisher k (·.setTopicId topicId))
  if !(← addEndpoint "add_publisher" topicId messageTypeId) then return false
  let add : TopicInfo → TopicInfo := fun info =>
    { info with publishers := info.publishers ++ [k] }
  Program.modify (updateTopic topicId add)
  Program.modify (updatePrio p.topicPriority add)
  return true

/-- `Node::register_subscriber` on the subscriber at position `k`. Unlike a
publisher, it takes over the priority the broker answered with. -/
def registerSubscriber (k : ℕ) (s : Subscriber) : NodeM Bool := do
  let some messageTypeId ← registerMessageType s.messageTypeName s.messageSize | return false
  Program.modify (updateSubscriber k (·.setMessageTypeId messageTypeId))
  let some (topicId, actual) ← registerTopic s.topicName messageTypeId s.topicPriority true
    | return false
  Program.modify (updateSubscriber k fun s => (s.setTopicId topicId).setTopicPriority actual)
  if !(← addEndpoint "add_subscriber" topicId messageTypeId) then return false
  let add : TopicInfo → TopicInfo := fun info =>
    { info with subscribers := info.subscribers ++ [k] }
  Program.modify (updateTopic topicId add)
  Program.modify (updatePrio actual add)
  return true

/-- One of the two endpoint loops of `connect`, from position `k` on. -/
def registerEach {α : Type} (register : ℕ → α → NodeM Bool) : ℕ → List α → NodeM Bool
  | _, [] => return true
  | k, e :: es => do
    if !(← register k e) then return false
    registerEach register (k + 1) es

/-- `Node::connect` once the socket is open. -/
def connect : NodeM Bool := do
  if !(← registerNode) then return false
  let n ← Program.get
  if !(← registerEach registerPublisher 0 n.publishers) then return false
  registerEach registerSubscriber 0 n.subscribers

end Node

end Crps
