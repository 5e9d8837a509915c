import Crps.Foundation.NamedTable
import Crps.Protocol.Packet

/-!
# The broker's tables and the control requests

The three vectors of the broker and the five handlers that grow them. Beside
its result, a handler reports every indexed access it makes, those inside log
statements included: an index past the end is undefined behaviour in the
source, and the model carries on as if the text had been read from somewhere.
-/

namespace Crps

structure NodeInfo where
  name : String
  address : String
  deriving DecidableEq, Repr

structure MessageTypeInfo where
  name : String
  size : MessageSize
  deriving DecidableEq, Repr

structure Topic where
  name : String
  messageTypeId : MessageTypeId
  priority : TopicPriority
  publishers : List BpNodeId
  subscribers : List BpNodeId
  deriving DecidableEq, Repr

/-- `m_nodes`, `m_message_types` and `m_topics`; positions are the ids. -/
structure Tables where
  nodes : List NodeInfo := []
  messageTypes : List MessageTypeInfo := []
  topics : List Topic := []
  deriving DecidableEq, Repr

inductive TableName where
  | nodes
  | messageTypes
  | topics
  deriving DecidableEq, Repr

/-- One use of `operator[]` on a table, with the size the table had. -/
structure TableAccess where
  table : TableName
  index : ℕ
  size : ℕ
  deriving DecidableEq, Repr

def TableAccess.InRange (a : TableAccess) : Prop := a.index < a.size

instance (a : TableAccess) : Decidable a.InRange := inferInstanceAs (Decidable (_ < _))

/-- What a handler leaves behind: the tables, its out-parameters when it
returned true, and the table accesses on the way. -/
structure Reply (α : Type) where
  tables : Tables
  result : Option α
  accesses : List TableAccess := []

namespace Tables

variable (t : Tables)

def nodeAccess (id : BpNodeId) : TableAccess := ⟨.nodes, id.toNat, t.nodes.length⟩

def messageTypeAccess (id : MessageTypeId) : TableAccess :=
  ⟨.messageTypes, id.toNat, t.messageTypes.length⟩

def topicAccess (id : TopicId) : TableAccess := ⟨.topics, id.toNat, t.topics.length⟩

/-- `Broker::register_node`. -/
def registerNode (clientAddress nodeName : String) : Reply BpNodeId :=
  match findNamed NodeInfo.name nodeName t.nodes with
  | none =>
    let nodes := t.nodes ++ [⟨nodeName, clientAddress⟩]
    { tables := { t with nodes }, result := some (UInt32.ofNat (nodes.length - 1)) }
  | some _ => { tables := t, result := none }

/-- `Broker::register_message_type`. -/
def registerMessageType (messageTypeName : String) (messageSize : MessageSize) :
    Reply MessageTypeId :=
  match findNamed MessageTypeInfo.name messageTypeName t.messageTypes with
  | none =>
    let messageTypes := t.messageTypes ++ [⟨messageTypeName, messageSize⟩]
    { tables := { t with messageTypes }
      result := some (UInt32.ofNat (messageTypes.length - 1)) }
  | some (i, info) =>
    if info.size ≠ messageSize then { tables := t, result := none }
    else { tables := t, result := some (UInt32.ofNat i) }

/-- `Broker::register_topic`. An unknown message type is logged at the start,
and the function goes on. -/
def registerTopic (topicName : String) (messageTypeId : MessageTypeId)
    (topicPriority : TopicPriority) : Reply (TopicId × TopicPriority) :=
  match findNamed Topic.name topicName t.topics with
  | none =>
    if topicPriority = dontcareTopicPriority then { tables := t, result := none }
    else
      let topics := t.topics ++ [⟨topicName, messageTypeId, topicPriority, [], []⟩]
      { tables := { t with topics }
        result := some (UInt32.ofNat (topics.length - 1), topicPriority)
        accesses := [t.messageTypeAccess messageTypeId] }
  | some (i, topic) =>
    if topic.messageTypeId ≠ messageTypeId then
      { tables := t
        result := none
        accesses := [t.messageTypeAccess topic.messageTypeId,
          t.messageTypeAccess messageTypeId] }
    else if topicPriority ≠ dontcareTopicPriority ∧ topic.priority ≠ topicPriority then
      { tables := t, result := none }
    else { tables := t, result := some (UInt32.ofNat i, topic.priority) }

/-- `Broker::validate_topic_parameters`. -/
def validateTopicParameters (nodeId : BpNodeId) (topicId : TopicId)
    (messageTypeId : MessageTypeId) : Bool × List TableAccess :=
  if t.nodes.length ≤ nodeId.toNat then (false, [])
  else
    match t.topics[topicId.toNat]? with
    | none => (false, [])
    | some topic =>
      if t.messageTypes.length ≤ messageTypeId.toNat then (false, [])
      else
        let bound := [t.topicAccess topicId, t.messageTypeAccess topic.messageTypeId]
        if topic.messageTypeId ≠ messageTypeId then
          (false, bound ++ [t.messageTypeAccess messageTypeId])
        else (true, bound)

/-- The shared body of `add_publisher` and `add_subscriber`, which differ in
the list of the topic they append to. -/
def addEndpoint (nodeId : BpNodeId) (topicId : TopicId) (messageTypeId : MessageTypeId)
    (add : Topic → Topic) : Reply Unit :=
  let checked := t.validateTopicParameters nodeId topicId messageTypeId
  if checked.1 then
    { tables := { t with topics := t.topics.modify topicId.toNat add }
      result := some ()
      accesses := checked.2 ++ [t.topicAccess topicId, t.nodeAccess nodeId,
        t.topicAccess topicId] }
  else { tables := t, result := none, accesses := checked.2 }

/-- `Broker::add_publisher`. -/
def addPublisher (nodeId : BpNodeId) (topicId : TopicId) (messageTypeId : MessageTypeId) :
    Reply Unit :=
  t.addEndpoint nodeId topicId messageTypeId fun topic =>
    { topic with publishers := topic.publishers ++ [nodeId] }

/-- `Broker::add_subscriber`. -/
def addSubscriber (nodeId : BpNodeId) (topicId : TopicId) (messageTypeId : MessageTypeId) :
    Reply Unit :=
  t.addEndpoint nodeId topicId messageTypeId fun topic =>
    { topic with subscribers := topic.subscribers ++ [nodeId] }

end Tables

/-! ## The dispatcher -/

/-- `Broker::rpc_failure_response`. The request id arrives as an `int`. -/
def rpcFailureResponse (rpcId errorCode : Int32) (errorMessage : String) : Json :=
  (((Json.null.set "rpc_id" (.ofInt32 rpcId)).set "success" (.boolean false)).set
    "error_code" (.ofInt32 errorCode)).set "error_message" (.string errorMessage)

/-- The start of every success response: the request's own `rpc_id` and the verdict. -/
def rpcSuccessResponse (rpcId : Json) : Json :=
  (Json.null.set "rpc_id" rpcId).set "success" (.boolean true)

structure ControlReply where
  tables : Tables
  response : Json
  accesses : List TableAccess

/-- The two exits of a dispatcher branch once its handler has returned. -/
def respond {α : Type} (request : Json) (reply : Reply α) (errorMessage : String)
    (fields : α → Json → Json) : Except Fault ControlReply :=
  match reply.result with
  | none => do
    let rpcId ← (← request.field "rpc_id").toInt32
    return ⟨reply.tables, rpcFailureResponse rpcId 0 errorMessage, reply.accesses⟩
  | some a => do
    let rpcId ← request.field "rpc_id"
    return ⟨reply.tables, fields a (rpcSuccessResponse rpcId), reply.accesses⟩

namespace Tables

variable (t : Tables)

/-- `Broker::process_control_request`. A scope or action without a handler is
answered with the empty response. -/
def processControlRequest (clientAddress : String) (request : Json) :
    Except Fault ControlReply := do
  let scope ← request.field "scope"
  if scope.isStr "node" then
    let body ← request.field "node"
    let action ← body.field "action"
    if action.isStr "register" then
      let params ← body.field "params"
      let name ← (← params.field "name").toStr
      respond request (t.registerNode clientAddress name) "Failed to register node"
        fun nodeId response => response.set "node_id" (.ofUInt32 nodeId)
    else return ⟨t, .null, []⟩
  else if scope.isStr "message" then
    let body ← request.field "message"
    let action ← body.field "action"
    if action.isStr "register" then
      let params ← body.field "params"
      let name ← (← params.field "name").toStr
      let size ← (← params.field "size").toUInt32
      respond request (t.registerMessageType name size) "Failed to register message type"
        fun messageTypeId response => response.set "message_type_id" (.ofUInt32 messageTypeId)
    else return ⟨t, .null, []⟩
  else if scope.isStr "topic" then
    let body ← request.field "topic"
    let action ← body.field "action"
    if action.isStr "register" then
      let params ← body.field "params"
      let name ← (← params.field "name").toStr
      let messageTypeId ← (← params.field "message_type_id").toUInt32
      let priority ← (← params.field "priority").toInt8
      respond request (t.registerTopic name messageTypeId priority) "Failed to register topic"
        fun registered response =>
          (response.set "topic_id" (.ofUInt32 registered.1)).set "topic_priority"
            (.ofInt8 registered.2)
    else if action.isStr "add_publisher" then
      let params ← body.field "params"
      let nodeId ← (← params.field "node_id").toUInt32
      let topicId ← (← params.field "topic_id").toUInt32
      let messageTypeId ← (← params.field "message_type_id").toUInt32
      respond request (t.addPublisher nodeId topicId messageTypeId) "Failed to add publisher"
        fun _ response => response
    else if action.isStr "add_subscriber" then
      let params ← body.field "params"
      let nodeId ← (← params.field "node_id").toUInt32
      let topicId ← (← params.field "topic_id").toUInt32
      let messageTypeId ← (← params.field "message_type_id").toUInt32
      respond request (t.addSubscriber nodeId topicId messageTypeId) "Failed to add subscriber"
        fun _ response => response
    else return ⟨t, .null, []⟩
  else return ⟨t, .null, []⟩

end Tables

end Crps
