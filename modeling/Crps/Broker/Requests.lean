import Crps.Broker.Tables

/-!
# Control requests as values

The dispatcher reads a request from JSON, runs one of five handlers on the
tables and writes the answer as JSON. Requests and successful answers are named
here, so that the handlers can be reasoned about without the JSON around them.
-/

namespace Crps

inductive ControlRequest where
  | registerNode (name : String)
  | registerMessageType (name : String) (size : MessageSize)
  | registerTopic (name : String) (messageTypeId : MessageTypeId) (priority : TopicPriority)
  | addPublisher (nodeId : BpNodeId) (topicId : TopicId) (messageTypeId : MessageTypeId)
  | addSubscriber (nodeId : BpNodeId) (topicId : TopicId) (messageTypeId : MessageTypeId)
  deriving DecidableEq, Repr

/-- What a request that succeeds is answered with. -/
inductive ControlAnswer where
  | node (nodeId : BpNodeId)
  | messageType (messageTypeId : MessageTypeId)
  | topic (topicId : TopicId) (priority : TopicPriority)
  | added
  deriving DecidableEq, Repr

namespace ControlRequest

/-- The parameters of the two requests that add an endpoint. -/
def endpointParams (params : Json) : Except Fault (BpNodeId × TopicId × MessageTypeId) := do
  let nodeId ← (← params.field "node_id").toUInt32
  let topicId ← (← params.field "topic_id").toUInt32
  let messageTypeId ← (← params.field "message_type_id").toUInt32
  return (nodeId, topicId, messageTypeId)

/-- The request the dispatcher reads, none where it has no handler. -/
def ofJson (request : Json) : Except Fault (Option ControlRequest) := do
  let scope ← request.field "scope"
  if scope.isStr "node" then
    let body ← request.field "node"
    let action ← body.field "action"
    if action.isStr "register" then
      let params ← body.field "params"
      let name ← (← params.field "name").toStr
      return some (.registerNode name)
    else return none
  else if scope.isStr "message" then
    let body ← request.field "message"
    let action ← body.field "action"
    if action.isStr "register" then
      let params ← body.field "params"
      let name ← (← params.field "name").toStr
      let size ← (← params.field "size").toUInt32
      return some (.registerMessageType name size)
    else return none
  else if scope.isStr "topic" then
    let body ← request.field "topic"
    let action ← body.field "action"
    if action.isStr "register" then
      let params ← body.field "params"
      let name ← (← params.field "name").toStr
      let messageTypeId ← (← params.field "message_type_id").toUInt32
      let priority ← (← params.field "priority").toInt8
      return some (.registerTopic name messageTypeId priority)
    else if action.isStr "add_publisher" then
      let params ← body.field "params"
      let ids ← endpointParams params
      return some (.addPublisher ids.1 ids.2.1 ids.2.2)
    else if action.isStr "add_subscriber" then
      let params ← body.field "params"
      let ids ← endpointParams params
      return some (.addSubscriber ids.1 ids.2.1 ids.2.2)
    else return none
  else return none

def errorMessage : ControlRequest → String
  | registerNode .. => "Failed to register node"
  | registerMessageType .. => "Failed to register message type"
  | registerTopic .. => "Failed to register topic"
  | addPublisher .. => "Failed to add publisher"
  | addSubscriber .. => "Failed to add subscriber"

end ControlRequest

namespace ControlAnswer

/-- Each request has its own kind of answer. -/
def Fits : ControlAnswer → ControlRequest → Prop
  | node _, .registerNode _ => True
  | messageType _, .registerMessageType .. => True
  | topic .., .registerTopic .. => True
  | added, .addPublisher .. => True
  | added, .addSubscriber .. => True
  | _, _ => False

/-- The fields an answer adds to a success response. -/
def fields : ControlAnswer → Json → Json
  | node nodeId, response => response.set "node_id" (.ofUInt32 nodeId)
  | messageType messageTypeId, response =>
    response.set "message_type_id" (.ofUInt32 messageTypeId)
  | topic topicId priority, response =>
    (response.set "topic_id" (.ofUInt32 topicId)).set "topic_priority" (.ofInt8 priority)
  | added, response => response

/-- The success response to a request with the given `rpc_id`. -/
def response (a : ControlAnswer) (rpcId : Json) : Json := a.fields (rpcSuccessResponse rpcId)

theorem response_eq (a : ControlAnswer) (rpcId : Json) :
    a.response rpcId = .object (match a with
      | node nodeId =>
        [("node_id", .ofUInt32 nodeId), ("rpc_id", rpcId), ("success", .boolean true)]
      | messageType messageTypeId =>
        [("message_type_id", .ofUInt32 messageTypeId), ("rpc_id", rpcId),
          ("success", .boolean true)]
      | topic topicId priority =>
        [("rpc_id", rpcId), ("success", .boolean true), ("topic_id", .ofUInt32 topicId),
          ("topic_priority", .ofInt8 priority)]
      | added => [("rpc_id", rpcId), ("success", .boolean true)]) := by
  cases a <;> rfl

theorem response_injective {a b : ControlAnswer} {x y : Json}
    (h : a.response x = b.response y) : a = b := by
  rw [response_eq, response_eq] at h
  injection h with h
  cases a <;> cases b <;>
    simp_all [Json.ofUInt32_injective.eq_iff, Json.ofInt8_injective.eq_iff]

theorem response_success (a : ControlAnswer) (rpcId : Json) :
    (a.response rpcId).field "success" = .ok (.boolean true) := by
  rw [response_eq]
  cases a <;> rfl

end ControlAnswer

theorem rpcFailureResponse_success (rpcId errorCode : Int32) (errorMessage : String) :
    (rpcFailureResponse rpcId errorCode errorMessage).field "success" = .ok (.boolean false) :=
  rfl

theorem rpcFailureResponse_eq (rpcId errorCode : Int32) (errorMessage : String) :
    rpcFailureResponse rpcId errorCode errorMessage = .object
      [("error_code", .ofInt32 errorCode), ("error_message", .string errorMessage),
        ("rpc_id", .ofInt32 rpcId), ("success", .boolean false)] := rfl

theorem rpcFailureResponse_plain (rpcId errorCode : Int32) (errorMessage : String) :
    (rpcFailureResponse rpcId errorCode errorMessage).Plain := by
  rw [rpcFailureResponse_eq]
  simp only [Json.Plain, Json.PlainFields, Json.plain_ofInt32, and_true, List.map_cons,
    List.map_nil]
  decide

def Reply.map {α β : Type} (f : α → β) (reply : Reply α) : Reply β :=
  ⟨reply.tables, reply.result.map f, reply.accesses⟩

namespace Tables

variable (t : Tables)

/-- The handler of a request. -/
def handle (clientAddress : String) : ControlRequest → Reply ControlAnswer
  | .registerNode name => (t.registerNode clientAddress name).map .node
  | .registerMessageType name size => (t.registerMessageType name size).map .messageType
  | .registerTopic name messageTypeId priority =>
    (t.registerTopic name messageTypeId priority).map fun r => .topic r.1 r.2
  | .addPublisher nodeId topicId messageTypeId =>
    (t.addPublisher nodeId topicId messageTypeId).map fun _ => .added
  | .addSubscriber nodeId topicId messageTypeId =>
    (t.addSubscriber nodeId topicId messageTypeId).map fun _ => .added

/-- Reading, handling and answering are the three stages of the dispatcher. -/
theorem processControlRequest_eq (clientAddress : String) (request : Json) :
    t.processControlRequest clientAddress request =
      (ControlRequest.ofJson request).bind fun
        | none => .ok ⟨t, .null, []⟩
        | some c => respond request (t.handle clientAddress c) c.errorMessage
            ControlAnswer.fields := by
  have hmap : ∀ {α : Type} (reply : Reply α) (f : α → ControlAnswer) (message : String),
      respond request (reply.map f) message ControlAnswer.fields =
        respond request reply message fun a => (f a).fields := by
    intro α reply f message
    cases hr : reply.result <;> simp [respond, Reply.map, hr]
  have hite : ∀ {α β : Type} (c : Bool) (x y : Except Fault α) (f : α → Except Fault β),
      ((if c = true then x else y) >>= f) = if c = true then x >>= f else y >>= f := by
    intro α β c x y f
    cases c <;> rfl
  change _ = ControlRequest.ofJson request >>= _
  simp only [processControlRequest, ControlRequest.ofJson, ControlRequest.endpointParams,
    bind_assoc, pure_bind, hite, handle, ControlRequest.errorMessage, hmap]
  rfl

/-- The response to a handled request: failure, or the answer with the request's own id. -/
theorem respond_ok {request : Json} {reply : Reply ControlAnswer} {message : String}
    {r : ControlReply} (h : respond request reply message ControlAnswer.fields = .ok r) :
    r.tables = reply.tables ∧ r.accesses = reply.accesses ∧
      match reply.result with
      | none => ∃ rpcId, r.response = rpcFailureResponse rpcId 0 message
      | some a => ∃ rpcId, request.field "rpc_id" = .ok rpcId ∧ r.response = a.response rpcId := by
  cases hresult : reply.result with
  | none =>
    simp only [respond, hresult, bind, Except.bind] at h
    split at h
    · cases h
    · split at h
      · cases h
      · injection h with h
        subst h
        exact ⟨rfl, rfl, _, rfl⟩
  | some a =>
    simp only [respond, hresult, bind, Except.bind] at h
    split at h
    · cases h
    · rename_i rpcId hrpc
      injection h with h
      subst h
      exact ⟨rfl, rfl, rpcId, hrpc, rfl⟩

theorem processControlRequest_tables {clientAddress : String} {request : Json}
    {reply : ControlReply} (h : t.processControlRequest clientAddress request = .ok reply) :
    (ControlRequest.ofJson request = .ok none ∧ reply = ⟨t, .null, []⟩) ∨
      ∃ c, ControlRequest.ofJson request = .ok (some c) ∧
        respond request (t.handle clientAddress c) c.errorMessage ControlAnswer.fields =
          .ok reply := by
  rw [processControlRequest_eq] at h
  cases hc : ControlRequest.ofJson request with
  | error e =>
    rw [hc] at h
    cases h
  | ok found =>
    rw [hc] at h
    cases found with
    | none =>
      injection h with h
      exact .inl ⟨rfl, h.symm⟩
    | some c => exact .inr ⟨c, rfl, h⟩

theorem processControlRequest_of_granted {clientAddress : String} {request rpcId : Json}
    {c : ControlRequest} {a : ControlAnswer} (hc : ControlRequest.ofJson request = .ok (some c))
    (ha : (t.handle clientAddress c).result = some a)
    (hrpc : request.field "rpc_id" = .ok rpcId) :
    t.processControlRequest clientAddress request =
      .ok ⟨(t.handle clientAddress c).tables, a.response rpcId,
        (t.handle clientAddress c).accesses⟩ := by
  rw [processControlRequest_eq, hc]
  simp only [Except.bind, respond, ha, hrpc, bind, pure, Except.pure]
  rfl

theorem handle_of_response {clientAddress : String} {request : Json} {reply : ControlReply}
    {c : ControlRequest} {a : ControlAnswer} {rpcId : Json}
    (h : t.processControlRequest clientAddress request = .ok reply)
    (hc : ControlRequest.ofJson request = .ok (some c)) (ha : reply.response = a.response rpcId) :
    reply.tables = (t.handle clientAddress c).tables ∧
      (t.handle clientAddress c).result = some a := by
  rw [processControlRequest_eq, hc] at h
  obtain ⟨htables, _, hresponse⟩ := respond_ok h
  refine ⟨htables, ?_⟩
  cases hresult : (t.handle clientAddress c).result with
  | none =>
    rw [hresult] at hresponse
    obtain ⟨id, hfailure⟩ := hresponse
    have hsuccess := congrArg (fun j => Json.field j "success") (hfailure.symm.trans ha)
    simp only [rpcFailureResponse_success, ControlAnswer.response_success] at hsuccess
    cases hsuccess
  | some b =>
    rw [hresult] at hresponse
    obtain ⟨id, _, hsuccess⟩ := hresponse
    exact congrArg some (ControlAnswer.response_injective (hsuccess.symm.trans ha))

end Tables

end Crps
