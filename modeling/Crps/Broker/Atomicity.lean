import Crps.Broker.Service

/-!
# Control requests are atomic

A response without `success` leaves the tables as they were; one with it stands
for at most one new entry, which the identifiers in it denote as long as no
table holds more entries than there are identifiers. Registering a message type
or a topic again answers the same and changes nothing.
-/

namespace Crps

/-- The dispatcher finds every field it reads, with its JSON type. -/
structure Json.WellTyped (request : Json) : Prop where
  read : ∃ c, ControlRequest.ofJson request = .ok c
  rpcId : ∃ z, request.field "rpc_id" = .ok (.number z)

/-- The response carries `success == true`. -/
def Json.Succeeds (response : Json) : Prop := response.field "success" = .ok (.boolean true)

namespace ControlRequest

/-- The two requests that may be repeated. -/
def Repeatable : ControlRequest → Prop
  | registerMessageType .. => True
  | registerTopic .. => True
  | _ => False

end ControlRequest

namespace Tables

/-- The tables differ by at most one appended entry, or one node id appended to the endpoints
of one topic. -/
inductive AppendsOne (t : Tables) : Tables → Prop
  | nothing : AppendsOne t t
  | node (info : NodeInfo) : AppendsOne t { t with nodes := t.nodes ++ [info] }
  | messageType (info : MessageTypeInfo) :
      AppendsOne t { t with messageTypes := t.messageTypes ++ [info] }
  | topic (topic : Topic) : AppendsOne t { t with topics := t.topics ++ [topic] }
  | publisher (k : ℕ) (nodeId : BpNodeId) :
      AppendsOne t { t with topics := t.topics.modify k (addTopicPublisher nodeId) }
  | subscriber (k : ℕ) (nodeId : BpNodeId) :
      AppendsOne t { t with topics := t.topics.modify k (addTopicSubscriber nodeId) }

variable {t t' : Tables} {client : String} {c : ControlRequest} {a : ControlAnswer}
variable {result : Option ControlAnswer} {request : Json}

theorem Handled.appendsOne (h : Handled t client c t' result) : AppendsOne t t' := by
  cases h with
  | refused => exact .nothing
  | newNode => exact .node _
  | newMessageType => exact .messageType _
  | knownMessageType => exact .nothing
  | newTopic => exact .topic _
  | knownTopic => exact .nothing
  | addedPublisher => exact .publisher _ _
  | addedSubscriber => exact .subscriber _ _

theorem Handled.tables_of_refused (h : Handled t client c t' none) : t' = t := by
  cases h
  rfl

/-- A granted registration of a type or topic is granted again, to any client, with the same
answer and no change. -/
theorem Handled.repeats (h : Handled t client c t' (some a)) (hc : c.Repeatable)
    (client' : String) :
    (t'.handle client' c).tables = t' ∧ (t'.handle client' c).result = some a := by
  cases h with
  | newNode | addedPublisher | addedSubscriber => exact hc.elim
  | @newMessageType name size hfind =>
    have hfound := findNamed_append (x := MessageTypeInfo.mk name size) hfind
    simp only [handle, registerMessageType, Reply.map, hfound, ne_eq, not_true_eq_false, if_false]
    exact ⟨trivial, rfl⟩
  | knownMessageType hfind =>
    simp only [handle, registerMessageType, Reply.map, hfind, ne_eq, not_true_eq_false, if_false]
    exact ⟨trivial, rfl⟩
  | @newTopic name messageTypeId priority hfind hpriority =>
    have hfound := findNamed_append (x := Topic.mk name messageTypeId priority [] []) hfind
    simp only [handle, registerTopic, Reply.map, hfound, ne_eq, not_true_eq_false, and_false,
      if_false]
    exact ⟨trivial, rfl⟩
  | @knownTopic i topic priority hfind hpriority =>
    have hsame : ¬ (priority ≠ dontcareTopicPriority ∧ topic.priority ≠ priority) := by tauto
    simp only [handle, registerTopic, Reply.map, hfind, ne_eq, not_true_eq_false, if_false,
      if_neg hsame]
    exact ⟨trivial, rfl⟩

/-- The three ways a well-typed request is answered, with the tables after it. -/
inductive Replied (t : Tables) (client : String) (request : Json) : Tables → Json → Prop
  | unhandled : ControlRequest.ofJson request = .ok none → Replied t client request t .null
  | refused {c : ControlRequest} {z : ℤ} :
      ControlRequest.ofJson request = .ok (some c) → (t.handle client c).result = none →
      request.field "rpc_id" = .ok (.number z) →
      Replied t client request t (rpcFailureResponse (Int32.ofInt z) 0 c.errorMessage)
  | granted {c : ControlRequest} {a : ControlAnswer} {z : ℤ} :
      ControlRequest.ofJson request = .ok (some c) → (t.handle client c).result = some a →
      request.field "rpc_id" = .ok (.number z) →
      Replied t client request (t.handle client c).tables (a.response (.number z))

theorem processControlRequest_replied (t : Tables) (client : String) (h : request.WellTyped) :
    ∃ reply, t.processControlRequest client request = .ok reply ∧
      t.Replied client request reply.tables reply.response := by
  obtain ⟨⟨read, hread⟩, z, hrpc⟩ := h
  rw [processControlRequest_eq, hread]
  cases read with
  | none => exact ⟨_, rfl, .unhandled hread⟩
  | some c =>
    change ∃ reply, respond request (t.handle client c) c.errorMessage ControlAnswer.fields =
      .ok reply ∧ _
    have hhandled := t.handle_handled client c
    cases hresult : (t.handle client c).result with
    | none =>
      rw [hresult] at hhandled
      simp only [respond, hresult, hrpc, bind, Except.bind]
      refine ⟨_, rfl, ?_⟩
      simp only [hhandled.tables_of_refused]
      exact .refused hread hresult hrpc
    | some a =>
      simp only [respond, hresult, hrpc, bind, Except.bind]
      exact ⟨_, rfl, .granted hread hresult hrpc⟩

/-- What a response says about the tables before and after it. -/
structure Atomic (t : Tables) (client : String) (request : Json) (t' : Tables)
    (response : Json) : Prop where
  unchanged : ¬ response.Succeeds → t' = t
  changed : response.Succeeds → t.AppendsOne t'
  denotes : response.Succeeds → ∃ c a z,
    ControlRequest.ofJson request = .ok (some c) ∧
      response = ControlAnswer.response a (.number z) ∧ (t'.IdsSuffice c → t'.Records c a)
  repeats : response.Succeeds → ∀ c, ControlRequest.ofJson request = .ok (some c) →
    c.Repeatable → ∃ a z, response = ControlAnswer.response a (.number z) ∧
      ∀ client' request', request'.WellTyped →
        ControlRequest.ofJson request' = .ok (some c) →
        ∃ again z', t'.processControlRequest client' request' = .ok again ∧
          again.tables = t' ∧ again.response = a.response (.number z')

theorem null_not_succeeds : ¬ Json.null.Succeeds := by
  intro h
  cases h

theorem failure_not_succeeds (rpcId errorCode : Int32) (errorMessage : String) :
    ¬ (rpcFailureResponse rpcId errorCode errorMessage).Succeeds := by
  intro h
  rw [Json.Succeeds, rpcFailureResponse_success] at h
  cases h

theorem repeats_of_granted (hresult : (t.handle client c).result = some a)
    (hrepeatable : c.Repeatable) (client' : String) (htyped : request.WellTyped)
    (hread : ControlRequest.ofJson request = .ok (some c)) :
    ∃ again z, (t.handle client c).tables.processControlRequest client' request = .ok again ∧
      again.tables = (t.handle client c).tables ∧ again.response = a.response (.number z) := by
  have hhandled := t.handle_handled client c
  rw [hresult] at hhandled
  obtain ⟨htables, hagain⟩ := hhandled.repeats hrepeatable client'
  obtain ⟨z, hrpc⟩ := htyped.rpcId
  exact ⟨_, z, Tables.processControlRequest_of_granted _ hread hagain hrpc, htables, rfl⟩

theorem Replied.atomic {response : Json} (h : t.Replied client request t' response) :
    t.Atomic client request t' response := by
  cases h with
  | unhandled =>
    exact ⟨fun _ => rfl, fun h => (null_not_succeeds h).elim,
      fun h => (null_not_succeeds h).elim, fun h => (null_not_succeeds h).elim⟩
  | refused =>
    exact ⟨fun _ => rfl, fun h => (failure_not_succeeds _ _ _ h).elim,
      fun h => (failure_not_succeeds _ _ _ h).elim,
      fun h => (failure_not_succeeds _ _ _ h).elim⟩
  | @granted c a z hread hresult hrpc =>
    have hhandled := t.handle_handled client c
    rw [hresult] at hhandled
    refine ⟨fun h => absurd (a.response_success _) h, fun _ => hhandled.appendsOne,
      fun _ => ⟨c, a, z, hread, rfl, hhandled.records⟩, ?_⟩
    intro _ c' hread' hrepeatable
    rw [hread] at hread'
    cases hread'
    exact ⟨a, z, rfl, fun client' request' htyped hsame =>
      repeats_of_granted hresult hrepeatable client' htyped hsame⟩

/-- Control requests are atomic. -/
theorem processControlRequest_atomic (t : Tables) (client : String) (request : Json)
    (h : request.WellTyped) :
    ∃ reply, t.processControlRequest client request = .ok reply ∧
      t.Atomic client request reply.tables reply.response := by
  obtain ⟨reply, hreply, hreplied⟩ := t.processControlRequest_replied client h
  exact ⟨reply, hreply, hreplied.atomic⟩

/-- The first node registers. -/
theorem processControlRequest_atomic_talker :
    ∃ reply, Tables.processControlRequest {} "10.0.0.2:40001" Broker.registerTalkerRequest =
        .ok reply ∧
      Tables.Atomic {} "10.0.0.2:40001" Broker.registerTalkerRequest reply.tables
        reply.response :=
  processControlRequest_atomic {} _ _ ⟨⟨some (.registerNode "talker"), rfl⟩, 0, rfl⟩

end Tables

end Crps
