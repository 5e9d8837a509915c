import Crps.Broker.Registry
import Crps.Foundation.JsonText

/-!
# References between the broker's tables

Topics refer to message types and nodes by position. Every request keeps these
references inside the tables but one: `register_topic` logs an unknown message
type and then goes on. What it takes for a run to stay clear of that is exactly
characterized.
-/

namespace Crps
namespace Tables

/-- Every id stored in the tables is a position of the table it refers to. -/
structure Intact (t : Tables) : Prop where
  messageTypes : ∀ topic ∈ t.topics, topic.messageTypeId.toNat < t.messageTypes.length
  publishers : ∀ topic ∈ t.topics, ∀ id ∈ topic.publishers, id.toNat < t.nodes.length
  subscribers : ∀ topic ∈ t.topics, ∀ id ∈ topic.subscribers, id.toNat < t.nodes.length

/-- The topics of `t'` that `t` does not have are of a type `t` already has. -/
def BoundBefore (t t' : Tables) : Prop :=
  ∀ topic ∈ t'.topics.drop t.topics.length, topic.messageTypeId.toNat < t.messageTypes.length

/-- A `register_topic` request the broker can take: of a registered type, or
turned away for its don't-care priority before the type is looked at. -/
def NamesKnownType (t : Tables) : ControlRequest → Prop
  | .registerTopic name messageTypeId priority =>
    messageTypeId.toNat < t.messageTypes.length ∨
      (findNamed Topic.name name t.topics = none ∧ priority = dontcareTopicPriority)
  | _ => True

variable {t : Tables}

theorem intact_empty : Intact {} := ⟨by simp, by simp, by simp⟩

theorem boundBefore_of_length_le {t' : Tables} (h : t'.topics.length ≤ t.topics.length) :
    BoundBefore t t' := by
  intro topic htopic
  rw [List.drop_eq_nil_of_le h] at htopic
  cases htopic

theorem mem_modify {f : Topic → Topic} {topics : List Topic} {k : ℕ} {topic : Topic}
    (h : topic ∈ topics.modify k f) : topic ∈ topics ∨ ∃ old ∈ topics, topic = f old := by
  obtain ⟨i, hi⟩ := List.getElem?_of_mem h
  rw [List.getElem?_modify] at hi
  obtain ⟨old, hold, rfl⟩ := Option.map_eq_some_iff.mp hi
  split_ifs
  · exact .inr ⟨old, List.mem_of_getElem? hold, rfl⟩
  · exact .inl (List.mem_of_getElem? hold)

theorem Handled.intact {client : String} {c : ControlRequest} {t' : Tables}
    {result : Option ControlAnswer} (h : Handled t client c t' result) (hi : Intact t)
    (hknown : NamesKnownType t c) : Intact t' ∧ BoundBefore t t' := by
  cases h with
  | refused => exact ⟨hi, boundBefore_of_length_le le_rfl⟩
  | knownMessageType => exact ⟨hi, boundBefore_of_length_le le_rfl⟩
  | knownTopic => exact ⟨hi, boundBefore_of_length_le le_rfl⟩
  | @newNode name =>
    have hgrow : ∀ id : BpNodeId, id.toNat < t.nodes.length →
        id.toNat < (t.nodes ++ [NodeInfo.mk name client]).length := fun id hid => by
      rw [List.length_append]
      exact hid.trans_le (Nat.le_add_right _ _)
    exact ⟨⟨hi.messageTypes, fun topic ht id hid => hgrow id (hi.publishers topic ht id hid),
      fun topic ht id hid => hgrow id (hi.subscribers topic ht id hid)⟩,
      boundBefore_of_length_le le_rfl⟩
  | newMessageType =>
    refine ⟨⟨fun topic ht => ?_, hi.publishers, hi.subscribers⟩, boundBefore_of_length_le le_rfl⟩
    rw [List.length_append]
    exact (hi.messageTypes topic ht).trans_le (Nat.le_add_right _ _)
  | @newTopic name messageTypeId priority hfind hprio =>
    have htype : messageTypeId.toNat < t.messageTypes.length :=
      hknown.resolve_right fun h => hprio h.2
    refine ⟨⟨fun topic ht => ?_, fun topic ht id hid => ?_, fun topic ht id hid => ?_⟩,
      fun topic ht => ?_⟩
    · rcases List.mem_append.mp ht with ht | ht
      · exact hi.messageTypes topic ht
      · rw [List.mem_singleton.mp ht]
        exact htype
    · rcases List.mem_append.mp ht with ht | ht
      · exact hi.publishers topic ht id hid
      · rw [List.mem_singleton.mp ht] at hid
        cases hid
    · rcases List.mem_append.mp ht with ht | ht
      · exact hi.subscribers topic ht id hid
      · rw [List.mem_singleton.mp ht] at hid
        cases hid
    · rw [List.drop_left, List.mem_singleton] at ht
      rw [ht]
      exact htype
  | @addedPublisher nodeId topicId topic₀ hnode =>
    refine ⟨⟨fun topic ht => ?_, fun topic ht id hid => ?_, fun topic ht id hid => ?_⟩,
      boundBefore_of_length_le (by simp)⟩
    · rcases mem_modify ht with ht | ⟨old, hold, rfl⟩
      · exact hi.messageTypes topic ht
      · exact hi.messageTypes old hold
    · rcases mem_modify ht with ht | ⟨old, hold, rfl⟩
      · exact hi.publishers topic ht id hid
      · rcases List.mem_append.mp hid with hid | hid
        · exact hi.publishers old hold id hid
        · rw [List.mem_singleton.mp hid]
          exact hnode
    · rcases mem_modify ht with ht | ⟨old, hold, rfl⟩
      · exact hi.subscribers topic ht id hid
      · exact hi.subscribers old hold id hid
  | @addedSubscriber nodeId topicId topic₀ hnode =>
    refine ⟨⟨fun topic ht => ?_, fun topic ht id hid => ?_, fun topic ht id hid => ?_⟩,
      boundBefore_of_length_le (by simp)⟩
    · rcases mem_modify ht with ht | ⟨old, hold, rfl⟩
      · exact hi.messageTypes topic ht
      · exact hi.messageTypes old hold
    · rcases mem_modify ht with ht | ⟨old, hold, rfl⟩
      · exact hi.publishers topic ht id hid
      · exact hi.publishers old hold id hid
    · rcases mem_modify ht with ht | ⟨old, hold, rfl⟩
      · exact hi.subscribers topic ht id hid
      · rcases List.mem_append.mp hid with hid | hid
        · exact hi.subscribers old hold id hid
        · rw [List.mem_singleton.mp hid]
          exact hnode

/-! ## Table accesses -/

theorem validateTopicParameters_inRange (hi : Intact t) (nodeId : BpNodeId) (topicId : TopicId)
    (messageTypeId : MessageTypeId) :
    ∀ a ∈ (t.validateTopicParameters nodeId topicId messageTypeId).2, a.InRange := by
  unfold validateTopicParameters
  cases htopic : t.topics[topicId.toNat]? with
  | none =>
    simp only
    split_ifs <;> simp
  | some topic =>
    have hlt := (List.getElem?_eq_some_iff.mp htopic).1
    have htype := hi.messageTypes topic (List.mem_of_getElem? htopic)
    simp only
    split_ifs with hnode hknown hmatch
    · simp
    · simp
    · simp [TableAccess.InRange, topicAccess, messageTypeAccess, hlt, htype]
      omega
    · simp [TableAccess.InRange, topicAccess, messageTypeAccess, hlt, htype]

theorem addEndpoint_inRange (hi : Intact t) (nodeId : BpNodeId) (topicId : TopicId)
    (messageTypeId : MessageTypeId) (add : Topic → Topic) :
    ∀ a ∈ (t.addEndpoint nodeId topicId messageTypeId add).accesses, a.InRange := by
  have hchecked := validateTopicParameters_inRange hi nodeId topicId messageTypeId
  simp only [addEndpoint]
  split_ifs with hvalid
  · obtain ⟨hnode, _, topic, htopic, _⟩ := t.validateTopicParameters_true hvalid
    have hlt := (List.getElem?_eq_some_iff.mp htopic).1
    intro a ha
    rcases List.mem_append.mp ha with ha | ha
    · exact hchecked a ha
    · simp only [List.mem_cons, List.not_mem_nil, or_false] at ha
      rcases ha with rfl | rfl | rfl
      · exact hlt
      · exact hnode
      · exact hlt
  · exact hchecked

/-- `register_topic` stays in range exactly on the requests it can take. -/
theorem registerTopic_inRange_iff (hi : Intact t) (name : String) (messageTypeId : MessageTypeId)
    (priority : TopicPriority) :
    (∀ a ∈ (t.registerTopic name messageTypeId priority).accesses, a.InRange) ↔
      NamesKnownType t (.registerTopic name messageTypeId priority) := by
  simp only [registerTopic, NamesKnownType]
  cases hfind : findNamed Topic.name name t.topics with
  | none =>
    by_cases hprio : priority = dontcareTopicPriority
    · simp [hprio]
    · simp [hprio, TableAccess.InRange, messageTypeAccess]
  | some found =>
    obtain ⟨i, topic⟩ := found
    have htype := hi.messageTypes topic (List.mem_of_getElem? (findNamed_some hfind).1)
    by_cases hmatch : topic.messageTypeId = messageTypeId
    · subst hmatch
      simp only [ne_eq, not_true_eq_false, if_false, htype, true_or, iff_true]
      split_ifs <;> simp
    · simp [hmatch, TableAccess.InRange, messageTypeAccess, htype]

theorem handle_good_iff (hi : Intact t) (client : String) (c : ControlRequest) :
    (Intact (t.handle client c).tables ∧ BoundBefore t (t.handle client c).tables ∧
      ∀ a ∈ (t.handle client c).accesses, a.InRange) ↔ NamesKnownType t c := by
  have hhandled := t.handle_handled client c
  cases c with
  | registerTopic name messageTypeId priority =>
    have hrange := registerTopic_inRange_iff hi name messageTypeId priority
    refine ⟨fun h => hrange.mp h.2.2, fun hknown => ?_⟩
    obtain ⟨hintact, hbound⟩ := hhandled.intact hi hknown
    exact ⟨hintact, hbound, hrange.mpr hknown⟩
  | registerNode name =>
    obtain ⟨hintact, hbound⟩ := hhandled.intact hi trivial
    refine iff_of_true ⟨hintact, hbound, ?_⟩ trivial
    simp only [handle, registerNode, Reply.map]
    split <;> simp
  | registerMessageType name size =>
    obtain ⟨hintact, hbound⟩ := hhandled.intact hi trivial
    refine iff_of_true ⟨hintact, hbound, ?_⟩ trivial
    simp only [handle, registerMessageType, Reply.map]
    split
    · simp
    · split_ifs <;> simp
  | addPublisher nodeId topicId messageTypeId =>
    obtain ⟨hintact, hbound⟩ := hhandled.intact hi trivial
    exact iff_of_true ⟨hintact, hbound, addEndpoint_inRange hi nodeId topicId messageTypeId _⟩
      trivial
  | addSubscriber nodeId topicId messageTypeId =>
    obtain ⟨hintact, hbound⟩ := hhandled.intact hi trivial
    exact iff_of_true ⟨hintact, hbound, addEndpoint_inRange hi nodeId topicId messageTypeId _⟩
      trivial

end Tables

/-! ## Runs of the broker -/

namespace Record

/-- After the iteration every reference is in range, every table access was, and
new topics are of a type registered before. -/
def Sound (r : Record) : Prop :=
  r.iteration.broker.tables.Intact ∧ r.before.tables.BoundBefore r.iteration.broker.tables ∧
    ∀ a ∈ r.iteration.accesses, a.InRange

/-- A `register_topic` request in this iteration named a registered type, or was
turned away as a new topic with don't-care priority. -/
def RegistersKnownType (r : Record) : Prop :=
  ∀ request response c, r.iteration.disposal = .control request response →
    ControlRequest.ofJson request = .ok (some c) → r.before.tables.NamesKnownType c

end Record

namespace Broker

variable {text : JsonText}

theorem processData_inRange {b : Broker} (hi : b.tables.Intact) (sendto : Sendto) (packet : Bytes)
    (header : BpDataHeader) :
    ∀ a ∈ (processData b sendto packet header).accesses, a.InRange := by
  simp only [processData]
  cases htopic : b.tables.topics[header.topicId.toNat]? with
  | none => simp
  | some topic =>
    have hlt := (List.getElem?_eq_some_iff.mp htopic).1
    have hmem := List.mem_of_getElem? htopic
    simp only
    split_ifs
    · simpa [TableAccess.InRange, Tables.topicAccess] using hlt
    · simpa [TableAccess.InRange, Tables.topicAccess] using hlt
    · intro a ha
      rcases List.mem_append.mp ha with ha | ha
      · rw [List.mem_singleton.mp ha]
        exact hlt
      · obtain ⟨id, hid, rfl⟩ := List.mem_map.mp ha
        exact hi.subscribers topic hmem id hid

/-- One iteration from intact tables. -/
theorem spinIteration_sound_iff {r : Record} (hi : r.before.tables.Intact)
    (h : r.before.spinIteration text r.arrival.sendto r.arrival.client r.arrival.datagram =
      .ok r.iteration) : r.Sound ↔ r.RegistersKnownType := by
  have hquiet : ∀ it : Iteration, it.broker.tables = r.before.tables →
      (∀ a ∈ it.accesses, a.InRange) →
      (∀ request response c, it.disposal = .control request response →
        ControlRequest.ofJson request ≠ .ok (some c)) →
      r.iteration = it → (r.Sound ↔ r.RegistersKnownType) := by
    intro it htables hrange hnone heq
    refine iff_of_true ⟨?_, ?_, ?_⟩ fun request response c hdisposal hc => ?_
    · rw [heq, htables]
      exact hi
    · rw [heq, htables]
      exact Tables.boundBefore_of_length_le le_rfl
    · rw [heq]
      exact hrange
    · rw [heq] at hdisposal
      exact absurd hc (hnone request response c hdisposal)
  obtain ⟨d, _, hit⟩ := spinIteration_iterates h
  generalize hiteration : r.iteration = it at hit
  cases hit with
  | refused => exact hquiet _ rfl (by simp) (by simp) hiteration
  | invalid => exact hquiet _ rfl (by simp) (by simp) hiteration
  | unknownType => exact hquiet _ rfl (by simp) (by simp) hiteration
  | data =>
    refine hquiet _ (by rw [processData_broker]; rfl) (processData_inRange
      (b := r.before.checked r.arrival.client r.arrival.datagram d.header.counter) hi _ _ _) ?_
      hiteration
    exact fun _ _ _ hdisposal =>
      absurd hdisposal (processData_disposal_ne_control _ _ _ _ _ _)
  | control _ _ hcontrol =>
    obtain ⟨reply, hreply, packet, _, rfl⟩ := processControl_ok hcontrol
    rcases Tables.processControlRequest_tables _ hreply with ⟨hnone, rfl⟩ | ⟨c, hc, hrespond⟩
    · refine hquiet _ rfl (by simp) (fun request response c hdisposal hc => ?_) hiteration
      injection hdisposal with hrequest _
      rw [← hrequest, hnone] at hc
      cases hc
    · obtain ⟨htables, haccesses, _⟩ := Tables.respond_ok hrespond
      have hgood := Tables.handle_good_iff hi r.arrival.client c
      have hsound : r.Sound ↔ r.before.tables.NamesKnownType c := by
        rw [← hgood, Record.Sound, hiteration]
        simp only [htables, haccesses]
        rfl
      rw [hsound]
      refine ⟨fun hknown request response c' hdisposal hc' => ?_, fun hknown => ?_⟩
      · rw [hiteration] at hdisposal
        injection hdisposal with hrequest _
        rw [← hrequest, hc] at hc'
        injection hc' with hc'
        injection hc' with hc'
        rw [← hc']
        exact hknown
      · exact hknown d.controlJson reply.response c (by rw [hiteration]) hc

theorem spin_sound_iff {b : Broker} (hi : b.tables.Intact) (as : List Arrival) :
    (∀ r ∈ b.spin text as, r.Sound) ↔ ∀ r ∈ b.spin text as, r.RegistersKnownType := by
  induction as generalizing b with
  | nil => simp [spin]
  | cons a as ih =>
    rw [spin]
    split
    · simp
    · rename_i it hit
      have hhead : Record.Sound ⟨b, a, it⟩ ↔ Record.RegistersKnownType ⟨b, a, it⟩ :=
        spinIteration_sound_iff hi hit
      simp only [List.forall_mem_cons]
      rw [← hhead]
      refine and_congr_right fun hsound => ?_
      split_ifs
      · simp
      · exact ih hsound.1

/-- The broker's tables stay referentially intact, and its accesses in range, in
exactly the runs that never get past the missing rejection in `register_topic`. -/
theorem spin_references_iff (as : List Arrival) :
    (∀ r ∈ started.spin text as, r.Sound) ↔
      ∀ r ∈ started.spin text as, r.RegistersKnownType :=
  spin_sound_iff Tables.intact_empty as

/-- A `register_topic` request sent before any message type is registered. -/
def unknownTypeRequest : Json :=
  .object [("rpc_id", .number 0), ("scope", .string "topic"),
    ("topic", .object [("action", .string "register"),
      ("params", .object [("message_type_id", .number 7), ("name", .string "pose"),
        ("priority", .number 0)])])]

theorem unknownTypeRequest_plain : unknownTypeRequest.Plain := by
  simp only [unknownTypeRequest, Json.Plain, Json.PlainFields]
  decide

/-- The broker accepts it and binds the topic to a type that does not exist. -/
theorem spin_references_broken :
    ¬ ∀ as : List Arrival, ∀ r ∈ started.spin compactJson as, r.Sound := by
  intro h
  have hlen : 9 + (compactJson.dump unknownTypeRequest).length < 2 ^ 32 := by decide
  have hpacket := @spinIteration_controlPacket compactJson started "10.0.0.2:40001"
    unknownTypeRequest 1 (fun _ _ _ => true) unknownTypeRequest_plain hlen rfl
  have hread : ControlRequest.ofJson unknownTypeRequest =
      .ok (some (.registerTopic "pose" 7 0)) := rfl
  have hid : unknownTypeRequest.field "rpc_id" = .ok (.number 0) := rfl
  rw [processControl_answers (a := .topic 0 0) _ hread rfl hid] at hpacket
  have hsound := h [⟨_, _, _⟩] _ (by
    rw [spin, hpacket]
    exact List.mem_cons_self)
  exact absurd (hsound.1.messageTypes _ (List.mem_singleton.mpr rfl)) (by decide)

end Broker

end Crps
