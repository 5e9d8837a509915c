import Crps.Broker.Loop
import Crps.Broker.Requests
import Crps.Foundation.JsonText

/-!
# Names and identifiers in the broker's tables

Whatever a request does to the tables is one of eight outcomes. Names stay
distinct, entries stay where they are, and a successful answer states a fact
about the tables that no later request takes back; agreement between any two
answers of a run follows.
-/

namespace Crps
namespace Tables

/-! ## What a handler can do -/

def addTopicPublisher (nodeId : BpNodeId) (topic : Topic) : Topic :=
  { topic with publishers := topic.publishers ++ [nodeId] }

def addTopicSubscriber (nodeId : BpNodeId) (topic : Topic) : Topic :=
  { topic with subscribers := topic.subscribers ++ [nodeId] }

/-- The outcomes of a request: the tables after it and the answer on success. -/
inductive Handled (t : Tables) (client : String) :
    ControlRequest → Tables → Option ControlAnswer → Prop
  | refused (c : ControlRequest) : Handled t client c t none
  | newNode {name : String} :
      findNamed NodeInfo.name name t.nodes = none →
      Handled t client (.registerNode name) { t with nodes := t.nodes ++ [⟨name, client⟩] }
        (some (.node (UInt32.ofNat t.nodes.length)))
  | newMessageType {name : String} {size : MessageSize} :
      findNamed MessageTypeInfo.name name t.messageTypes = none →
      Handled t client (.registerMessageType name size)
        { t with messageTypes := t.messageTypes ++ [⟨name, size⟩] }
        (some (.messageType (UInt32.ofNat t.messageTypes.length)))
  | knownMessageType {i : ℕ} {info : MessageTypeInfo} :
      findNamed MessageTypeInfo.name info.name t.messageTypes = some (i, info) →
      Handled t client (.registerMessageType info.name info.size) t
        (some (.messageType (UInt32.ofNat i)))
  | newTopic {name : String} {messageTypeId : MessageTypeId} {priority : TopicPriority} :
      findNamed Topic.name name t.topics = none → priority ≠ dontcareTopicPriority →
      Handled t client (.registerTopic name messageTypeId priority)
        { t with topics := t.topics ++ [⟨name, messageTypeId, priority, [], []⟩] }
        (some (.topic (UInt32.ofNat t.topics.length) priority))
  | knownTopic {i : ℕ} {topic : Topic} {priority : TopicPriority} :
      findNamed Topic.name topic.name t.topics = some (i, topic) →
      (priority = dontcareTopicPriority ∨ topic.priority = priority) →
      Handled t client (.registerTopic topic.name topic.messageTypeId priority) t
        (some (.topic (UInt32.ofNat i) topic.priority))
  | addedPublisher {nodeId : BpNodeId} {topicId : TopicId} {topic : Topic} :
      nodeId.toNat < t.nodes.length → t.topics[topicId.toNat]? = some topic →
      topic.messageTypeId.toNat < t.messageTypes.length →
      Handled t client (.addPublisher nodeId topicId topic.messageTypeId)
        { t with topics := t.topics.modify topicId.toNat (addTopicPublisher nodeId) }
        (some .added)
  | addedSubscriber {nodeId : BpNodeId} {topicId : TopicId} {topic : Topic} :
      nodeId.toNat < t.nodes.length → t.topics[topicId.toNat]? = some topic →
      topic.messageTypeId.toNat < t.messageTypes.length →
      Handled t client (.addSubscriber nodeId topicId topic.messageTypeId)
        { t with topics := t.topics.modify topicId.toNat (addTopicSubscriber nodeId) }
        (some .added)

variable (t : Tables)

theorem validateTopicParameters_true {nodeId : BpNodeId} {topicId : TopicId}
    {messageTypeId : MessageTypeId}
    (h : (t.validateTopicParameters nodeId topicId messageTypeId).1 = true) :
    nodeId.toNat < t.nodes.length ∧ messageTypeId.toNat < t.messageTypes.length ∧
      ∃ topic, t.topics[topicId.toNat]? = some topic ∧ topic.messageTypeId = messageTypeId := by
  unfold validateTopicParameters at h
  cases htopic : t.topics[topicId.toNat]? with
  | none =>
    simp only [htopic] at h
    split_ifs at h
  | some topic =>
    simp only [htopic] at h
    split_ifs at h with hnode htype hmatch
    exact ⟨by omega, by omega, topic, rfl, by simpa using hmatch⟩

theorem handle_handled (client : String) (c : ControlRequest) :
    Handled t client c (t.handle client c).tables (t.handle client c).result := by
  cases c with
  | registerNode name =>
    simp only [handle, registerNode, Reply.map]
    cases hfind : findNamed NodeInfo.name name t.nodes with
    | none => simpa using Handled.newNode hfind
    | some found => exact .refused _
  | registerMessageType name size =>
    simp only [handle, registerMessageType, Reply.map]
    cases hfind : findNamed MessageTypeInfo.name name t.messageTypes with
    | none => simpa using Handled.newMessageType hfind
    | some found =>
      obtain ⟨i, info⟩ := found
      obtain ⟨_, rfl⟩ := findNamed_some hfind
      by_cases hsize : info.size = size
      · subst hsize
        simpa using Handled.knownMessageType hfind
      · simpa [hsize] using Handled.refused _
  | registerTopic name messageTypeId priority =>
    simp only [handle, registerTopic, Reply.map]
    cases hfind : findNamed Topic.name name t.topics with
    | none =>
      by_cases hprio : priority = dontcareTopicPriority
      · simpa [hprio] using Handled.refused _
      · simpa [hprio] using Handled.newTopic hfind hprio
    | some found =>
      obtain ⟨i, topic⟩ := found
      obtain ⟨_, rfl⟩ := findNamed_some hfind
      by_cases htype : topic.messageTypeId = messageTypeId
      · subst htype
        by_cases hprio : priority = dontcareTopicPriority ∨ topic.priority = priority
        · have hnot : ¬ (priority ≠ dontcareTopicPriority ∧ topic.priority ≠ priority) := by tauto
          simpa [hnot] using Handled.knownTopic hfind hprio
        · have hyes : priority ≠ dontcareTopicPriority ∧ topic.priority ≠ priority := by tauto
          simpa [hyes] using Handled.refused _
      · simpa [htype] using Handled.refused _
  | addPublisher nodeId topicId messageTypeId =>
    simp only [handle, addPublisher, addEndpoint, Reply.map]
    split_ifs with hvalid
    · obtain ⟨hnode, htype, topic, htopic, rfl⟩ := t.validateTopicParameters_true hvalid
      exact .addedPublisher hnode htopic htype
    · exact .refused _
  | addSubscriber nodeId topicId messageTypeId =>
    simp only [handle, addSubscriber, addEndpoint, Reply.map]
    split_ifs with hvalid
    · obtain ⟨hnode, htype, topic, htopic, rfl⟩ := t.validateTopicParameters_true hvalid
      exact .addedSubscriber hnode htopic htype
    · exact .refused _

/-! ## Tables only grow -/

/-- A topic keeps its name, type and priority; its endpoint lists grow at the end. -/
structure TopicGrows (old new : Topic) : Prop where
  name : new.name = old.name
  messageTypeId : new.messageTypeId = old.messageTypeId
  priority : new.priority = old.priority
  publishers : old.publishers <+: new.publishers
  subscribers : old.subscribers <+: new.subscribers

theorem TopicGrows.refl (topic : Topic) : TopicGrows topic topic :=
  ⟨rfl, rfl, rfl, List.prefix_refl _, List.prefix_refl _⟩

theorem TopicGrows.trans {a b c : Topic} (h : TopicGrows a b) (h' : TopicGrows b c) :
    TopicGrows a c :=
  ⟨h'.name.trans h.name, h'.messageTypeId.trans h.messageTypeId, h'.priority.trans h.priority,
    h.publishers.trans h'.publishers, h.subscribers.trans h'.subscribers⟩

theorem topicGrows_addPublisher (nodeId : BpNodeId) (topic : Topic) :
    TopicGrows topic (addTopicPublisher nodeId topic) :=
  ⟨rfl, rfl, rfl, List.prefix_append _ _, List.prefix_refl _⟩

theorem topicGrows_addSubscriber (nodeId : BpNodeId) (topic : Topic) :
    TopicGrows topic (addTopicSubscriber nodeId topic) :=
  ⟨rfl, rfl, rfl, List.prefix_refl _, List.prefix_append _ _⟩

/-- Every entry of the tables `t` is still at its position in `t'`. -/
structure Grows (t t' : Tables) : Prop where
  nodes : Extends (· = ·) t.nodes t'.nodes
  messageTypes : Extends (· = ·) t.messageTypes t'.messageTypes
  topics : Extends TopicGrows t.topics t'.topics

theorem Grows.refl (t : Tables) : Grows t t :=
  ⟨Extends.refl (fun _ => rfl) _, Extends.refl (fun _ => rfl) _, Extends.refl TopicGrows.refl _⟩

theorem Grows.trans {t t' t'' : Tables} (h : Grows t t') (h' : Grows t' t'') : Grows t t'' :=
  ⟨h.nodes.trans (fun hab hbc => hab.trans hbc) h'.nodes,
    h.messageTypes.trans (fun hab hbc => hab.trans hbc) h'.messageTypes,
    h.topics.trans (fun hab hbc => hab.trans hbc) h'.topics⟩

variable {t}

theorem Handled.grows {client : String} {c : ControlRequest} {t' : Tables}
    {result : Option ControlAnswer} (h : Handled t client c t' result) : Grows t t' := by
  have hbase := Grows.refl t
  cases h with
  | refused => exact hbase
  | newNode => exact { hbase with nodes := Extends.append (fun _ => rfl) _ _ }
  | newMessageType => exact { hbase with messageTypes := Extends.append (fun _ => rfl) _ _ }
  | knownMessageType => exact hbase
  | newTopic => exact { hbase with topics := Extends.append TopicGrows.refl _ _ }
  | knownTopic => exact hbase
  | addedPublisher =>
    exact { hbase with
      topics := Extends.modify TopicGrows.refl (topicGrows_addPublisher _) _ _ }
  | addedSubscriber =>
    exact { hbase with
      topics := Extends.modify TopicGrows.refl (topicGrows_addSubscriber _) _ _ }

/-! ## Names stay distinct -/

structure NamesDistinct (t : Tables) : Prop where
  nodes : (t.nodes.map NodeInfo.name).Nodup
  messageTypes : (t.messageTypes.map MessageTypeInfo.name).Nodup
  topics : (t.topics.map Topic.name).Nodup

theorem namesDistinct_empty : NamesDistinct {} := ⟨List.nodup_nil, List.nodup_nil, List.nodup_nil⟩

theorem map_name_modify {f : Topic → Topic} (hf : ∀ topic, (f topic).name = topic.name)
    (topics : List Topic) (k : ℕ) :
    (topics.modify k f).map Topic.name = topics.map Topic.name := by
  apply List.ext_getElem?
  intro i
  by_cases hk : k = i
  · cases h : topics[i]? <;> simp [hk, h, hf]
  · simp [hk]

theorem Handled.namesDistinct {client : String} {c : ControlRequest} {t' : Tables}
    {result : Option ControlAnswer} (h : Handled t client c t' result) (hn : NamesDistinct t) :
    NamesDistinct t' := by
  cases h with
  | refused => exact hn
  | newNode hfind => exact { hn with nodes := nodup_names_append hn.nodes hfind }
  | newMessageType hfind =>
    exact { hn with messageTypes := nodup_names_append hn.messageTypes hfind }
  | knownMessageType => exact hn
  | newTopic hfind => exact { hn with topics := nodup_names_append hn.topics hfind }
  | knownTopic => exact hn
  | addedPublisher =>
    refine { hn with topics := ?_ }
    simp only [map_name_modify (f := addTopicPublisher _) fun _ => rfl]
    exact hn.topics
  | addedSubscriber =>
    refine { hn with topics := ?_ }
    simp only [map_name_modify (f := addTopicSubscriber _) fun _ => rfl]
    exact hn.topics

/-! ## What an answer records -/

/-- No table has more entries than there are ids. -/
structure Small (t : Tables) : Prop where
  nodes : t.nodes.length ≤ 2 ^ 32
  messageTypes : t.messageTypes.length ≤ 2 ^ 32
  topics : t.topics.length ≤ 2 ^ 32

/-- There are ids for all entries of the table a request registers into. -/
def IdsSuffice (t : Tables) : ControlRequest → Prop
  | .registerNode _ => t.nodes.length ≤ 2 ^ 32
  | .registerMessageType .. => t.messageTypes.length ≤ 2 ^ 32
  | .registerTopic .. => t.topics.length ≤ 2 ^ 32
  | _ => True

theorem Small.idsSuffice {t : Tables} (h : Small t) (c : ControlRequest) : IdsSuffice t c := by
  cases c with
  | registerNode => exact h.nodes
  | registerMessageType => exact h.messageTypes
  | registerTopic => exact h.topics
  | addPublisher | addSubscriber => trivial

theorem Handled.length_le {client : String} {c : ControlRequest} {t' : Tables}
    {result : Option ControlAnswer} (h : Handled t client c t' result) :
    t'.nodes.length ≤ t.nodes.length + 1 ∧
      t'.messageTypes.length ≤ t.messageTypes.length + 1 ∧
      t'.topics.length ≤ t.topics.length + 1 := by
  cases h <;> simp

/-- The fact about the tables a successful answer stands for. -/
def Records (t : Tables) : ControlRequest → ControlAnswer → Prop
  | .registerNode name, .node id => ∃ info, t.nodes[id.toNat]? = some info ∧ info.name = name
  | .registerMessageType name size, .messageType id =>
    t.messageTypes[id.toNat]? = some ⟨name, size⟩
  | .registerTopic name messageTypeId priority, .topic id actual =>
    ∃ topic, t.topics[id.toNat]? = some topic ∧ topic.name = name ∧
      topic.messageTypeId = messageTypeId ∧ topic.priority = actual ∧
      (priority = dontcareTopicPriority ∨ priority = actual)
  | .addPublisher nodeId topicId messageTypeId, .added =>
    nodeId.toNat < t.nodes.length ∧ ∃ topic, t.topics[topicId.toNat]? = some topic ∧
      topic.messageTypeId = messageTypeId ∧ nodeId ∈ topic.publishers
  | .addSubscriber nodeId topicId messageTypeId, .added =>
    nodeId.toNat < t.nodes.length ∧ ∃ topic, t.topics[topicId.toNat]? = some topic ∧
      topic.messageTypeId = messageTypeId ∧ nodeId ∈ topic.subscribers
  | _, _ => False

theorem toNat_ofNat_of_lt {n : ℕ} (h : n < 2 ^ 32) : (UInt32.ofNat n).toNat = n := by
  rw [UInt32.toNat_ofNat']
  omega

/-- A success is on record in the tables it leaves. -/
theorem Handled.records {client : String} {c : ControlRequest} {t' : Tables} {a : ControlAnswer}
    (h : Handled t client c t' (some a)) (hids : IdsSuffice t' c) : Records t' c a := by
  cases h with
  | @newNode name =>
    have hlt : t.nodes.length < 2 ^ 32 := by simpa [IdsSuffice] using hids
    refine ⟨⟨name, client⟩, ?_, rfl⟩
    rw [toNat_ofNat_of_lt hlt]
    simp
  | newMessageType =>
    have hlt : t.messageTypes.length < 2 ^ 32 := by simpa [IdsSuffice] using hids
    simp only [Records]
    rw [toNat_ofNat_of_lt hlt]
    simp
  | knownMessageType hfind =>
    have hget := (findNamed_some hfind).1
    have hlt := (List.getElem?_eq_some_iff.mp hget).1
    have hbound : t.messageTypes.length ≤ 2 ^ 32 := hids
    simp only [Records]
    rw [toNat_ofNat_of_lt (by omega), hget]
  | @newTopic name messageTypeId priority =>
    have hlt : t.topics.length < 2 ^ 32 := by simpa [IdsSuffice] using hids
    refine ⟨⟨name, messageTypeId, priority, [], []⟩, ?_, rfl, rfl, rfl, .inr rfl⟩
    rw [toNat_ofNat_of_lt hlt]
    simp
  | @knownTopic i topic _ hfind hprio =>
    have hget := (findNamed_some hfind).1
    have hlt := (List.getElem?_eq_some_iff.mp hget).1
    have hbound : t.topics.length ≤ 2 ^ 32 := hids
    refine ⟨topic, ?_, rfl, rfl, rfl, hprio.imp_right Eq.symm⟩
    rw [toNat_ofNat_of_lt (by omega), hget]
  | @addedPublisher nodeId _ topic hnode htopic =>
    exact ⟨hnode, addTopicPublisher nodeId topic, by simp [htopic], rfl,
      by simp [addTopicPublisher]⟩
  | @addedSubscriber nodeId _ topic hnode htopic =>
    exact ⟨hnode, addTopicSubscriber nodeId topic, by simp [htopic], rfl,
      by simp [addTopicSubscriber]⟩

/-- What is on record stays on record. -/
theorem Records.grows {t' : Tables} {c : ControlRequest} {a : ControlAnswer} (h : Records t c a)
    (hg : Grows t t') : Records t' c a := by
  cases c with
  | registerNode name =>
    cases a with
    | node id =>
      obtain ⟨info, hget, hname⟩ := h
      obtain ⟨_, hget', rfl⟩ := hg.nodes _ _ hget
      exact ⟨info, hget', hname⟩
    | _ => exact h
  | registerMessageType name size =>
    cases a with
    | messageType id =>
      obtain ⟨_, hget', rfl⟩ := hg.messageTypes _ _ h
      exact hget'
    | _ => exact h
  | registerTopic name messageTypeId priority =>
    cases a with
    | topic id actual =>
      obtain ⟨topic, hget, hname, htype, hactual, hprio⟩ := h
      obtain ⟨topic', hget', hgrows⟩ := hg.topics _ _ hget
      exact ⟨topic', hget', hgrows.name.trans hname, hgrows.messageTypeId.trans htype,
        hgrows.priority.trans hactual, hprio⟩
    | _ => exact h
  | addPublisher nodeId topicId messageTypeId =>
    cases a with
    | added =>
      obtain ⟨hnode, topic, hget, htype, hmem⟩ := h
      obtain ⟨topic', hget', hgrows⟩ := hg.topics _ _ hget
      exact ⟨hnode.trans_le hg.nodes.length_le, topic', hget', hgrows.messageTypeId.trans htype,
        hgrows.publishers.subset hmem⟩
    | _ => exact h
  | addSubscriber nodeId topicId messageTypeId =>
    cases a with
    | added =>
      obtain ⟨hnode, topic, hget, htype, hmem⟩ := h
      obtain ⟨topic', hget', hgrows⟩ := hg.topics _ _ hget
      exact ⟨hnode.trans_le hg.nodes.length_le, topic', hget', hgrows.messageTypeId.trans htype,
        hgrows.subscribers.subset hmem⟩
    | _ => exact h

/-! ## Agreement of answers on record -/

section Agreement

variable (hn : NamesDistinct t)

include hn

theorem Records.node_agree {name name' : String} {id id' : BpNodeId}
    (h : Records t (.registerNode name) (.node id))
    (h' : Records t (.registerNode name') (.node id')) : name = name' ↔ id = id' := by
  obtain ⟨info, hget, rfl⟩ := h
  obtain ⟨info', hget', rfl⟩ := h'
  rw [name_eq_iff_index hn.nodes hget hget', UInt32.toNat_inj]

theorem Records.messageType_agree {name name' : String} {size size' : MessageSize}
    {id id' : MessageTypeId} (h : Records t (.registerMessageType name size) (.messageType id))
    (h' : Records t (.registerMessageType name' size') (.messageType id')) :
    (name = name' ↔ id = id') ∧ (name = name' → size = size') := by
  have hiff := name_eq_iff_index hn.messageTypes h h'
  rw [UInt32.toNat_inj] at hiff
  refine ⟨hiff, fun hname => ?_⟩
  obtain rfl := hiff.mp hname
  simp only [Records] at h h'
  rw [h, Option.some.injEq, MessageTypeInfo.mk.injEq] at h'
  exact h'.2

theorem Records.topic_agree {name name' : String} {type type' : MessageTypeId}
    {priority priority' actual actual' : TopicPriority} {id id' : TopicId}
    (h : Records t (.registerTopic name type priority) (.topic id actual))
    (h' : Records t (.registerTopic name' type' priority') (.topic id' actual')) :
    (name = name' ↔ id = id') ∧ (name = name' → type = type' ∧ actual = actual') := by
  obtain ⟨topic, hget, rfl, rfl, rfl, _⟩ := h
  obtain ⟨topic', hget', rfl, rfl, rfl, _⟩ := h'
  have hiff := name_eq_iff_index hn.topics hget hget'
  rw [UInt32.toNat_inj] at hiff
  refine ⟨hiff, fun hname => ?_⟩
  obtain rfl := hiff.mp hname
  rw [hget, Option.some.injEq] at hget'
  rw [hget']
  exact ⟨rfl, rfl⟩

end Agreement

end Tables

/-! ## Runs of the broker -/

/-- The record answered request `c` with success and the ids in `a`. -/
def Record.Answers (r : Record) (c : ControlRequest) (a : ControlAnswer) : Prop :=
  ∃ request rpcId, r.iteration.disposal = .control request (a.response rpcId) ∧
    ControlRequest.ofJson request = .ok (some c) ∧ request.field "rpc_id" = .ok rpcId

namespace Broker

variable {text : JsonText}

theorem processData_disposal_ne_control (b : Broker) (sendto : Sendto) (packet : Bytes)
    (header : BpDataHeader) (request response : Json) :
    (processData b sendto packet header).disposal ≠ .control request response := by
  simp only [processData]
  split
  · simp
  · split_ifs <;> simp

theorem processControl_answers {b : Broker} {client : String} {request rpcId : Json}
    {c : ControlRequest} {a : ControlAnswer} (sendto : Sendto)
    (hc : ControlRequest.ofJson request = .ok (some c))
    (ha : (b.tables.handle client c).result = some a)
    (hrpc : request.field "rpc_id" = .ok rpcId) :
    processControl text b sendto client request =
      let packet := bpControlJsonToPacketBuffer text (a.response rpcId)
        ((b.clientCounters client).getD 0)
      .ok { broker := { b with tables := (b.tables.handle client c).tables }
            disposal := .control request (a.response rpcId)
            attempts := [⟨client, packet, sendto 0 client packet⟩]
            stopped := !sendto 0 client packet
            accesses := (b.tables.handle client c).accesses } := by
  have hreply := b.tables.processControlRequest_of_granted hc ha hrpc
  simp only [processControl, hreply, bind, Except.bind, pure, Except.pure]

/-- An iteration leaves the tables alone or answers one request. -/
theorem spinIteration_tables {b : Broker} {sendto : Sendto} {client : String} {datagram : Bytes}
    {it : Iteration} (h : b.spinIteration text sendto client datagram = .ok it) :
    it.broker.tables = b.tables ∨
      ∃ request response c, it.disposal = .control request response ∧
        ControlRequest.ofJson request = .ok (some c) ∧
        it.broker.tables = (b.tables.handle client c).tables ∧
        it.accesses = (b.tables.handle client c).accesses := by
  obtain ⟨d, _, hit⟩ := spinIteration_iterates h
  cases hit with
  | refused => exact .inl rfl
  | invalid => exact .inl rfl
  | unknownType => exact .inl rfl
  | data => exact .inl (by rw [processData_broker]; rfl)
  | control _ _ hcontrol =>
    obtain ⟨reply, hreply, packet, _, rfl⟩ := processControl_ok hcontrol
    rcases Tables.processControlRequest_tables _ hreply with ⟨_, rfl⟩ | ⟨c, hc, hrespond⟩
    · exact .inl rfl
    · obtain ⟨htables, haccesses, _⟩ := Tables.respond_ok hrespond
      exact .inr ⟨_, _, c, rfl, hc, htables, haccesses⟩

theorem spinIteration_grows {b : Broker} {sendto : Sendto} {client : String} {datagram : Bytes}
    {it : Iteration} (h : b.spinIteration text sendto client datagram = .ok it) :
    b.tables.Grows it.broker.tables := by
  rcases spinIteration_tables h with htables | ⟨_, _, c, _, _, htables, _⟩
  · rw [htables]
    exact Tables.Grows.refl _
  · rw [htables]
    exact (b.tables.handle_handled client c).grows

theorem spinIteration_namesDistinct {b : Broker} {sendto : Sendto} {client : String}
    {datagram : Bytes} {it : Iteration} (hn : b.tables.NamesDistinct)
    (h : b.spinIteration text sendto client datagram = .ok it) :
    it.broker.tables.NamesDistinct := by
  rcases spinIteration_tables h with htables | ⟨_, _, c, _, _, htables, _⟩
  · rw [htables]
    exact hn
  · rw [htables]
    exact (b.tables.handle_handled client c).namesDistinct hn

theorem answers_handled {b : Broker} {as : List Arrival} {r : Record} (hr : r ∈ b.spin text as)
    {c : ControlRequest} {a : ControlAnswer} (h : r.Answers c a) :
    Tables.Handled r.before.tables r.arrival.client c r.iteration.broker.tables (some a) := by
  obtain ⟨request, rpcId, hdisposal, hc, _⟩ := h
  obtain ⟨d, _, hit⟩ := spinIteration_iterates (spinIteration_of_mem_spin hr)
  generalize r.iteration = it at hdisposal hit
  cases hit with
  | refused => cases hdisposal
  | invalid => cases hdisposal
  | unknownType => cases hdisposal
  | data => exact absurd hdisposal (processData_disposal_ne_control _ _ _ _ _ _)
  | control _ _ hcontrol =>
    obtain ⟨reply, hreply, packet, _, rfl⟩ := processControl_ok hcontrol
    injection hdisposal with hrequest hresponse
    subst hrequest
    obtain ⟨htables, hresult⟩ := Tables.handle_of_response _ hreply hc hresponse
    rw [htables, ← hresult]
    exact Tables.handle_handled _ _ _

theorem answers_records {b : Broker} {as : List Arrival}
    (hsmall : ∀ r ∈ b.spin text as, r.iteration.broker.tables.Small) {r : Record}
    (hr : r ∈ b.spin text as) {c : ControlRequest} {a : ControlAnswer} (h : r.Answers c a) :
    r.iteration.broker.tables.Records c a :=
  (answers_handled hr h).records ((hsmall r hr).idsSuffice c)

variable (text) in
theorem spin_grows (b : Broker) (as : List Arrival) :
    (∀ r ∈ b.spin text as, b.tables.Grows r.before.tables) ∧
      (b.spin text as).Pairwise fun r r' => r.iteration.broker.tables.Grows r'.before.tables :=
  spin_pairwise (R := fun x y => x.tables.Grows y.tables) (fun _ => Tables.Grows.refl _)
    Tables.Grows.trans spinIteration_grows b as

theorem exists_common_tables (b : Broker) (as : List Arrival) {r r' : Record}
    (hr : r ∈ b.spin text as) (hr' : r' ∈ b.spin text as) :
    ∃ s ∈ b.spin text as, r.iteration.broker.tables.Grows s.iteration.broker.tables ∧
      r'.iteration.broker.tables.Grows s.iteration.broker.tables := by
  have hpair := (spin_grows text b as).2
  obtain ⟨i, hi, rfl⟩ := List.getElem_of_mem hr
  obtain ⟨j, hj, rfl⟩ := List.getElem_of_mem hr'
  rw [List.pairwise_iff_getElem] at hpair
  have hafter : ∀ i (hi : i < (b.spin text as).length),
      (b.spin text as)[i].before.tables.Grows (b.spin text as)[i].iteration.broker.tables :=
    fun i hi => spinIteration_grows (spinIteration_of_mem_spin (List.getElem_mem hi))
  rcases lt_trichotomy i j with hij | rfl | hji
  · exact ⟨_, List.getElem_mem hj, (hpair i j hi hj hij).trans (hafter j hj), .refl _⟩
  · exact ⟨_, List.getElem_mem hi, .refl _, .refl _⟩
  · exact ⟨_, List.getElem_mem hi, .refl _, (hpair j i hj hi hji).trans (hafter i hi)⟩

theorem spin_namesDistinct {as : List Arrival} {r : Record} (hr : r ∈ started.spin text as) :
    r.iteration.broker.tables.NamesDistinct :=
  (spin_invariant (P := fun b => b.tables.NamesDistinct) spinIteration_namesDistinct
    Tables.namesDistinct_empty hr).2

theorem answers_common {as : List Arrival}
    (hsmall : ∀ r ∈ started.spin text as, r.iteration.broker.tables.Small) {r r' : Record}
    (hr : r ∈ started.spin text as) (hr' : r' ∈ started.spin text as) :
    ∃ t : Tables, t.NamesDistinct ∧ (∀ c a, r.Answers c a → t.Records c a) ∧
      ∀ c a, r'.Answers c a → t.Records c a := by
  obtain ⟨s, hs, hgrows, hgrows'⟩ := exists_common_tables started as hr hr'
  exact ⟨_, spin_namesDistinct hs, fun c a h => (answers_records hsmall hr h).grows hgrows,
    fun c a h => (answers_records hsmall hr' h).grows hgrows'⟩

/-- A run of at most `2 ^ 32` packets cannot fill a table beyond its ids. -/
theorem spin_small {as : List Arrival} (h : as.length ≤ 2 ^ 32) :
    ∀ r ∈ started.spin text as, r.iteration.broker.tables.Small := by
  suffices hrun : ∀ (n : ℕ) (b : Broker) (as : List Arrival), n + as.length ≤ 2 ^ 32 →
      b.tables.nodes.length ≤ n → b.tables.messageTypes.length ≤ n → b.tables.topics.length ≤ n →
      ∀ r ∈ b.spin text as, r.iteration.broker.tables.Small from
    hrun 0 started as (by omega) le_rfl le_rfl le_rfl
  intro n b as
  induction as generalizing n b with
  | nil => simp [spin]
  | cons a as ih =>
    intro hlen hnodes htypes htopics r hr
    rw [List.length_cons] at hlen
    rw [spin] at hr
    split at hr
    · cases hr
    · rename_i it hit
      have hnext : it.broker.tables.nodes.length ≤ n + 1 ∧
          it.broker.tables.messageTypes.length ≤ n + 1 ∧
          it.broker.tables.topics.length ≤ n + 1 := by
        rcases spinIteration_tables hit with htables | ⟨_, _, c, _, _, htables, _⟩
        · rw [htables]
          omega
        · have hgrow := (b.tables.handle_handled a.client c).length_le
          rw [htables]
          omega
      rcases List.mem_cons.mp hr with rfl | hr
      · exact ⟨by simp only; omega, by simp only; omega, by simp only; omega⟩
      · split_ifs at hr
        · cases hr
        · exact ih (n + 1) it.broker (by omega) hnext.1 hnext.2.1 hnext.2.2 r hr

/-- Naming agreement: names are distinct at all times, entries never change or
move, and any two successful answers of a run agree. -/
theorem spin_naming_agreement (as : List Arrival)
    (hsmall : ∀ r ∈ started.spin text as, r.iteration.broker.tables.Small) :
    (∀ r ∈ started.spin text as, r.iteration.broker.tables.NamesDistinct ∧
      r.before.tables.Grows r.iteration.broker.tables) ∧
    (started.spin text as).Pairwise
      (fun r r' => r.iteration.broker.tables.Grows r'.before.tables) ∧
    (∀ r ∈ started.spin text as, ∀ r' ∈ started.spin text as,
      (∀ name name' size size' id id',
        r.Answers (.registerMessageType name size) (.messageType id) →
        r'.Answers (.registerMessageType name' size') (.messageType id') →
          (name = name' ↔ id = id') ∧ (name = name' → size = size')) ∧
      (∀ name name' type type' priority priority' id id' actual actual',
        r.Answers (.registerTopic name type priority) (.topic id actual) →
        r'.Answers (.registerTopic name' type' priority') (.topic id' actual') →
          (name = name' ↔ id = id') ∧ (name = name' → type = type' ∧ actual = actual')) ∧
      (∀ name name' id id', r.Answers (.registerNode name) (.node id) →
        r'.Answers (.registerNode name') (.node id') → (name = name' ↔ id = id'))) ∧
    (started.spin text as).Pairwise fun r r' => ∀ name id id',
      r.Answers (.registerNode name) (.node id) →
        ¬ r'.Answers (.registerNode name) (.node id') := by
  have hgrows := (spin_grows text started as).2
  refine ⟨fun r hr => ⟨spin_namesDistinct hr, spinIteration_grows (spinIteration_of_mem_spin hr)⟩,
    hgrows, fun r hr r' hr' => ?_, ?_⟩
  · obtain ⟨t, hn, hrec, hrec'⟩ := answers_common hsmall hr hr'
    refine ⟨?_, ?_, ?_⟩
    · intro name name' size size' id id' h h'
      exact (hrec _ _ h).messageType_agree hn (hrec' _ _ h')
    · intro name name' type type' priority priority' id id' actual actual' h h'
      exact (hrec _ _ h).topic_agree hn (hrec' _ _ h')
    · intro name name' id id' h h'
      exact (hrec _ _ h).node_agree hn (hrec' _ _ h')
  · refine hgrows.imp_of_mem fun {r r'} hr hr' hgrows name id id' h h' => ?_
    obtain ⟨info, hget, hname⟩ := (answers_records hsmall hr h).grows hgrows
    have hhandled := answers_handled hr' h'
    generalize r'.iteration.broker.tables = t' at hhandled
    cases hhandled with
    | newNode hfind => exact findNamed_none.mp hfind info (List.mem_of_getElem? hget) hname

def registerTalkerRequest : Json :=
  .object [("node", .object [("action", .string "register"),
    ("params", .object [("name", .string "talker")])]), ("rpc_id", .number 0),
    ("scope", .string "node")]

theorem spin_naming_agreement_talkers :
    (started.spin compactJson
      [⟨"10.0.0.2:40001", bpControlJsonToPacketBuffer compactJson registerTalkerRequest 1,
        fun _ _ _ => true⟩,
      ⟨"10.0.0.3:40001", bpControlJsonToPacketBuffer compactJson registerTalkerRequest 1,
        fun _ _ _ => true⟩]).Pairwise fun r r' => ∀ name id id',
      r.Answers (.registerNode name) (.node id) → ¬ r'.Answers (.registerNode name) (.node id') :=
  (spin_naming_agreement _ (spin_small (by decide))).2.2.2

end Broker

end Crps
