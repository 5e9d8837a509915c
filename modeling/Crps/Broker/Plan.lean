import Crps.Broker.Clients
import Crps.Broker.Correlation

/-!
# Clients that have agreed beforehand

A plan lists the nodes with their addresses, the message types with their
sizes, and the topics with their types and priorities. Tables that hold nothing
but planned entries grant every request the plan foresees, and go on holding
nothing else, in whatever order the clients come.
-/

namespace Crps

structure PlannedTopic where
  name : String
  messageTypeName : String
  priority : TopicPriority
  deriving DecidableEq, Repr

structure Plan where
  nodes : List NodeInfo
  messageTypes : List MessageTypeInfo
  topics : List PlannedTopic
  nodes_nodup : (nodes.map NodeInfo.name).Nodup
  messageTypes_nodup : (messageTypes.map MessageTypeInfo.name).Nodup
  topics_nodup : (topics.map PlannedTopic.name).Nodup
  explicit : ∀ topic ∈ topics, topic.priority ≠ dontcareTopicPriority
  nodes_length : nodes.length ≤ 2 ^ 32
  messageTypes_length : messageTypes.length ≤ 2 ^ 32
  topics_length : topics.length ≤ 2 ^ 32

namespace Plan

variable {plan : Plan} {t t' : Tables} {client : String} {c : ControlRequest}

/-- The tables hold nothing but what was planned. -/
structure Covers (plan : Plan) (t : Tables) : Prop where
  nodes : t.nodes ⊆ plan.nodes
  messageTypes : t.messageTypes ⊆ plan.messageTypes
  topics : ∀ topic ∈ t.topics, ∃ info, t.messageTypes[topic.messageTypeId.toNat]? = some info ∧
    ⟨topic.name, info.name, topic.priority⟩ ∈ plan.topics

/-- A request the plan foresees at this point: the client's own node, once, a type of the planned
size, a topic of the planned type, an endpoint of a topic under the topic's type. -/
def Foresees (plan : Plan) (t : Tables) (client : String) : ControlRequest → Prop
  | .registerNode name => ⟨name, client⟩ ∈ plan.nodes ∧ ∀ id, ¬ t.Owns client id
  | .registerMessageType name size => ⟨name, size⟩ ∈ plan.messageTypes
  | .registerTopic name messageTypeId priority =>
    ∃ info, t.messageTypes[messageTypeId.toNat]? = some info ∧
      ⟨name, info.name, priority⟩ ∈ plan.topics
  | .addPublisher nodeId topicId messageTypeId | .addSubscriber nodeId topicId messageTypeId =>
    t.Owns client nodeId ∧
      ∃ topic, t.topics[topicId.toNat]? = some topic ∧ topic.messageTypeId = messageTypeId

theorem covers_empty (plan : Plan) : plan.Covers {} where
  nodes := List.nil_subset _
  messageTypes := List.nil_subset _
  topics := by simp

theorem length_le_of_names {α β : Type} {name : α → String} {planned : β → String}
    {xs : List α} {ys : List β} (h : (xs.map name).Nodup)
    (hsub : ∀ x ∈ xs, ∃ y ∈ ys, planned y = name x) : xs.length ≤ ys.length := by
  have hnames : xs.map name ⊆ ys.map planned := by
    intro key hkey
    obtain ⟨x, hx, rfl⟩ := List.mem_map.mp hkey
    obtain ⟨y, hy, hname⟩ := hsub x hx
    exact List.mem_map.mpr ⟨y, hy, hname⟩
  have hle := (List.subperm_of_subset h hnames).length_le
  rwa [List.length_map, List.length_map] at hle

theorem Covers.small (h : plan.Covers t) (hnames : t.NamesDistinct) : t.Small where
  nodes := (length_le_of_names hnames.nodes fun x hx => ⟨x, h.nodes hx, rfl⟩).trans
    plan.nodes_length
  messageTypes := (length_le_of_names hnames.messageTypes
    fun x hx => ⟨x, h.messageTypes hx, rfl⟩).trans plan.messageTypes_length
  topics := by
    have hsub : ∀ topic ∈ t.topics, ∃ planned ∈ plan.topics, planned.name = topic.name := by
      intro topic htopic
      obtain ⟨info, _, hplanned⟩ := h.topics topic htopic
      exact ⟨_, hplanned, rfl⟩
    exact (length_le_of_names hnames.topics hsub).trans plan.topics_length

theorem Foresees.own (h : plan.Foresees t client c) : t.Own client c := by
  cases c with
  | addPublisher => exact h.1
  | addSubscriber => exact h.1
  | _ => trivial

theorem Foresees.stable (h : plan.Foresees t client c) (hg : t.Grows t')
    (hu : Tables.Undisturbed client t t') : plan.Foresees t' client c := by
  have hendpoint : ∀ {nodeId : BpNodeId} {topicId : TopicId} {messageTypeId : MessageTypeId},
      (t.Owns client nodeId ∧
        ∃ topic, t.topics[topicId.toNat]? = some topic ∧ topic.messageTypeId = messageTypeId) →
      t'.Owns client nodeId ∧
        ∃ topic, t'.topics[topicId.toNat]? = some topic ∧
          topic.messageTypeId = messageTypeId := by
    rintro nodeId topicId messageTypeId ⟨howns, topic, htopic, htype⟩
    obtain ⟨topic', htopic', hgrows⟩ := hg.topics _ _ htopic
    exact ⟨howns.grows hg, topic', htopic', hgrows.messageTypeId.trans htype⟩
  cases c with
  | registerNode name => exact ⟨h.1, fun id hid => h.2 id (hu.owns id hid)⟩
  | registerMessageType name size => exact h
  | registerTopic name messageTypeId priority =>
    obtain ⟨info, hinfo, hplanned⟩ := h
    obtain ⟨_, hinfo', rfl⟩ := hg.messageTypes _ _ hinfo
    exact ⟨info, hinfo', hplanned⟩
  | addPublisher nodeId topicId messageTypeId => exact hendpoint h
  | addSubscriber nodeId topicId messageTypeId => exact hendpoint h

/-- Planned tables admit what is foreseen. -/
theorem Covers.admits (h : plan.Covers t) (hnames : t.NamesDistinct)
    (hc : plan.Foresees t client c) : t.Admits c := by
  have hendpoint : ∀ {nodeId : BpNodeId} {topicId : TopicId} {messageTypeId : MessageTypeId},
      (t.Owns client nodeId ∧
        ∃ topic, t.topics[topicId.toNat]? = some topic ∧ topic.messageTypeId = messageTypeId) →
      nodeId.toNat < t.nodes.length ∧ messageTypeId.toNat < t.messageTypes.length ∧
        ∃ topic, t.topics[topicId.toNat]? = some topic ∧ topic.messageTypeId = messageTypeId := by
    rintro nodeId topicId messageTypeId ⟨⟨info, hinfo, _⟩, topic, htopic, rfl⟩
    obtain ⟨type, htype, _⟩ := h.topics topic (List.mem_of_getElem? htopic)
    exact ⟨(List.getElem?_eq_some_iff.mp hinfo).1, (List.getElem?_eq_some_iff.mp htype).1, topic,
      htopic, rfl⟩
  cases c with
  | registerNode name =>
    apply findNamed_none.mpr
    intro info hinfo hname
    -- the plan has one entry of this name, so this would be the client's own node
    have hown : info = ⟨name, client⟩ :=
      List.inj_on_of_nodup_map plan.nodes_nodup (h.nodes hinfo) hc.1 hname
    obtain ⟨i, hi, hget⟩ := List.getElem_of_mem hinfo
    have hlt : i < 2 ^ 32 := hi.trans_le (h.small hnames).nodes
    apply hc.2 (UInt32.ofNat i)
    refine ⟨info, ?_, by rw [hown]⟩
    rw [Tables.toNat_ofNat_of_lt hlt, List.getElem?_eq_getElem hi, hget]
  | registerMessageType name size =>
    simp only [Tables.Admits]
    cases hfound : findNamed MessageTypeInfo.name name t.messageTypes with
    | none => trivial
    | some found =>
      obtain ⟨hget, hname⟩ := findNamed_some hfound
      have hsame : found.2 = ⟨name, size⟩ := List.inj_on_of_nodup_map plan.messageTypes_nodup
        (h.messageTypes (List.mem_of_getElem? hget)) hc hname
      exact congrArg MessageTypeInfo.size hsame
  | registerTopic name messageTypeId priority =>
    obtain ⟨info, hinfo, hplanned⟩ := hc
    simp only [Tables.Admits]
    cases hfound : findNamed Topic.name name t.topics with
    | none => exact plan.explicit _ hplanned
    | some found =>
      obtain ⟨hget, hname⟩ := findNamed_some hfound
      obtain ⟨info', hinfo', hplanned'⟩ := h.topics found.2 (List.mem_of_getElem? hget)
      have hsame := List.inj_on_of_nodup_map plan.topics_nodup hplanned' hplanned hname
      injection hsame with _ htype hpriority
      have hindex := index_unique hnames.messageTypes hinfo' hinfo htype
      exact ⟨UInt32.toNat_inj.mp hindex, .inr hpriority⟩
  | addPublisher nodeId topicId messageTypeId => exact hendpoint hc
  | addSubscriber nodeId topicId messageTypeId => exact hendpoint hc

theorem Covers.handled (h : plan.Covers t) (hc : plan.Foresees t client c)
    {r : Option ControlAnswer} (hh : Tables.Handled t client c t' r) : plan.Covers t' := by
  have hmodify : ∀ (f : Topic → Topic) k, (∀ topic, (f topic).name = topic.name ∧
      (f topic).messageTypeId = topic.messageTypeId ∧ (f topic).priority = topic.priority) →
      ∀ topic ∈ t.topics.modify k f,
        ∃ info, t.messageTypes[topic.messageTypeId.toNat]? = some info ∧
          ⟨topic.name, info.name, topic.priority⟩ ∈ plan.topics := by
    intro f k hf topic htopic
    obtain ⟨i, hget⟩ := List.getElem?_of_mem htopic
    rw [List.getElem?_modify] at hget
    obtain ⟨old, hold, rfl⟩ := Option.map_eq_some_iff.mp hget
    obtain ⟨hname, htype, hpriority⟩ := hf old
    have hkept := h.topics old (List.mem_of_getElem? hold)
    by_cases hk : k = i
    · simpa only [hk, if_true, hname, htype, hpriority] using hkept
    · simpa only [hk, if_false, id] using hkept
  cases hh with
  | newNode =>
    have hnew := List.append_subset.mpr ⟨h.nodes, List.cons_subset.mpr ⟨hc.1, List.nil_subset _⟩⟩
    exact ⟨hnew, h.messageTypes, h.topics⟩
  | newMessageType =>
    have hnew := List.append_subset.mpr
      ⟨h.messageTypes, List.cons_subset.mpr ⟨hc, List.nil_subset _⟩⟩
    refine ⟨h.nodes, hnew, ?_⟩
    intro topic htopic
    obtain ⟨info, hinfo, hplanned⟩ := h.topics topic htopic
    refine ⟨info, ?_, hplanned⟩
    rw [List.getElem?_append_left (List.getElem?_eq_some_iff.mp hinfo).1]
    exact hinfo
  | newTopic =>
    refine ⟨h.nodes, h.messageTypes, ?_⟩
    intro topic htopic
    rcases List.mem_append.mp htopic with htopic | htopic
    · exact h.topics topic htopic
    · rw [List.mem_singleton.mp htopic]
      exact hc
  | addedPublisher => exact ⟨h.nodes, h.messageTypes, hmodify _ _ fun _ => ⟨rfl, rfl, rfl⟩⟩
  | addedSubscriber => exact ⟨h.nodes, h.messageTypes, hmodify _ _ fun _ => ⟨rfl, rfl, rfl⟩⟩
  | _ => exact h

end Plan
end Crps
