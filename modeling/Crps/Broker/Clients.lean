import Crps.Broker.Routing

/-!
# The tables from one client's side

A client owns the node entries registered from its address. What the tables
say about its node ids changes by its own requests only, as long as nobody
names a node of somebody else; this is what a client can rely on while other
clients are being served.
-/

namespace Crps

/-- A topic with this name and type is known under these ids. -/
structure BoundTopic where
  topicName : String
  messageTypeName : String
  messageSize : MessageSize
  topicId : TopicId
  messageTypeId : MessageTypeId

namespace Tables

variable {t t' : Tables} {client : String}

def publishersOf (t : Tables) (topicId : TopicId) : List BpNodeId :=
  ((t.topics[topicId.toNat]?).map Topic.publishers).getD []

/-- The id is that of a node registered from the client's address. -/
def Owns (t : Tables) (client : String) (id : BpNodeId) : Prop :=
  ∃ info, t.nodes[id.toNat]? = some info ∧ info.address = client

/-- Every id in a topic's lists is that of a registered node. -/
def Known (t : Tables) : Prop :=
  ∀ topicId, ∀ id ∈ t.publishersOf topicId ++ t.subscribersOf topicId, id.toNat < t.nodes.length

theorem known_empty : Known {} := by simp [Known, publishersOf, subscribersOf]

/-- A request that names a node names one of the client's own. -/
def Own (t : Tables) (client : String) : ControlRequest → Prop
  | .addPublisher nodeId _ _ => t.Owns client nodeId
  | .addSubscriber nodeId _ _ => t.Owns client nodeId
  | _ => True

theorem Owns.grows {id : BpNodeId} (h : t.Owns client id) (hg : t.Grows t') :
    t'.Owns client id := by
  obtain ⟨info, hget, haddress⟩ := h
  obtain ⟨_, hget', rfl⟩ := hg.nodes _ _ hget
  exact ⟨info, hget', haddress⟩

theorem Own.grows {c : ControlRequest} (h : t.Own client c) (hg : t.Grows t') :
    t'.Own client c := by
  cases c with
  | addPublisher => exact Owns.grows h hg
  | addSubscriber => exact Owns.grows h hg
  | _ => trivial

theorem Small.of_grows (h : t'.Small) (hg : t.Grows t') : t.Small :=
  ⟨hg.nodes.length_le.trans h.nodes, hg.messageTypes.length_le.trans h.messageTypes,
    hg.topics.length_le.trans h.topics⟩

/-! ## Endpoint lists after a request -/

/-- The publisher a granted request adds to a topic. -/
def publisherIn (topicId : TopicId) : ControlRequest → Option BpNodeId
  | .addPublisher nodeId id _ => if id = topicId then some nodeId else none
  | _ => none

theorem Handled.publishersOf {c : ControlRequest} {a : ControlAnswer}
    (h : Handled t client c t' (some a)) (topicId : TopicId) :
    t'.publishersOf topicId = t.publishersOf topicId ++ (publisherIn topicId c).toList := by
  unfold Tables.publishersOf
  cases h with
  | newNode => simp [publisherIn]
  | newMessageType => simp [publisherIn]
  | knownMessageType => simp [publisherIn]
  | knownTopic => simp [publisherIn]
  | @newTopic name messageTypeId priority =>
    simp only [publisherIn, Option.toList_none, List.append_nil]
    rcases lt_trichotomy topicId.toNat t.topics.length with hlt | heq | hgt
    · rw [List.getElem?_append_left hlt]
    · simp [heq]
    · have hlen : (t.topics ++ [(⟨name, messageTypeId, priority, [], []⟩ : Topic)]).length ≤
          topicId.toNat := by
        rw [List.length_append, List.length_singleton]
        omega
      rw [List.getElem?_eq_none hlen, List.getElem?_eq_none (by omega)]
  | @addedSubscriber nodeId id topic =>
    simp only [publisherIn, Option.toList_none, List.append_nil, List.getElem?_modify]
    cases t.topics[topicId.toNat]? with
    | none => rfl
    | some entry => by_cases hid : id.toNat = topicId.toNat <;> simp [hid, addTopicSubscriber]
  | @addedPublisher nodeId id topic hnode htopic =>
    simp only [publisherIn, List.getElem?_modify]
    by_cases hid : id = topicId
    · subst hid
      simp [htopic, addTopicPublisher]
    · have hne : id.toNat ≠ topicId.toNat := fun he => hid (UInt32.toNat_inj.mp he)
      cases t.topics[topicId.toNat]? <;> simp [hid, hne]

theorem Handled.added_known {c : ControlRequest} {a : ControlAnswer}
    (h : Handled t client c t' (some a)) {topicId : TopicId} {id : BpNodeId}
    (hid : publisherIn topicId c = some id ∨ c.subscriberOf topicId = some id) :
    id.toNat < t.nodes.length := by
  rcases hid with hid | hid
  · cases h with
    | addedPublisher hnode =>
      simp only [publisherIn] at hid
      split_ifs at hid
      cases hid
      exact hnode
    | _ => cases hid
  · exact h.subscriberOf_known hid

theorem Handled.known {c : ControlRequest} {r : Option ControlAnswer}
    (h : Handled t client c t' r) (hk : t.Known) : t'.Known := by
  cases r with
  | none => exact h.of_none ▸ hk
  | some a =>
    intro topicId id hid
    have hlen := h.grows.nodes.length_le
    rw [h.publishersOf, h.subscribersOf, List.mem_append, List.mem_append, List.mem_append] at hid
    rcases hid with (hid | hid) | (hid | hid)
    · exact (hk topicId id (List.mem_append_left _ hid)).trans_le hlen
    · exact (h.added_known (.inl (Option.mem_toList.mp hid))).trans_le hlen
    · exact (hk topicId id (List.mem_append_right _ hid)).trans_le hlen
    · exact (h.added_known (.inr (Option.mem_toList.mp hid))).trans_le hlen

/-! ## What others leave alone -/

/-- From `t` to `t'`, no node of the client has been added, and its nodes are
publishers and subscribers of every topic as often as before. -/
structure Undisturbed (client : String) (t t' : Tables) : Prop where
  owns : ∀ id, t'.Owns client id → t.Owns client id
  publishers : ∀ id, t.Owns client id → ∀ topicId,
    (t'.publishersOf topicId).count id = (t.publishersOf topicId).count id
  subscribers : ∀ id, t.Owns client id → ∀ topicId,
    (t'.subscribersOf topicId).count id = (t.subscribersOf topicId).count id

theorem Undisturbed.refl (client : String) (t : Tables) : Undisturbed client t t :=
  ⟨fun _ h => h, fun _ _ _ => rfl, fun _ _ _ => rfl⟩

theorem Undisturbed.trans {t'' : Tables} (hg : t.Grows t') (h : Undisturbed client t t')
    (h' : Undisturbed client t' t'') : Undisturbed client t t'' where
  owns id hid := h.owns id (h'.owns id hid)
  publishers id hid topicId := by
    rw [h'.publishers id (hid.grows hg), h.publishers id hid]
  subscribers id hid topicId := by
    rw [h'.subscribers id (hid.grows hg), h.subscribers id hid]

theorem owns_unique {other : String} {id : BpNodeId} (h : t.Owns client id)
    (h' : t.Owns other id) : client = other := by
  obtain ⟨info, hget, rfl⟩ := h
  obtain ⟨info', hget', rfl⟩ := h'
  rw [hget] at hget'
  injection hget' with hget'
  rw [hget']

/-- A client that names its own nodes only does not disturb the others. -/
theorem Handled.undisturbed {c : ControlRequest} {r : Option ControlAnswer}
    (h : Handled t client c t' r) (hown : t.Own client c) {other : String}
    (hother : other ≠ client) : Undisturbed other t t' := by
  cases r with
  | none => exact h.of_none ▸ Undisturbed.refl other t
  | some a =>
    have hforeign : ∀ topicId id, t.Owns other id →
        publisherIn topicId c ≠ some id ∧ c.subscriberOf topicId ≠ some id := by
      intro topicId id hid
      have hne : ∀ nodeId, t.Owns client nodeId → nodeId ≠ id := by
        rintro nodeId hnode rfl
        exact hother (owns_unique hid hnode)
      cases c with
      | addPublisher nodeId topic type =>
        refine ⟨fun he => ?_, by simp [ControlRequest.subscriberOf]⟩
        simp only [publisherIn] at he
        split_ifs at he
        injection he with he
        exact hne nodeId hown he
      | addSubscriber nodeId topic type =>
        refine ⟨by simp [publisherIn], fun he => ?_⟩
        simp only [ControlRequest.subscriberOf] at he
        split_ifs at he
        injection he with he
        exact hne nodeId hown he
      | _ => exact ⟨by simp [publisherIn], by simp [ControlRequest.subscriberOf]⟩
    refine ⟨fun id hid => ?_, fun id hid topicId => ?_, fun id hid topicId => ?_⟩
    · obtain ⟨info, hget, haddress⟩ := hid
      cases h with
      | @newNode name =>
        rcases lt_trichotomy id.toNat t.nodes.length with hlt | heq | hgt
        · rw [List.getElem?_append_left hlt] at hget
          exact ⟨info, hget, haddress⟩
        · rw [heq, List.getElem?_concat_length] at hget
          injection hget with hget
          subst hget
          exact absurd haddress.symm hother
        · rw [List.getElem?_eq_none (by simp; omega)] at hget
          cases hget
      | _ => exact ⟨info, hget, haddress⟩
    · rw [h.publishersOf, List.count_append]
      have hnone := (hforeign topicId id hid).1
      cases hp : publisherIn topicId c with
      | none => simp
      | some id' =>
        have hne : id' ≠ id := fun he => hnone (he ▸ hp)
        simp [hne]
    · rw [h.subscribersOf, List.count_append]
      have hnone := (hforeign topicId id hid).2
      cases hp : c.subscriberOf topicId with
      | none => simp
      | some id' =>
        have hne : id' ≠ id := fun he => hnone (he ▸ hp)
        simp [hne]

/-! ## A client's own standing -/

/-- The client's only node is registered under `id` and listed once for each of
the given topics. -/
structure Standing (t : Tables) (client name : String) (id : BpNodeId)
    (publishes subscribes : List TopicId) : Prop where
  node : t.nodes[id.toNat]? = some ⟨name, client⟩
  sole : ∀ id', t.Owns client id' → id' = id
  publishers : ∀ topicId, (t.publishersOf topicId).count id = publishes.count topicId
  subscribers : ∀ topicId, (t.subscribersOf topicId).count id = subscribes.count topicId

/-- Both ids of an endpoint are on record with its names and size. -/
def Binds (t : Tables) (e : BoundTopic) : Prop :=
  (∃ topic, t.topics[e.topicId.toNat]? = some topic ∧ topic.name = e.topicName ∧
    topic.messageTypeId = e.messageTypeId) ∧
  t.messageTypes[e.messageTypeId.toNat]? = some ⟨e.messageTypeName, e.messageSize⟩

theorem Binds.grows {e : BoundTopic} (h : t.Binds e) (hg : t.Grows t') : t'.Binds e := by
  obtain ⟨⟨topic, htopic, hname, htype⟩, hmessage⟩ := h
  obtain ⟨topic', htopic', hgrows⟩ := hg.topics _ _ htopic
  obtain ⟨_, hmessage', rfl⟩ := hg.messageTypes _ _ hmessage
  exact ⟨⟨topic', htopic', hgrows.name.trans hname, hgrows.messageTypeId.trans htype⟩, hmessage'⟩

/-! ## Priorities -/

/-- A topic of this name has this priority. -/
def Ranks (t : Tables) (name : String) (priority : TopicPriority) : Prop :=
  ∃ topic ∈ t.topics, topic.name = name ∧ topic.priority = priority

/-- No topic was created without a priority. -/
def Explicit (t : Tables) : Prop := ∀ topic ∈ t.topics, topic.priority ≠ dontcareTopicPriority

/-- The priority stored for a topic name. -/
def priorityOf (t : Tables) (name : String) : Option TopicPriority :=
  (findNamed Topic.name name t.topics).map fun found => found.2.priority

theorem explicit_empty : Explicit {} := by simp [Explicit]

theorem Ranks.grows {name : String} {priority : TopicPriority} (h : t.Ranks name priority)
    (hg : t.Grows t') : t'.Ranks name priority := by
  obtain ⟨topic, hmem, hname, hprio⟩ := h
  obtain ⟨i, hget⟩ := List.getElem?_of_mem hmem
  obtain ⟨topic', hget', hgrows⟩ := hg.topics _ _ hget
  exact ⟨topic', List.mem_of_getElem? hget', hgrows.name.trans hname,
    hgrows.priority.trans hprio⟩

theorem priorityOf_of_ranks {name : String} {priority : TopicPriority} (hn : t.NamesDistinct)
    (h : t.Ranks name priority) : t.priorityOf name = some priority := by
  obtain ⟨topic, hmem, rfl, rfl⟩ := h
  obtain ⟨i, hget⟩ := List.getElem?_of_mem hmem
  rw [priorityOf, findNamed_of_getElem? hn.topics hget, Option.map_some]

theorem Handled.ranks {name : String} {messageTypeId : MessageTypeId}
    {priority actual : TopicPriority} {id : TopicId}
    (h : Handled t client (.registerTopic name messageTypeId priority) t'
      (some (.topic id actual))) :
    t'.Ranks name actual ∧ (priority = dontcareTopicPriority ∨ priority = actual) := by
  cases h with
  | newTopic hfind hprio =>
    exact ⟨⟨_, List.mem_append_right _ List.mem_cons_self, rfl, rfl⟩, .inr rfl⟩
  | knownTopic hfind hprio =>
    exact ⟨⟨_, List.mem_of_getElem? (findNamed_some hfind).1, rfl, rfl⟩, hprio.imp_right Eq.symm⟩

theorem Handled.explicit {c : ControlRequest} {r : Option ControlAnswer}
    (h : Handled t client c t' r) (ht : t.Explicit) : t'.Explicit := by
  have hmodify : ∀ (f : Topic → Topic) k, (∀ topic, (f topic).priority = topic.priority) →
      ∀ topic ∈ t.topics.modify k f, topic.priority ≠ dontcareTopicPriority := by
    intro f k hf topic htopic
    obtain ⟨i, hget⟩ := List.getElem?_of_mem htopic
    rw [List.getElem?_modify] at hget
    obtain ⟨old, hold, rfl⟩ := Option.map_eq_some_iff.mp hget
    have hkept := ht old (List.mem_of_getElem? hold)
    by_cases hk : k = i
    · simpa [hk, hf] using hkept
    · simpa [hk] using hkept
  cases h with
  | newTopic hfind hprio =>
    intro topic htopic
    rcases List.mem_append.mp htopic with htopic | htopic
    · exact ht topic htopic
    · rw [List.mem_singleton.mp htopic]
      exact hprio
  | addedPublisher => exact hmodify _ _ fun _ => rfl
  | addedSubscriber => exact hmodify _ _ fun _ => rfl
  | _ => exact ht

variable {name : String} {id : BpNodeId} {publishes subscribes : List TopicId}

theorem Standing.owns (h : t.Standing client name id publishes subscribes) : t.Owns client id :=
  ⟨_, h.node, rfl⟩

theorem Standing.undisturbed (h : t.Standing client name id publishes subscribes)
    (hg : t.Grows t') (hu : Undisturbed client t t') :
    t'.Standing client name id publishes subscribes where
  node := by
    obtain ⟨_, hget, rfl⟩ := hg.nodes _ _ h.node
    exact hget
  sole id' hid := h.sole id' (hu.owns id' hid)
  publishers topicId := by rw [hu.publishers id h.owns, h.publishers]
  subscribers topicId := by rw [hu.subscribers id h.owns, h.subscribers]

theorem standing_of_newNode {c : ControlRequest} (h : Handled t client c t' (some (.node id)))
    (hc : c = .registerNode name) (hfresh : ∀ id', ¬ t.Owns client id') (hk : t.Known)
    (hsmall : t'.Small) : t'.Standing client name id [] [] := by
  subst hc
  cases h with
  | newNode =>
    have hlt : t.nodes.length < 2 ^ 32 := by simpa using hsmall.nodes
    have hid : (UInt32.ofNat t.nodes.length).toNat = t.nodes.length := toNat_ofNat_of_lt hlt
    refine ⟨?_, ?_, fun topicId => ?_, fun topicId => ?_⟩
    · rw [hid, List.getElem?_concat_length]
    · rintro id' ⟨info, hget, haddress⟩
      rcases lt_trichotomy id'.toNat t.nodes.length with hlt' | heq | hgt
      · rw [List.getElem?_append_left hlt'] at hget
        exact absurd ⟨info, hget, haddress⟩ (hfresh id')
      · rw [← UInt32.toNat_inj, heq, hid]
      · rw [List.getElem?_eq_none (by simp; omega)] at hget
        cases hget
    · refine List.count_eq_zero.mpr fun hmem => ?_
      have hknown := hk topicId _ (List.mem_append_left _ hmem)
      omega
    · refine List.count_eq_zero.mpr fun hmem => ?_
      have hknown := hk topicId _ (List.mem_append_right _ hmem)
      omega

theorem Standing.handled {c : ControlRequest} {a : ControlAnswer}
    (h : t.Standing client name id publishes subscribes) (hh : Handled t client c t' (some a))
    (hc : c.isRegisterNode = false) {publishes' subscribes' : List TopicId}
    (hp : ∀ topicId, (publisherIn topicId c).toList.count id + publishes.count topicId =
      publishes'.count topicId)
    (hs : ∀ topicId, (c.subscriberOf topicId).toList.count id + subscribes.count topicId =
      subscribes'.count topicId) :
    t'.Standing client name id publishes' subscribes' where
  node := by
    obtain ⟨_, hget, rfl⟩ := hh.grows.nodes _ _ h.node
    exact hget
  sole id' hid := by
    cases hh with
    | newNode => cases hc
    | _ => exact h.sole id' hid
  publishers topicId := by
    rw [hh.publishersOf, List.count_append, h.publishers, ← hp, Nat.add_comm]
  subscribers topicId := by
    rw [hh.subscribersOf, List.count_append, h.subscribers, ← hs, Nat.add_comm]

end Tables

/-- Tables with the invariants every broker state has. -/
structure Registry where
  tables : Tables
  names : tables.NamesDistinct
  known : tables.Known
  explicit : tables.Explicit

namespace Registry

def handle (r : Registry) (client : String) (c : ControlRequest) : Registry where
  tables := (r.tables.handle client c).tables
  names := (r.tables.handle_handled client c).namesDistinct r.names
  known := (r.tables.handle_handled client c).known r.known
  explicit := (r.tables.handle_handled client c).explicit r.explicit

end Registry

end Crps
