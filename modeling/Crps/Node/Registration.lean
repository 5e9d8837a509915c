import Crps.Broker.Clients
import Crps.Node.Requests
import Crps.Node.Spin

/-!
# `connect` against a broker that serves others too

The registration functions run as one client of a broker whose tables other
clients change at the same time. A client relies on its own entries being left
alone, names only its own node, and has given up once a call came back empty.
The stages of `connect` are followed to what it leaves in the node and in the
tables.
-/

namespace Crps

/-! ## The setting -/

/-- The broker's tables as a client meets them, and whether all its calls so
far have been answered. -/
structure Desk where
  registry : Registry
  live : Bool

/-- What other clients may do between two of the client's steps. -/
def Registry.Relies (client : String) (r r' : Registry) : Prop :=
  r.tables.Grows r'.tables ∧
    (r'.tables.Small → Tables.Undisturbed client r.tables r'.tables)

theorem Registry.Relies.refl (client : String) (r : Registry) : r.Relies client r :=
  ⟨Tables.Grows.refl _, fun _ => Tables.Undisturbed.refl _ _⟩

theorem Registry.Relies.trans {client : String} {r r' r'' : Registry} (h : r.Relies client r')
    (h' : r'.Relies client r'') : r.Relies client r'' :=
  ⟨h.1.trans h'.1, fun hsmall => .trans h.1 (h.2 (hsmall.of_grows h'.1)) (h'.2 hsmall)⟩

/-- A request of the node, naming none but its own entries. -/
def Node.Asks (client : String) (n : Node) (r : Registry) (request : Json) : Prop :=
  ∃ c, request = Node.requestJson n.rpcId c ∧ (r.tables.Small → r.tables.Own client c)

/-- The call has been counted and something has come in. -/
def Node.Counted (n n' : Node) : Prop :=
  ∃ buffer, n' = { n with bpCounter := n.bpCounter + 1, buffer }

/-- One client of the broker: a call returns what the dispatcher answered, or
nothing, after which the client does not call again. -/
def clientSetting (client : String) : Interference Node Desk Json Json where
  rely x y := x.live = y.live ∧ x.registry.Relies client y.registry
  guarantee n x request _ := x.live = true ∧ n.Asks client x.registry request
  serve n x request n' y response := n.Counted n' ∧
    (response = .null ∧ y.live = false ∨
      ∃ reply, x.registry.tables.processControlRequest client request = .ok reply ∧
        response = reply.response ∧ y.registry.tables = reply.tables ∧ y.live = x.live)
  rely_refl _ := ⟨rfl, .refl client _⟩
  rely_trans h h' := ⟨h.1.trans h'.1, h.2.trans h'.2⟩

/-! ## One call -/

/-- Between `x` and `z` the client's request `c` was granted with answer `a`. -/
def Registry.Grants (client : String) (x : Registry) (c : ControlRequest) (a : ControlAnswer)
    (z : Registry) : Prop :=
  ∃ y w : Registry, x.Relies client y ∧
    Tables.Handled y.tables client c w.tables (some a) ∧ w.Relies client z

namespace Registry.Grants

variable {client : String} {x z : Registry} {c : ControlRequest} {a : ControlAnswer}

theorem grows (h : x.Grants client c a z) : x.tables.Grows z.tables := by
  obtain ⟨y, w, hxy, hyw, hwz⟩ := h
  exact (hxy.1.trans hyw.grows).trans hwz.1

theorem records (h : x.Grants client c a z) (hsmall : z.tables.Small) :
    z.tables.Records c a := by
  obtain ⟨y, w, _, hyw, hwz⟩ := h
  exact (hyw.records ((hsmall.of_grows hwz.1).idsSuffice c)).grows hwz.1

theorem ranks {name : String} {messageTypeId : MessageTypeId} {priority actual : TopicPriority}
    {id : TopicId} (h : x.Grants client c a z) (hc : c = .registerTopic name messageTypeId priority)
    (ha : a = .topic id actual) : z.tables.Ranks name actual ∧
      (priority = dontcareTopicPriority ∨ priority = actual) := by
  subst hc ha
  obtain ⟨y, w, _, hyw, hwz⟩ := h
  exact ⟨hyw.ranks.1.grows hwz.1, hyw.ranks.2⟩

theorem standing (h : x.Grants client c a z) (hsmall : z.tables.Small) {name : String}
    {id : BpNodeId} {publishes publishes' subscribes subscribes' : List TopicId}
    (hx : x.tables.Standing client name id publishes subscribes) (hc : c.isRegisterNode = false)
    (hp : ∀ topicId, (Tables.publisherIn topicId c).toList.count id + publishes.count topicId =
      publishes'.count topicId)
    (hs : ∀ topicId, (c.subscriberOf topicId).toList.count id + subscribes.count topicId =
      subscribes'.count topicId) :
    z.tables.Standing client name id publishes' subscribes' := by
  obtain ⟨y, w, hxy, hyw, hwz⟩ := h
  have hw : w.tables.Small := hsmall.of_grows hwz.1
  have hy := hx.undisturbed hxy.1 (hxy.2 (hw.of_grows hyw.grows))
  exact (hy.handled hyw hc hp hs).undisturbed hwz.1 (hwz.2 hsmall)

end Registry.Grants

namespace Node

variable {client : String}

theorem respond_responds {c : ControlRequest} {rpcId : UInt32} {t : Tables} {reply : ControlReply}
    (h : respond (requestJson rpcId c) (t.handle client c) c.errorMessage ControlAnswer.fields =
      .ok reply) :
    reply.tables = (t.handle client c).tables ∧
      Responds c reply.response (t.handle client c).result := by
  obtain ⟨htables, _, hresponse⟩ := Tables.respond_ok h
  refine ⟨htables, ?_⟩
  have hhandled := t.handle_handled client c
  cases hresult : (t.handle client c).result with
  | none =>
    rw [hresult] at hresponse
    obtain ⟨id, hfailure⟩ := hresponse
    rw [hfailure]
    exact .failed _ _ _
  | some a =>
    rw [hresult] at hresponse hhandled
    obtain ⟨id, _, hsuccess⟩ := hresponse
    rw [hsuccess]
    refine .granted _ ?_
    generalize (t.handle client c).tables = t' at hhandled
    cases hhandled <;> trivial

theorem processControlRequest_requestJson {c : ControlRequest} {rpcId : UInt32} {t : Tables}
    {reply : ControlReply}
    (h : t.processControlRequest client (requestJson rpcId c) = .ok reply) :
    reply.tables = (t.handle client c).tables ∧
      Responds c reply.response (t.handle client c).result := by
  rw [Tables.processControlRequest_eq, ofJson_requestJson] at h
  exact respond_responds h

/-- A call of a live client is granted, refused, or lost. -/
theorem callMeets_client {n : Node} {x : Desk} {c : ControlRequest} (hlive : x.live = true)
    (hown : x.registry.tables.Small → x.registry.tables.Own client c) :
    CallMeets (clientSetting client) n x c fun n' r z => n.Counted n' ∧
      ∀ a, r = some a → z.live = true ∧ x.registry.Grants client c a z.registry := by
  intro y hxy n' z d hserve
  obtain ⟨hcounted, hserved⟩ := hserve
  refine ⟨⟨hxy.1 ▸ hlive, c, rfl, fun hsmall => ?_⟩, ?_⟩
  · exact (hown (hsmall.of_grows hxy.2.1)).grows hxy.2.1
  rcases hserved with ⟨rfl, _⟩ | ⟨reply, hreply, rfl, htables, hz⟩
  · exact ⟨none, .nothing, fun w _ => ⟨hcounted, by simp⟩⟩
  · obtain ⟨hreplied, hresponds⟩ := processControlRequest_requestJson hreply
    refine ⟨_, hresponds, fun w hw => ⟨hcounted, fun a ha => ⟨?_, ?_⟩⟩⟩
    · rw [← hw.1, hz, ← hxy.1, hlive]
    · refine ⟨y.registry, z.registry, hxy.2, ?_, hw.2⟩
      rw [htables, hreplied, ← ha]
      exact Tables.handle_handled _ _ _

end Node

/-! ## The node's own books -/

/-- The publisher as it was created. -/
def Publisher.blueprint (p : Publisher) : Publisher := (p.setMessageTypeId 0).setTopicId 0

/-- The subscriber as it was created, but for the priority. -/
def Subscriber.blueprint (s : Subscriber) : Subscriber :=
  ((s.setMessageTypeId 0).setTopicId 0).setTopicPriority 0

def Publisher.boundTopic (p : Publisher) : BoundTopic :=
  ⟨p.topicName, p.messageTypeName, p.messageSize, p.topicId, p.messageTypeId⟩

def Subscriber.boundTopic (s : Subscriber) : BoundTopic :=
  ⟨s.topicName, s.messageTypeName, s.messageSize, s.topicId, s.messageTypeId⟩

def TopicInfo.withPublisher (k : ℕ) (info : TopicInfo) : TopicInfo :=
  { info with publishers := info.publishers ++ [k] }

def TopicInfo.withSubscriber (k : ℕ) (info : TopicInfo) : TopicInfo :=
  { info with subscribers := info.subscribers ++ [k] }

/-- The endpoints listed in `m_topics_by_prio`, in the order of the loops. -/
def endpointsByPrio (entries : List (TopicPriority × TopicInfo)) : List Endpoint :=
  entries.flatMap fun entry =>
    entry.2.subscribers.map .subscriber ++ entry.2.publishers.map .publisher

namespace Node

variable (n : Node)

/-- What `connect` finds and leaves as it is. -/
def blueprint : String × List Publisher × List Subscriber :=
  (n.name, n.publishers.map Publisher.blueprint, n.subscribers.map Subscriber.blueprint)

/-- Positions of the first `np` publishers that are on the topic. -/
def publisherPositions (np : ℕ) (topicId : TopicId) : List ℕ :=
  (List.range np).filter fun k => (n.publishers[k]?).map Publisher.topicId = some topicId

def subscriberPositions (ns : ℕ) (topicId : TopicId) : List ℕ :=
  (List.range ns).filter fun k => (n.subscribers[k]?).map Subscriber.topicId = some topicId

/-- The first `np` publishers and `ns` subscribers are in both of the node's maps, once each. -/
structure Indexed (np ns : ℕ) : Prop where
  topics : ∀ topicId, (n.topics topicId).getD {} =
    ⟨n.publisherPositions np topicId, n.subscriberPositions ns topicId⟩
  order : (endpointsByPrio n.topicsByPrio).Perm
    ((List.range np).map .publisher ++ (List.range ns).map .subscriber)

variable {n}

theorem indexed_of_created (h : Created n) : n.Indexed 0 0 := by
  have hempty : n.topics = (fun _ => none) ∧ n.topicsByPrio = [] := by
    induction h with
    | create => exact ⟨rfl, rfl⟩
    | publisher _ _ _ _ _ ih => exact ih
    | subscriber _ _ _ _ _ ih => exact ih
  refine ⟨fun topicId => ?_, ?_⟩
  · rw [hempty.1]
    rfl
  · rw [hempty.2]
    exact List.Perm.refl _

theorem publisherAt_of_blueprint {start : Node} (h : n.blueprint = start.blueprint) {k : ℕ}
    {p : Publisher} (hp : start.publishers[k]? = some p) :
    ∃ q, n.publishers[k]? = some q ∧ q.blueprint = p.blueprint := by
  have heq := congrArg (fun b => b.2.1[k]?) h
  simp only [Node.blueprint, List.getElem?_map, hp, Option.map_some] at heq
  exact Option.map_eq_some_iff.mp heq

theorem subscriberAt_of_blueprint {start : Node} (h : n.blueprint = start.blueprint) {k : ℕ}
    {s : Subscriber} (hs : start.subscribers[k]? = some s) :
    ∃ q, n.subscribers[k]? = some q ∧ q.blueprint = s.blueprint := by
  have heq := congrArg (fun b => b.2.2[k]?) h
  simp only [Node.blueprint, List.getElem?_map, hs, Option.map_some] at heq
  exact Option.map_eq_some_iff.mp heq

theorem lengths_of_blueprint {start : Node} (h : n.blueprint = start.blueprint) :
    n.publishers.length = start.publishers.length ∧
      n.subscribers.length = start.subscribers.length := by
  have hp := congrArg (fun b => b.2.1.length) h
  have hs := congrArg (fun b => b.2.2.length) h
  simp only [Node.blueprint, List.length_map] at hp hs
  exact ⟨hp, hs⟩

theorem endpointsByPrio_insertByPrio {e : Endpoint} {f : TopicInfo → TopicInfo}
    (hf : ∀ info : TopicInfo,
      ((f info).subscribers.map Endpoint.subscriber ++
        (f info).publishers.map Endpoint.publisher).Perm
      (e :: (info.subscribers.map Endpoint.subscriber ++
        info.publishers.map Endpoint.publisher)))
    (priority : TopicPriority) (entries : List (TopicPriority × TopicInfo)) :
    (endpointsByPrio (insertByPrio priority f entries)).Perm (e :: endpointsByPrio entries) := by
  induction entries with
  | nil => simpa [insertByPrio, endpointsByPrio] using hf {}
  | cons entry rest ih =>
    obtain ⟨p, info⟩ := entry
    unfold insertByPrio
    split_ifs
    · simpa [endpointsByPrio] using (hf info).append_right (endpointsByPrio rest)
    · simpa [endpointsByPrio] using
        (hf {}).append_right (endpointsByPrio ((p, info) :: rest))
    · have hrest := ih.append_left
        (info.subscribers.map Endpoint.subscriber ++ info.publishers.map Endpoint.publisher)
      exact hrest.trans List.perm_middle

theorem getElem?_modify_ne {α : Type} {xs : List α} {j k : ℕ} (f : α → α) (h : j ≠ k) :
    (xs.modify k f)[j]? = xs[j]? := by simp [h.symm]

theorem take_modify {α : Type} (xs : List α) (k : ℕ) (f : α → α) :
    (xs.modify k f).take k = xs.take k := by
  apply List.ext_getElem?
  intro j
  rw [List.getElem?_take, List.getElem?_take]
  split_ifs with hj
  · exact getElem?_modify_ne f (by omega)
  · rfl

theorem map_modify {α β : Type} {f : α → α} {g : α → β} (h : ∀ x, g (f x) = g x) (xs : List α)
    (k : ℕ) : (xs.modify k f).map g = xs.map g := by
  apply List.ext_getElem?
  intro j
  by_cases hj : k = j
  · subst hj
    cases hx : xs[k]? <;> simp [hx, h]
  · simp [hj]

theorem publisherPositions_updatePublisher (k : ℕ) (f : Publisher → Publisher)
    (topicId : TopicId) :
    (n.updatePublisher k f).publisherPositions k topicId = n.publisherPositions k topicId := by
  apply List.filter_congr
  intro j hj
  have hne : j ≠ k := by
    have hlt := List.mem_range.mp hj
    omega
  simp only [updatePublisher, getElem?_modify_ne f hne]

theorem subscriberPositions_updateSubscriber (k : ℕ) (f : Subscriber → Subscriber)
    (topicId : TopicId) :
    (n.updateSubscriber k f).subscriberPositions k topicId = n.subscriberPositions k topicId := by
  apply List.filter_congr
  intro j hj
  have hne : j ≠ k := by
    have hlt := List.mem_range.mp hj
    omega
  simp only [updateSubscriber, getElem?_modify_ne f hne]

theorem publisherPositions_succ {k : ℕ} {p : Publisher} (hp : n.publishers[k]? = some p)
    (topicId : TopicId) : n.publisherPositions (k + 1) topicId =
      n.publisherPositions k topicId ++ if p.topicId = topicId then [k] else [] := by
  rw [publisherPositions, List.range_succ, List.filter_append]
  congr 1
  by_cases h : p.topicId = topicId <;> simp [hp, h]

theorem subscriberPositions_succ {k : ℕ} {s : Subscriber} (hs : n.subscribers[k]? = some s)
    (topicId : TopicId) : n.subscriberPositions (k + 1) topicId =
      n.subscriberPositions k topicId ++ if s.topicId = topicId then [k] else [] := by
  rw [subscriberPositions, List.range_succ, List.filter_append]
  congr 1
  by_cases h : s.topicId = topicId <;> simp [hs, h]

theorem getD_updateTopic (topicId topicId' : TopicId) (f : TopicInfo → TopicInfo) :
    ((n.updateTopic topicId f).topics topicId').getD {} =
      if topicId = topicId' then f ((n.topics topicId').getD {})
      else (n.topics topicId').getD {} := by
  unfold updateTopic
  by_cases h : topicId = topicId'
  · subst h
    simp
  · simp [h, Ne.symm h]

theorem Indexed.addPublisher {k ns : ℕ} {p : Publisher} (h : n.Indexed k ns)
    (hp : n.publishers[k]? = some p) (priority : TopicPriority) :
    (updatePrio priority (TopicInfo.withPublisher k)
      (updateTopic p.topicId (TopicInfo.withPublisher k) n)).Indexed (k + 1) ns where
  topics topicId := by
    change ((n.updateTopic p.topicId _).topics topicId).getD {} =
      ⟨n.publisherPositions (k + 1) topicId, n.subscriberPositions ns topicId⟩
    rw [getD_updateTopic, publisherPositions_succ hp, h.topics]
    by_cases htopic : p.topicId = topicId <;> simp [htopic, TopicInfo.withPublisher]
  order := by
    refine (endpointsByPrio_insertByPrio (e := .publisher k) (fun info => ?_) priority
      n.topicsByPrio).trans ?_
    · simp only [TopicInfo.withPublisher, List.map_append, List.map_singleton]
      rw [← List.append_assoc]
      exact List.perm_append_singleton _ _
    · rw [List.range_succ, List.map_append, List.map_singleton, List.append_assoc]
      refine (h.order.cons _).trans ?_
      rw [List.singleton_append]
      exact List.perm_middle.symm

theorem Indexed.addSubscriber {k np : ℕ} {s : Subscriber} (h : n.Indexed np k)
    (hs : n.subscribers[k]? = some s) (priority : TopicPriority) :
    (updatePrio priority (TopicInfo.withSubscriber k)
      (updateTopic s.topicId (TopicInfo.withSubscriber k) n)).Indexed np (k + 1) where
  topics topicId := by
    change ((n.updateTopic s.topicId _).topics topicId).getD {} =
      ⟨n.publisherPositions np topicId, n.subscriberPositions (k + 1) topicId⟩
    rw [getD_updateTopic, subscriberPositions_succ hs, h.topics]
    by_cases htopic : s.topicId = topicId <;> simp [htopic, TopicInfo.withSubscriber]
  order := by
    refine (endpointsByPrio_insertByPrio (e := .subscriber k) (fun info => ?_) priority
      n.topicsByPrio).trans ?_
    · simp only [TopicInfo.withSubscriber, List.map_append, List.map_singleton]
      rw [List.append_assoc, List.singleton_append]
      exact List.perm_middle
    · rw [List.range_succ, List.map_append, List.map_singleton, ← List.append_assoc]
      exact (h.order.cons _).trans (List.perm_append_singleton _ _).symm

/-! ## The map by priority -/

section ByPrio

variable {priority : TopicPriority} {f : TopicInfo → TopicInfo}
variable {entries : List (TopicPriority × TopicInfo)} {entry : TopicPriority × TopicInfo}

theorem mem_insertByPrio (h : entry ∈ insertByPrio priority f entries) :
    entry ∈ entries ∨ ∃ info, (info = {} ∨ (priority, info) ∈ entries) ∧
      entry = (priority, f info) := by
  induction entries with
  | nil =>
    rw [insertByPrio, List.mem_singleton] at h
    exact .inr ⟨{}, .inl rfl, h⟩
  | cons first rest ih =>
    obtain ⟨p, info⟩ := first
    unfold insertByPrio at h
    split_ifs at h with heq hlt
    · subst heq
      rcases List.mem_cons.mp h with h | h
      · exact .inr ⟨info, .inr List.mem_cons_self, h⟩
      · exact .inl (List.mem_cons_of_mem _ h)
    · rcases List.mem_cons.mp h with h | h
      · exact .inr ⟨{}, .inl rfl, h⟩
      · exact .inl h
    · rcases List.mem_cons.mp h with h | h
      · exact .inl (h ▸ List.mem_cons_self)
      · rcases ih h with h | ⟨old, hold, h⟩
        · exact .inl (List.mem_cons_of_mem _ h)
        · exact .inr ⟨old, hold.imp_right (List.mem_cons_of_mem _), h⟩

theorem descending_insertByPrio (h : entries.Pairwise fun a b => b.1 < a.1) :
    (insertByPrio priority f entries).Pairwise fun a b => b.1 < a.1 := by
  induction entries with
  | nil => exact List.pairwise_singleton _ _
  | cons first rest ih =>
    obtain ⟨p, info⟩ := first
    obtain ⟨hfirst, hrest⟩ := List.pairwise_cons.mp h
    unfold insertByPrio
    split_ifs with heq hlt
    · exact List.pairwise_cons.mpr ⟨hfirst, hrest⟩
    · refine List.pairwise_cons.mpr ⟨fun b hb => ?_, h⟩
      rcases List.mem_cons.mp hb with rfl | hb
      · exact hlt
      · exact Int8.lt_trans (hfirst b hb) hlt
    · refine List.pairwise_cons.mpr ⟨fun b hb => ?_, ih hrest⟩
      rcases mem_insertByPrio hb with hb | ⟨old, _, rfl⟩
      · exact hfirst b hb
      · exact Int8.lt_of_le_of_ne (Int8.not_lt.mp hlt) (Ne.symm heq)

/-- Each endpoint is entered under the priority it asks for, a subscriber under the one the
broker has. Highest first. -/
structure Ranked (start : Node) (t : Tables) (entries : List (TopicPriority × TopicInfo)) :
    Prop where
  descending : entries.Pairwise fun a b => b.1 < a.1
  publishers : ∀ entry ∈ entries, ∀ k ∈ entry.2.publishers, ∃ p actual,
    start.publishers[k]? = some p ∧ p.topicPriority = entry.1 ∧ t.Ranks p.topicName actual ∧
      (entry.1 = dontcareTopicPriority ∨ entry.1 = actual)
  subscribers : ∀ entry ∈ entries, ∀ k ∈ entry.2.subscribers, ∃ s,
    start.subscribers[k]? = some s ∧ t.Ranks s.topicName entry.1

namespace Ranked

variable {start : Node} {t t' : Tables} {k : ℕ}

theorem grows (h : Ranked start t entries) (hg : t.Grows t') : Ranked start t' entries where
  descending := h.descending
  publishers entry hentry k hk := by
    obtain ⟨p, actual, hp, hprio, hranks, hactual⟩ := h.publishers entry hentry k hk
    exact ⟨p, actual, hp, hprio, hranks.grows hg, hactual⟩
  subscribers entry hentry k hk := by
    obtain ⟨s, hs, hranks⟩ := h.subscribers entry hentry k hk
    exact ⟨s, hs, hranks.grows hg⟩

theorem addPublisher {p : Publisher} {actual : TopicPriority} (h : Ranked start t entries)
    (hp : start.publishers[k]? = some p) (hranks : t.Ranks p.topicName actual)
    (hactual : p.topicPriority = dontcareTopicPriority ∨ p.topicPriority = actual) :
    Ranked start t (insertByPrio p.topicPriority (TopicInfo.withPublisher k) entries) where
  descending := descending_insertByPrio h.descending
  publishers entry hentry j hj := by
    rcases mem_insertByPrio hentry with hentry | ⟨info, hinfo, rfl⟩
    · exact h.publishers entry hentry j hj
    · rcases List.mem_append.mp hj with hj | hj
      · rcases hinfo with rfl | hinfo
        · cases hj
        · exact h.publishers _ hinfo j hj
      · rw [List.mem_singleton.mp hj]
        exact ⟨p, actual, hp, rfl, hranks, hactual⟩
  subscribers entry hentry j hj := by
    rcases mem_insertByPrio hentry with hentry | ⟨info, hinfo, rfl⟩
    · exact h.subscribers entry hentry j hj
    · rcases hinfo with rfl | hinfo
      · cases hj
      · exact h.subscribers _ hinfo j hj

theorem addSubscriber {s : Subscriber} (h : Ranked start t entries)
    (hs : start.subscribers[k]? = some s) (hranks : t.Ranks s.topicName priority) :
    Ranked start t (insertByPrio priority (TopicInfo.withSubscriber k) entries) where
  descending := descending_insertByPrio h.descending
  publishers entry hentry j hj := by
    rcases mem_insertByPrio hentry with hentry | ⟨info, hinfo, rfl⟩
    · exact h.publishers entry hentry j hj
    · rcases hinfo with rfl | hinfo
      · cases hj
      · exact h.publishers _ hinfo j hj
  subscribers entry hentry j hj := by
    rcases mem_insertByPrio hentry with hentry | ⟨info, hinfo, rfl⟩
    · exact h.subscribers entry hentry j hj
    · rcases List.mem_append.mp hj with hj | hj
      · rcases hinfo with rfl | hinfo
        · cases hj
        · exact h.subscribers _ hinfo j hj
      · rw [List.mem_singleton.mp hj]
        exact ⟨s, hs, hranks⟩

end Ranked

end ByPrio

theorem topicsByPrio_of_created (h : Created n) : n.topicsByPrio = [] := by
  induction h with
  | create => rfl
  | publisher _ _ _ _ _ ih => exact ih
  | subscriber _ _ _ _ _ ih => exact ih

theorem ranked_of_created (h : Created n) (t : Tables) : Ranked n t n.topicsByPrio := by
  rw [topicsByPrio_of_created h]
  constructor
  · exact List.Pairwise.nil
  · intro entry hentry
    cases hentry
  · intro entry hentry
    cases hentry

/-! ## The stages of `connect` -/

/-- What holds once the node, its first `np` publishers and its first `ns`
subscribers have been registered. -/
structure Registered (client : String) (start : Node) (np ns : ℕ) (n : Node) (x : Desk) : Prop where
  live : x.live = true
  blueprint : n.blueprint = start.blueprint
  indexed : n.Indexed np ns
  standing : x.registry.tables.Small → x.registry.tables.Standing client n.name n.nodeId
    ((n.publishers.take np).map Publisher.topicId)
    ((n.subscribers.take ns).map Subscriber.topicId)
  publishers : x.registry.tables.Small → ∀ p ∈ n.publishers.take np,
    x.registry.tables.Binds p.boundTopic
  subscribers : x.registry.tables.Small → ∀ s ∈ n.subscribers.take ns,
    x.registry.tables.Binds s.boundTopic
  ranked : Ranked start x.registry.tables n.topicsByPrio

namespace Registered

variable {client : String} {start n n' : Node} {np ns : ℕ} {x y z : Desk}

theorem stable (h : Registered client start np ns n x) (hxy : (clientSetting client).rely x y) :
    Registered client start np ns n y where
  live := hxy.1 ▸ h.live
  blueprint := h.blueprint
  indexed := h.indexed
  standing hsmall :=
    (h.standing (hsmall.of_grows hxy.2.1)).undisturbed hxy.2.1 (hxy.2.2 hsmall)
  publishers hsmall p hp := (h.publishers (hsmall.of_grows hxy.2.1) p hp).grows hxy.2.1
  subscribers hsmall s hs := (h.subscribers (hsmall.of_grows hxy.2.1) s hs).grows hxy.2.1
  ranked := h.ranked.grows hxy.2.1

theorem counted (h : Registered client start np ns n x) (hn : n.Counted n') :
    Registered client start np ns n' x := by
  obtain ⟨buffer, rfl⟩ := hn
  exact ⟨h.live, h.blueprint, ⟨h.indexed.topics, h.indexed.order⟩, h.standing, h.publishers,
    h.subscribers, h.ranked⟩

theorem owns (h : Registered client start np ns n x) (hsmall : x.registry.tables.Small) :
    x.registry.tables.Owns client n.nodeId := (h.standing hsmall).owns

theorem granted {c : ControlRequest} {a : ControlAnswer} (h : Registered client start np ns n x)
    (hg : x.registry.Grants client c a z.registry) (hz : z.live = true)
    (hc : c.isRegisterNode = false) (hp : ∀ topicId, Tables.publisherIn topicId c = none)
    (hs : ∀ topicId, c.subscriberOf topicId = none) : Registered client start np ns n z where
  live := hz
  blueprint := h.blueprint
  indexed := h.indexed
  standing hsmall := hg.standing hsmall (h.standing (hsmall.of_grows hg.grows)) hc
    (fun topicId => by simp [hp topicId]) (fun topicId => by simp [hs topicId])
  publishers hsmall p hp := (h.publishers (hsmall.of_grows hg.grows) p hp).grows hg.grows
  subscribers hsmall s hs := (h.subscribers (hsmall.of_grows hg.grows) s hs).grows hg.grows
  ranked := h.ranked.grows hg.grows

theorem updatePublisher {f : Publisher → Publisher} (h : Registered client start np ns n x)
    (hf : ∀ p, (f p).blueprint = p.blueprint) :
    Registered client start np ns (n.updatePublisher np f) x where
  live := h.live
  blueprint := by
    rw [← h.blueprint]
    simp only [Node.blueprint, Node.updatePublisher, map_modify hf]
  indexed := ⟨fun topicId => by
    rw [publisherPositions_updatePublisher]
    exact h.indexed.topics topicId, h.indexed.order⟩
  standing := by
    simp only [Node.updatePublisher, take_modify]
    exact h.standing
  publishers := by
    simp only [Node.updatePublisher, take_modify]
    exact h.publishers
  subscribers := h.subscribers
  ranked := h.ranked

theorem updateSubscriber {f : Subscriber → Subscriber} (h : Registered client start np ns n x)
    (hf : ∀ s, (f s).blueprint = s.blueprint) :
    Registered client start np ns (n.updateSubscriber ns f) x where
  live := h.live
  blueprint := by
    rw [← h.blueprint]
    simp only [Node.blueprint, Node.updateSubscriber, map_modify hf]
  indexed := ⟨fun topicId => by
    rw [subscriberPositions_updateSubscriber]
    exact h.indexed.topics topicId, h.indexed.order⟩
  standing := by
    simp only [Node.updateSubscriber, take_modify]
    exact h.standing
  publishers := h.publishers
  subscribers := by
    simp only [Node.updateSubscriber, take_modify]
    exact h.subscribers
  ranked := h.ranked

theorem addPublisher {p₀ p : Publisher} {actual : TopicPriority} {c : ControlRequest}
    (h : Registered client start np ns n x) (hp₀ : start.publishers[np]? = some p₀)
    (hp : n.publishers[np]? = some p)
    (hc : c = .addPublisher n.nodeId p.topicId p.messageTypeId)
    (hg : x.registry.Grants client c .added z.registry) (hz : z.live = true)
    (hbinds : z.registry.tables.Small → z.registry.tables.Binds p.boundTopic)
    (hranks : x.registry.tables.Ranks p₀.topicName actual)
    (hactual : p₀.topicPriority = dontcareTopicPriority ∨ p₀.topicPriority = actual) :
    Registered client start (np + 1) ns (updatePrio p₀.topicPriority (TopicInfo.withPublisher np)
      (updateTopic p.topicId (TopicInfo.withPublisher np) n)) z := by
  subst hc
  have htake : n.publishers.take (np + 1) = n.publishers.take np ++ [p] := by
    rw [List.take_add_one, hp, Option.toList_some]
  refine ⟨hz, h.blueprint, h.indexed.addPublisher hp p₀.topicPriority, fun hsmall => ?_,
    fun hsmall q hq => ?_, fun hsmall s hs => ?_, ?_⟩
  · refine hg.standing hsmall (h.standing (hsmall.of_grows hg.grows)) rfl (fun topicId => ?_)
      (fun topicId => by simp [ControlRequest.subscriberOf]; rfl)
    change (Tables.publisherIn topicId _).toList.count n.nodeId + _ =
      ((n.publishers.take (np + 1)).map Publisher.topicId).count topicId
    rw [htake, List.map_append, List.count_append, Nat.add_comm]
    by_cases htopic : p.topicId = topicId <;> simp [Tables.publisherIn, htopic]
  · rcases List.mem_append.mp (htake ▸ hq) with hq | hq
    · exact (h.publishers (hsmall.of_grows hg.grows) q hq).grows hg.grows
    · rw [List.mem_singleton.mp hq]
      exact hbinds hsmall
  · exact (h.subscribers (hsmall.of_grows hg.grows) s hs).grows hg.grows
  · exact (h.ranked.addPublisher hp₀ hranks hactual).grows hg.grows

theorem addSubscriber {s₀ s : Subscriber} {priority : TopicPriority} {c : ControlRequest}
    (h : Registered client start np ns n x) (hs₀ : start.subscribers[ns]? = some s₀)
    (hs : n.subscribers[ns]? = some s)
    (hc : c = .addSubscriber n.nodeId s.topicId s.messageTypeId)
    (hg : x.registry.Grants client c .added z.registry) (hz : z.live = true)
    (hbinds : z.registry.tables.Small → z.registry.tables.Binds s.boundTopic)
    (hranks : x.registry.tables.Ranks s₀.topicName priority) :
    Registered client start np (ns + 1) (updatePrio priority (TopicInfo.withSubscriber ns)
      (updateTopic s.topicId (TopicInfo.withSubscriber ns) n)) z := by
  subst hc
  have htake : n.subscribers.take (ns + 1) = n.subscribers.take ns ++ [s] := by
    rw [List.take_add_one, hs, Option.toList_some]
  refine ⟨hz, h.blueprint, h.indexed.addSubscriber hs priority, fun hsmall => ?_,
    fun hsmall p hp => ?_, fun hsmall q hq => ?_, ?_⟩
  · refine hg.standing hsmall (h.standing (hsmall.of_grows hg.grows)) rfl
      (fun topicId => by simp [Tables.publisherIn]; rfl) (fun topicId => ?_)
    change (ControlRequest.subscriberOf topicId _).toList.count n.nodeId + _ =
      ((n.subscribers.take (ns + 1)).map Subscriber.topicId).count topicId
    rw [htake, List.map_append, List.count_append, Nat.add_comm]
    by_cases htopic : s.topicId = topicId <;> simp [ControlRequest.subscriberOf, htopic]
  · exact (h.publishers (hsmall.of_grows hg.grows) p hp).grows hg.grows
  · rcases List.mem_append.mp (htake ▸ hq) with hq | hq
    · exact (h.subscribers (hsmall.of_grows hg.grows) q hq).grows hg.grows
    · rw [List.mem_singleton.mp hq]
      exact hbinds hsmall
  · exact (h.ranked.addSubscriber hs₀ hranks).grows hg.grows

end Registered

theorem binds_of_records {t : Tables} {e : BoundTopic} {priority actual : TopicPriority}
    (htype : t.Records (.registerMessageType e.messageTypeName e.messageSize)
      (.messageType e.messageTypeId))
    (htopic : t.Records (.registerTopic e.topicName e.messageTypeId priority)
      (.topic e.topicId actual)) : t.Binds e := by
  obtain ⟨topic, hget, hname, hmessage, _⟩ := htopic
  exact ⟨⟨topic, hget, hname, hmessage⟩, htype⟩

section Connect

variable {client : String} {start n : Node} {np ns : ℕ} {x : Desk}

theorem safe_registerPublisher_client {p : Publisher} (h : Registered client start np ns n x)
    (hp : start.publishers[np]? = some p) :
    (registerPublisher np p n).Safe (clientSetting client)
      (fun n' ok z => ok = true → Registered client start (np + 1) ns n' z) x := by
  obtain ⟨q, hq, hpq⟩ := publisherAt_of_blueprint h.blueprint hp
  have hname : p.topicName = q.topicName ∧ p.messageTypeName = q.messageTypeName ∧
      p.messageSize = q.messageSize := by
    simp only [Publisher.blueprint, Publisher.setTopicId, Publisher.setMessageTypeId,
      Publisher.mk.injEq] at hpq
    exact ⟨hpq.1.symm, hpq.2.1.symm, hpq.2.2.1.symm⟩
  refine Program.safe_bind ((safe_registerMessageType
    (callMeets_client h.live fun _ => trivial)).mono ?_)
  rintro n₁ (_ | messageTypeId) z₁ ⟨hn₁, h₁⟩
  · exact fun _ _ hfalse => by cases hfalse
  obtain ⟨hlive₁, hgrant₁⟩ := h₁ _ rfl
  have hstage₁ := ((h.granted hgrant₁ hlive₁ rfl (fun _ => rfl) fun _ => rfl).counted
    hn₁).updatePublisher (f := (·.setMessageTypeId messageTypeId)) fun _ => rfl
  obtain ⟨buffer₁, rfl⟩ := hn₁
  simp only [Program.bind_apply, Program.modify_apply, Session.ret_bind]
  refine Session.Safe.bind ((safe_registerTopic
    (callMeets_client hlive₁ fun _ => trivial)).mono ?_)
  rintro n₂ (_ | ⟨topicId, priority⟩) z₂ h₂
  · exact fun _ _ hfalse => by cases hfalse
  obtain ⟨actual, ⟨hn₂, h₂⟩, _⟩ := h₂
  obtain ⟨hlive₂, hgrant₂⟩ := h₂ _ rfl
  have hstage₂ := ((hstage₁.granted hgrant₂ hlive₂ rfl (fun _ => rfl) fun _ => rfl).counted
    hn₂).updatePublisher (f := (·.setTopicId topicId)) fun _ => rfl
  obtain ⟨buffer₂, rfl⟩ := hn₂
  simp only [Program.bind_apply, Program.modify_apply, Session.ret_bind]
  refine Session.Safe.bind ((safe_addPublisher
    (callMeets_client hlive₂ hstage₂.owns)).mono ?_)
  rintro n₃ (_ | _) z₃ ⟨hn₃, h₃⟩
  · exact fun _ _ hfalse => by cases hfalse
  obtain ⟨hlive₃, hgrant₃⟩ := h₃ _ rfl
  obtain ⟨buffer₃, rfl⟩ := hn₃
  intro w hw _
  have hget :
      ((n.publishers.modify np (·.setMessageTypeId messageTypeId)).modify np
        (·.setTopicId topicId))[np]? =
        some ((q.setMessageTypeId messageTypeId).setTopicId topicId) := by
    simp [hq]
  obtain ⟨hranks, hactual⟩ := hgrant₂.ranks rfl rfl
  refine ((hstage₂.counted ⟨buffer₃, rfl⟩).addPublisher hp hget rfl
    hgrant₃ hlive₃ (fun hsmall => ?_) hranks hactual).stable hw
  have hsmall₂ := hsmall.of_grows hgrant₃.grows
  refine (@binds_of_records z₂.registry.tables
    (Publisher.boundTopic ((q.setMessageTypeId messageTypeId).setTopicId topicId))
    p.topicPriority actual ?_ ?_).grows hgrant₃.grows
  · have hrecord := (hgrant₁.records (hsmall₂.of_grows hgrant₂.grows)).grows hgrant₂.grows
    rw [hname.2.1, hname.2.2] at hrecord
    exact hrecord
  · have hrecord := hgrant₂.records hsmall₂
    rw [hname.1] at hrecord
    exact hrecord

theorem safe_registerSubscriber_client {s : Subscriber} (h : Registered client start np ns n x)
    (hs : start.subscribers[ns]? = some s) :
    (registerSubscriber ns s n).Safe (clientSetting client)
      (fun n' ok z => ok = true → Registered client start np (ns + 1) n' z) x := by
  obtain ⟨q, hq, hsq⟩ := subscriberAt_of_blueprint h.blueprint hs
  have hname : s.topicName = q.topicName ∧ s.messageTypeName = q.messageTypeName ∧
      s.messageSize = q.messageSize := by
    simp only [Subscriber.blueprint, Subscriber.setTopicId, Subscriber.setMessageTypeId,
      Subscriber.setTopicPriority, Subscriber.mk.injEq] at hsq
    exact ⟨hsq.1.symm, hsq.2.1.symm, hsq.2.2.1.symm⟩
  refine Program.safe_bind ((safe_registerMessageType
    (callMeets_client h.live fun _ => trivial)).mono ?_)
  rintro n₁ (_ | messageTypeId) z₁ ⟨hn₁, h₁⟩
  · exact fun _ _ hfalse => by cases hfalse
  obtain ⟨hlive₁, hgrant₁⟩ := h₁ _ rfl
  have hstage₁ := ((h.granted hgrant₁ hlive₁ rfl (fun _ => rfl) fun _ => rfl).counted
    hn₁).updateSubscriber (f := (·.setMessageTypeId messageTypeId)) fun _ => rfl
  obtain ⟨buffer₁, rfl⟩ := hn₁
  simp only [Program.bind_apply, Program.modify_apply, Session.ret_bind]
  refine Session.Safe.bind ((safe_registerTopic
    (callMeets_client hlive₁ fun _ => trivial)).mono ?_)
  rintro n₂ (_ | ⟨topicId, priority⟩) z₂ h₂
  · exact fun _ _ hfalse => by cases hfalse
  obtain ⟨actual, ⟨hn₂, h₂⟩, hactual⟩ := h₂
  obtain rfl : priority = actual := hactual
  obtain ⟨hlive₂, hgrant₂⟩ := h₂ _ rfl
  have hstage₂ := ((hstage₁.granted hgrant₂ hlive₂ rfl (fun _ => rfl) fun _ => rfl).counted
    hn₂).updateSubscriber (f := fun s => (s.setTopicId topicId).setTopicPriority priority)
    fun _ => rfl
  obtain ⟨buffer₂, rfl⟩ := hn₂
  simp only [Program.bind_apply, Program.modify_apply, Session.ret_bind]
  refine Session.Safe.bind ((safe_addSubscriber
    (callMeets_client hlive₂ hstage₂.owns)).mono ?_)
  rintro n₃ (_ | _) z₃ ⟨hn₃, h₃⟩
  · exact fun _ _ hfalse => by cases hfalse
  obtain ⟨hlive₃, hgrant₃⟩ := h₃ _ rfl
  obtain ⟨buffer₃, rfl⟩ := hn₃
  intro w hw _
  have hget : ((n.subscribers.modify ns (·.setMessageTypeId messageTypeId)).modify ns
      (fun s => (s.setTopicId topicId).setTopicPriority priority))[ns]? =
      some (((q.setMessageTypeId messageTypeId).setTopicId topicId).setTopicPriority priority) := by
    simp [hq]
  refine ((hstage₂.counted ⟨buffer₃, rfl⟩).addSubscriber hs hget rfl
    hgrant₃ hlive₃ (fun hsmall => ?_) (hgrant₂.ranks rfl rfl).1).stable hw
  have hsmall₂ := hsmall.of_grows hgrant₃.grows
  refine (@binds_of_records z₂.registry.tables
    (Subscriber.boundTopic
      (((q.setMessageTypeId messageTypeId).setTopicId topicId).setTopicPriority priority))
    s.topicPriority priority ?_ ?_).grows hgrant₃.grows
  · have hrecord := (hgrant₁.records (hsmall₂.of_grows hgrant₂.grows)).grows hgrant₂.grows
    rw [hname.2.1, hname.2.2] at hrecord
    exact hrecord
  · have hrecord := hgrant₂.records hsmall₂
    rw [hname.1] at hrecord
    exact hrecord

/-- A registration loop, where every endpoint leads from one stage to the next. -/
theorem safe_registerEach_client {α : Type} {register : ℕ → α → NodeM Bool}
    {P : ℕ → Node → Desk → Prop} (es : List α)
    (hstable : ∀ k n x y, P k n x → (clientSetting client).rely x y → P k n y)
    (hstep : ∀ k e n x, es[k]? = some e → P k n x → (register k e n).Safe (clientSetting client)
      (fun n' ok z => ok = true → P (k + 1) n' z) x) (rest : List α) (k : ℕ)
    (hrest : es.drop k = rest) (n : Node) (x : Desk) (h : P k n x) (hk : k ≤ es.length) :
    (registerEach register k rest n).Safe (clientSetting client)
      (fun n' ok z => ok = true → P es.length n' z) x := by
  induction rest generalizing k n x with
  | nil =>
    have hlen : k = es.length := by
      have hdrop := congrArg List.length hrest
      simp only [List.length_drop, List.length_nil] at hdrop
      omega
    exact fun y hy _ => hlen ▸ hstable k n x y h hy
  | cons e rest ih =>
    have hget : es[k]? = some e := by
      rw [← List.head?_drop, hrest, List.head?_cons]
    have hlt := (List.getElem?_eq_some_iff.mp hget).1
    refine Program.safe_bind ((hstep k e n x hget h).mono ?_)
    rintro n' (_ | _) z hz
    · exact fun _ _ hfalse => by cases hfalse
    · refine ih (k + 1) ?_ n' z (hz rfl) hlt
      rw [← List.drop_drop, hrest, List.drop_one, List.tail_cons]

/-- `connect` of a client unknown to the broker: where it returns true, all
endpoints are registered and the tables agree. -/
theorem safe_connect_client (hlive : x.live = true) (hcreated : Created n)
    (hfresh : x.registry.tables.Small → ∀ id, ¬ x.registry.tables.Owns client id) :
    (connect n).Safe (clientSetting client) (fun n' ok z => ok = true →
      Registered client n n'.publishers.length n'.subscribers.length n' z) x := by
  refine Program.safe_bind ((safe_registerNode
    (callMeets_client hlive fun _ => trivial)).mono ?_)
  rintro n₁ (_ | _) z₁ h₁
  · exact fun _ _ hfalse => by cases hfalse
  obtain ⟨_, id, rfl, ⟨buffer, rfl⟩, h₁⟩ := h₁
  obtain ⟨hlive₁, y, w, hxy, hyw, hwz⟩ := h₁ _ rfl
  have hstage : Registered client n 0 0
      { n with bpCounter := n.bpCounter + 1, buffer := buffer, nodeId := id } z₁ := by
    have hindexed := indexed_of_created hcreated
    refine ⟨hlive₁, rfl, ⟨hindexed.topics, hindexed.order⟩, fun hsmall => ?_, by simp, by simp,
      ranked_of_created hcreated _⟩
    have hw : w.tables.Small := hsmall.of_grows hwz.1
    have hy : y.tables.Small := hw.of_grows hyw.grows
    have hnone : ∀ id', ¬ y.tables.Owns client id' := fun id' hid =>
      hfresh (hy.of_grows hxy.1) id' ((hxy.2 hy).owns id' hid)
    exact (Tables.standing_of_newNode hyw rfl hnone y.known hw).undisturbed hwz.1 (hwz.2 hsmall)
  simp only [Bool.not_true, Bool.false_eq_true, if_false, Program.bind_apply, Program.get_apply,
    Session.ret_bind]
  refine Session.Safe.bind ((safe_registerEach_client
    (P := fun k m z => Registered client n k 0 m z) n.publishers
    (fun _ _ _ _ h hxy => h.stable hxy) (fun k p m z hp h => ?_) n.publishers 0 rfl _ z₁ hstage
    (Nat.zero_le _)).mono ?_)
  · exact safe_registerPublisher_client h hp
  rintro n₂ (_ | _) z₂ h₂
  · exact fun _ _ hfalse => by cases hfalse
  refine (safe_registerEach_client
    (P := fun k m z => Registered client n n.publishers.length k m z) n.subscribers
    (fun _ _ _ _ h hxy => h.stable hxy) (fun k s m z hs h => ?_) n.subscribers 0 rfl n₂ z₂
    (h₂ rfl) (Nat.zero_le _)).mono ?_
  · exact safe_registerSubscriber_client h hs
  · intro n₃ ok z₃ h₃ hok
    obtain ⟨hp, hs⟩ := lengths_of_blueprint (h₃ hok).blueprint
    rw [hp, hs]
    exact h₃ hok

end Connect

end Node

end Crps
