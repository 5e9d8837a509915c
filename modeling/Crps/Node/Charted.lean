import Crps.Node.Events
import Crps.Node.Registration
import Crps.Node.Rpc

/-!
# A connected node's maps

Whatever a node is answered while it connects, a `connect` that returns true has
entered each endpoint once in both of its maps: under the topic id it was given
and under its priority, in a map that is ordered by priority.
-/

namespace Crps
namespace Node

/-- One `broker_rpc_blocking`, on any network. -/
def Calls (text : JsonText) (n : Node) (request : Json) (n' : Node) (response : Json) : Prop :=
  ∃ sent reception, n.brokerRpcBlocking text request sent reception = .ok (n', response)

/-- A node as `connect` leaves it when it returns true. -/
def ConnectsTo (text : JsonText) (start n : Node) : Prop :=
  Created start ∧ (connect start).Returns (Calls text) n true

/-- A node in use: connected once, and then only published to and spun. A call that throws has
received its datagram. -/
inductive Used (text : JsonText) (start : Node) : Node → Prop
  | connected {n : Node} : ConnectsTo text start n → Used text start n
  | publish {n : Node} (k : ℕ) (data : Memory) :
      Used text start n → Used text start (n.publish k data).1
  | spinOnce {n : Node} {reception : Reception} {env : SpinEnvironment} {out : SpinOutcome} :
      Used text start n → n.spinOnce text reception env = .ok out → Used text start out.node
  | threw {n : Node} {bytes : Bytes} {env : SpinEnvironment} {fault : Fault} :
      Used text start n → n.spinOnce text (.datagram bytes) env = .error fault →
      Used text start { n with buffer := Memory.load bytes n.buffer }

/-- Calls have come and gone. -/
def Idled (n n' : Node) : Prop :=
  ∃ bpCounter buffer, n' = { n with bpCounter, buffer }

/-- The first `np` publishers and `ns` subscribers are in the maps, each under its priority. -/
structure Charted (start : Node) (np ns : ℕ) (n : Node) : Prop where
  blueprint : n.blueprint = start.blueprint
  indexed : n.Indexed np ns
  descending : n.topicsByPrio.Pairwise fun a b => b.1 < a.1
  publishers : ∀ entry ∈ n.topicsByPrio, ∀ k ∈ entry.2.publishers,
    n.publishers[k]?.map Publisher.topicPriority = some entry.1
  subscribers : ∀ entry ∈ n.topicsByPrio, ∀ k ∈ entry.2.subscribers,
    n.subscribers[k]?.map Subscriber.topicPriority = some entry.1

/-! ## Calls and what is read off their answers -/

variable {text : JsonText} {n n' : Node}

theorem Idled.refl (n : Node) : n.Idled n := ⟨n.bpCounter, n.buffer, rfl⟩

theorem Idled.trans {n'' : Node} (h : n.Idled n') (h' : n'.Idled n'') : n.Idled n'' := by
  obtain ⟨c, buffer, rfl⟩ := h
  obtain ⟨c', buffer', rfl⟩ := h'
  exact ⟨c', buffer', rfl⟩

theorem Calls.idled {request response : Json} (h : n.Calls text request n' response) :
    n.Idled n' := by
  obtain ⟨sent, reception, h⟩ := h
  cases sent with
  | false =>
    cases h
    exact ⟨_, n.buffer, rfl⟩
  | true =>
    simp only [brokerRpcBlocking, Bool.not_true, Bool.false_eq_true, if_false, rpcResponse] at h
    cases hreceived : (n.sendControl text request).2.receiveMessage text true reception with
    | error fault =>
      rw [hreceived] at h
      cases h
    | ok got =>
      obtain ⟨n₁, received⟩ := got
      rw [hreceived] at h
      have hn₁ : n.Idled n₁ := by
        cases receiveMessage_receives hreceived with
        | nothing _ buffer => exact ⟨_, buffer, rfl⟩
        | error _ buffer => exact ⟨_, buffer, rfl⟩
        | packet hd => exact ⟨_, _, rfl⟩
      simp only [bind, Except.bind] at h
      split at h
      · split_ifs at h
        · cases h
          exact hn₁
        · cases h
          exact hn₁
      · cases h
        exact hn₁

theorem returns_ofExcept {α : Type} {r : Except Fault α} {a : α}
    (h : (Program.ofExcept r n : Session Node Json Json Fault α).Returns (Calls text) n' a) :
    n = n' := by
  cases r with
  | error fault => exact h.elim
  | ok b => exact h.1

theorem returns_fieldUInt32 {result : Json} {key : String} {id : UInt32}
    (h : (fieldUInt32 result key n).Returns (Calls text) n' id) : n = n' := by
  obtain ⟨n₁, value, hfield, hvalue⟩ := Program.returns_bind.mp h
  rw [returns_ofExcept hfield]
  exact returns_ofExcept hvalue

theorem returns_succeeded {result : Json} {ok : Bool}
    (h : (succeeded result n).Returns (Calls text) n' ok) : n = n' := by
  unfold succeeded at h
  split_ifs at h
  · exact h.1
  · obtain ⟨n₁, success, hfield, hsuccess⟩ := Program.returns_bind.mp h
    rw [returns_ofExcept hfield]
    exact returns_ofExcept hsuccess

theorem returns_request {α : Type} {request : Json} {f : Json → NodeM α} {a : α}
    (h : ((brokerRpc request >>= f) n).Returns (Calls text) n' a)
    (hf : ∀ d n₁, (f d n₁).Returns (Calls text) n' a → n₁.Idled n') : n.Idled n' := by
  obtain ⟨n₁, d, ⟨n₂, d', hcall, rfl, rfl⟩, hrest⟩ := Program.returns_bind.mp h
  exact hcall.idled.trans (hf _ _ hrest)

theorem returns_registerMessageType {name : String} {size : MessageSize}
    {r : Option MessageTypeId}
    (h : (registerMessageType name size n).Returns (Calls text) n' r) : n.Idled n' := by
  refine returns_request (f := fun d => do
    if !(← succeeded d) then return none
    let messageTypeId ← fieldUInt32 d "message_type_id"
    return some messageTypeId) h fun d n₁ hd => ?_
  obtain ⟨n₂, ok, hok, hrest⟩ := Program.returns_bind.mp hd
  rw [returns_succeeded hok]
  cases ok with
  | false => exact hrest.1 ▸ .refl _
  | true =>
    obtain ⟨n₃, id, hid, hend⟩ := Program.returns_bind.mp hrest
    rw [returns_fieldUInt32 hid, hend.1]
    exact .refl _

theorem returns_registerTopic {name : String} {messageTypeId : MessageTypeId}
    {priority : TopicPriority} {wantPriority : Bool} {r : Option (TopicId × TopicPriority)}
    (h : (registerTopic name messageTypeId priority wantPriority n).Returns (Calls text) n' r) :
    n.Idled n' := by
  refine returns_request (f := fun d => do
    if !(← succeeded d) then return none
    let topicId ← fieldUInt32 d "topic_id"
    if wantPriority then
      let value ← Program.ofExcept (d.entry "topic_priority")
      let actual ← Program.ofExcept value.toInt8
      return some (topicId, actual)
    else return some (topicId, priority)) h fun d n₁ hd => ?_
  obtain ⟨n₂, ok, hok, hrest⟩ := Program.returns_bind.mp hd
  rw [returns_succeeded hok]
  cases ok with
  | false => exact hrest.1 ▸ .refl _
  | true =>
    obtain ⟨n₃, id, hid, hend⟩ := Program.returns_bind.mp hrest
    rw [returns_fieldUInt32 hid]
    cases wantPriority with
    | false => exact hend.1 ▸ .refl _
    | true =>
      obtain ⟨n₄, value, hvalue, hread⟩ := Program.returns_bind.mp hend
      obtain ⟨n₅, actual, hactual, hlast⟩ := Program.returns_bind.mp hread
      rw [returns_ofExcept hvalue, returns_ofExcept hactual, hlast.1]
      exact .refl _

theorem returns_addEndpoint {action : String} {topicId : TopicId} {messageTypeId : MessageTypeId}
    {ok : Bool} (h : (addEndpoint action topicId messageTypeId n).Returns (Calls text) n' ok) :
    n.Idled n' :=
  returns_request (f := succeeded) h fun _ _ hd => returns_succeeded hd ▸ .refl _

/-! ## The stages of `connect` -/

namespace Charted

variable {start : Node} {np ns : ℕ}

theorem idled (h : Charted start np ns n) (hn : n.Idled n') : Charted start np ns n' := by
  obtain ⟨c, buffer, rfl⟩ := hn
  exact ⟨h.blueprint, ⟨h.indexed.topics, h.indexed.order⟩, h.descending, h.publishers,
    h.subscribers⟩

theorem subscriber_lt (h : Charted start np ns n) {entry : TopicPriority × TopicInfo}
    (hentry : entry ∈ n.topicsByPrio) {k : ℕ} (hk : k ∈ entry.2.subscribers) : k < ns := by
  have hmem : Endpoint.subscriber k ∈ endpointsByPrio n.topicsByPrio := by
    apply List.mem_flatMap.mpr
    exact ⟨entry, hentry, List.mem_append_left _ (List.mem_map_of_mem hk)⟩
  have hlisted := h.indexed.order.mem_iff.mp hmem
  simp only [List.mem_append, List.mem_map, List.mem_range, reduceCtorEq, and_false,
    exists_false, Endpoint.subscriber.injEq, exists_eq_right, false_or] at hlisted
  exact hlisted

theorem updatePublisher {f : Publisher → Publisher} (h : Charted start np ns n)
    (hf : ∀ p, (f p).blueprint = p.blueprint) (hprio : ∀ p, (f p).topicPriority = p.topicPriority) :
    Charted start np ns (n.updatePublisher np f) where
  blueprint := by
    rw [← h.blueprint]
    simp only [Node.blueprint, Node.updatePublisher, map_modify hf]
  indexed := ⟨fun topicId => by
    rw [publisherPositions_updatePublisher]
    exact h.indexed.topics topicId, h.indexed.order⟩
  descending := h.descending
  publishers entry hentry k hk := by
    have hmap := map_modify (g := Publisher.topicPriority) hprio n.publishers np
    have hget := congrArg (fun xs => xs[k]?) hmap
    simp only [List.getElem?_map] at hget
    exact hget.trans (h.publishers entry hentry k hk)
  subscribers := h.subscribers

theorem updateSubscriber {f : Subscriber → Subscriber} (h : Charted start np ns n)
    (hf : ∀ s, (f s).blueprint = s.blueprint) :
    Charted start np ns (n.updateSubscriber ns f) where
  blueprint := by
    rw [← h.blueprint]
    simp only [Node.blueprint, Node.updateSubscriber, map_modify hf]
  indexed := ⟨fun topicId => by
    rw [subscriberPositions_updateSubscriber]
    exact h.indexed.topics topicId, h.indexed.order⟩
  descending := h.descending
  publishers := h.publishers
  subscribers entry hentry k hk := by
    have hlt := h.subscriber_lt hentry hk
    simp only [Node.updateSubscriber, getElem?_modify_ne f (show k ≠ ns by omega)]
    exact h.subscribers entry hentry k hk

theorem addPublisher {p : Publisher} (h : Charted start np ns n)
    (hp : n.publishers[np]? = some p) :
    Charted start (np + 1) ns (updatePrio p.topicPriority (TopicInfo.withPublisher np)
      (updateTopic p.topicId (TopicInfo.withPublisher np) n)) where
  blueprint := h.blueprint
  indexed := h.indexed.addPublisher hp p.topicPriority
  descending := descending_insertByPrio h.descending
  publishers entry hentry k hk := by
    have hown : n.publishers[np]?.map Publisher.topicPriority = some p.topicPriority := by
      rw [hp, Option.map_some]
    rcases mem_insertByPrio hentry with hentry | ⟨info, hinfo, rfl⟩
    · exact h.publishers entry hentry k hk
    · rcases List.mem_append.mp hk with hk | hk
      · rcases hinfo with rfl | hinfo
        · cases hk
        · exact h.publishers _ hinfo k hk
      · rw [List.mem_singleton.mp hk]
        exact hown
  subscribers entry hentry k hk := by
    rcases mem_insertByPrio hentry with hentry | ⟨info, hinfo, rfl⟩
    · exact h.subscribers entry hentry k hk
    · rcases hinfo with rfl | hinfo
      · cases hk
      · exact h.subscribers _ hinfo k hk

theorem addSubscriber {s : Subscriber} (h : Charted start np ns n)
    (hs : n.subscribers[ns]? = some s) :
    Charted start np (ns + 1) (updatePrio s.topicPriority (TopicInfo.withSubscriber ns)
      (updateTopic s.topicId (TopicInfo.withSubscriber ns) n)) where
  blueprint := h.blueprint
  indexed := h.indexed.addSubscriber hs s.topicPriority
  descending := descending_insertByPrio h.descending
  publishers entry hentry k hk := by
    rcases mem_insertByPrio hentry with hentry | ⟨info, hinfo, rfl⟩
    · exact h.publishers entry hentry k hk
    · rcases hinfo with rfl | hinfo
      · cases hk
      · exact h.publishers _ hinfo k hk
  subscribers entry hentry k hk := by
    have hown : n.subscribers[ns]?.map Subscriber.topicPriority = some s.topicPriority := by
      rw [hs, Option.map_some]
    rcases mem_insertByPrio hentry with hentry | ⟨info, hinfo, rfl⟩
    · exact h.subscribers entry hentry k hk
    · rcases List.mem_append.mp hk with hk | hk
      · rcases hinfo with rfl | hinfo
        · cases hk
        · exact h.subscribers _ hinfo k hk
      · rw [List.mem_singleton.mp hk]
        exact hown

theorem registerPublisher {p : Publisher} (h : Charted start np ns n)
    (hp : start.publishers[np]? = some p)
    (hreturn : (registerPublisher np p n).Returns (Calls text) n' true) :
    Charted start (np + 1) ns n' := by
  obtain ⟨n₁, type, htype, hrest⟩ := Program.returns_bind.mp hreturn
  have h₁ := h.idled (returns_registerMessageType htype)
  cases type with
  | none => cases hrest.2
  | some messageTypeId =>
    obtain ⟨_, _, ⟨rfl, rfl⟩, hrest⟩ := Program.returns_bind.mp hrest
    have h₂ := h₁.updatePublisher (f := (·.setMessageTypeId messageTypeId)) (fun _ => rfl)
      fun _ => rfl
    obtain ⟨n₃, topic, htopic, hrest⟩ := Program.returns_bind.mp hrest
    have h₃ := h₂.idled (returns_registerTopic htopic)
    cases topic with
    | none => cases hrest.2
    | some topic =>
      obtain ⟨topicId, actual⟩ := topic
      obtain ⟨_, _, ⟨rfl, rfl⟩, hrest⟩ := Program.returns_bind.mp hrest
      have h₄ := h₃.updatePublisher (f := (·.setTopicId topicId)) (fun _ => rfl) fun _ => rfl
      obtain ⟨n₅, ok, hadd, hrest⟩ := Program.returns_bind.mp hrest
      cases ok with
      | false => cases hrest.2
      | true =>
        have hidled := returns_addEndpoint hadd
        have h₅ := h₄.idled hidled
        obtain ⟨c, buffer, rfl⟩ := hidled
        obtain ⟨q, hq, hqp⟩ := publisherAt_of_blueprint h₃.blueprint hp
        have hprio : (q.setTopicId topicId).topicPriority = p.topicPriority := by
          simp only [Publisher.blueprint, Publisher.setTopicId, Publisher.setMessageTypeId,
            Publisher.mk.injEq] at hqp
          exact hqp.2.2.2.1
        have hget : (n₃.updatePublisher np (·.setTopicId topicId)).publishers[np]? =
            some (q.setTopicId topicId) := by
          simp [Node.updatePublisher, hq]
        have hdone := h₅.addPublisher hget
        rw [hprio] at hdone
        obtain ⟨_, _, ⟨rfl, rfl⟩, hrest⟩ := Program.returns_bind.mp hrest
        obtain ⟨_, _, ⟨rfl, rfl⟩, rfl, _⟩ := Program.returns_bind.mp hrest
        exact hdone

theorem registerSubscriber {s : Subscriber} (h : Charted start np ns n)
    (hs : start.subscribers[ns]? = some s)
    (hreturn : (registerSubscriber ns s n).Returns (Calls text) n' true) :
    Charted start np (ns + 1) n' := by
  obtain ⟨n₁, type, htype, hrest⟩ := Program.returns_bind.mp hreturn
  have h₁ := h.idled (returns_registerMessageType htype)
  cases type with
  | none => cases hrest.2
  | some messageTypeId =>
    obtain ⟨_, _, ⟨rfl, rfl⟩, hrest⟩ := Program.returns_bind.mp hrest
    have h₂ := h₁.updateSubscriber (f := (·.setMessageTypeId messageTypeId)) fun _ => rfl
    obtain ⟨n₃, topic, htopic, hrest⟩ := Program.returns_bind.mp hrest
    have h₃ := h₂.idled (returns_registerTopic htopic)
    cases topic with
    | none => cases hrest.2
    | some topic =>
      obtain ⟨topicId, actual⟩ := topic
      obtain ⟨_, _, ⟨rfl, rfl⟩, hrest⟩ := Program.returns_bind.mp hrest
      have h₄ := h₃.updateSubscriber
        (f := fun s => (s.setTopicId topicId).setTopicPriority actual) fun _ => rfl
      obtain ⟨n₅, ok, hadd, hrest⟩ := Program.returns_bind.mp hrest
      cases ok with
      | false => cases hrest.2
      | true =>
        have hidled := returns_addEndpoint hadd
        have h₅ := h₄.idled hidled
        obtain ⟨c, buffer, rfl⟩ := hidled
        obtain ⟨q, hq, _⟩ := subscriberAt_of_blueprint h₃.blueprint hs
        have hget : (n₃.updateSubscriber ns fun s =>
              (s.setTopicId topicId).setTopicPriority actual).subscribers[ns]? =
            some ((q.setTopicId topicId).setTopicPriority actual) := by
          simp [Node.updateSubscriber, hq]
        have hdone := h₅.addSubscriber hget
        obtain ⟨_, _, ⟨rfl, rfl⟩, hrest⟩ := Program.returns_bind.mp hrest
        obtain ⟨_, _, ⟨rfl, rfl⟩, rfl, _⟩ := Program.returns_bind.mp hrest
        exact hdone

end Charted

/-- A registration loop that returns true has taken every endpoint from one stage to the next. -/
theorem returns_registerEach {α : Type} {register : ℕ → α → NodeM Bool} {P : ℕ → Node → Prop}
    (es : List α)
    (hstep : ∀ k e n n', es[k]? = some e → P k n →
      (register k e n).Returns (Calls text) n' true → P (k + 1) n')
    (rest : List α) (k : ℕ) (hrest : es.drop k = rest) (hk : k ≤ es.length) (hn : P k n)
    (h : (registerEach register k rest n).Returns (Calls text) n' true) : P es.length n' := by
  induction rest generalizing k n with
  | nil =>
    have hlen : k = es.length := by
      have hdrop := congrArg List.length hrest
      simp only [List.length_drop, List.length_nil] at hdrop
      omega
    exact hlen ▸ h.1 ▸ hn
  | cons e rest ih =>
    have hget : es[k]? = some e := by
      rw [← List.head?_drop, hrest, List.head?_cons]
    have hlt := (List.getElem?_eq_some_iff.mp hget).1
    obtain ⟨n₁, ok, hfirst, hothers⟩ := Program.returns_bind.mp h
    cases ok with
    | false => cases hothers.2
    | true =>
      refine ih (k + 1) ?_ hlt (hstep k e n n₁ hget hn hfirst) hothers
      rw [← List.drop_drop, hrest, List.drop_one, List.tail_cons]

theorem returns_registerNode (h : (registerNode n).Returns (Calls text) n' true) :
    ∃ nodeId bpCounter buffer, n' = { n with nodeId, bpCounter, buffer } := by
  obtain ⟨_, _, ⟨rfl, rfl⟩, h⟩ := Program.returns_bind.mp h
  obtain ⟨n₁, d, ⟨n₂, d', hcall, rfl, rfl⟩, hrest⟩ := Program.returns_bind.mp h
  obtain ⟨c, buffer, rfl⟩ := hcall.idled
  obtain ⟨n₃, ok, hok, hrest⟩ := Program.returns_bind.mp hrest
  cases ok with
  | false => cases hrest.2
  | true =>
    obtain ⟨n₄, id, hid, hrest⟩ := Program.returns_bind.mp hrest
    obtain ⟨_, _, ⟨rfl, rfl⟩, hend⟩ := Program.returns_bind.mp hrest
    rw [← returns_fieldUInt32 hid, ← returns_succeeded hok] at hend
    exact ⟨id, c, buffer, hend.1.symm⟩

/-- Whoever answered, a `connect` that returns true leaves every endpoint in the maps. -/
theorem charted_of_connectsTo {start : Node} (h : ConnectsTo text start n) :
    Charted start n.publishers.length n.subscribers.length n := by
  obtain ⟨hcreated, hreturn⟩ := h
  obtain ⟨n₁, ok, hregister, hrest⟩ := Program.returns_bind.mp hreturn
  cases ok with
  | false => cases hrest.2
  | true =>
    obtain ⟨nodeId, c, buffer, rfl⟩ := returns_registerNode hregister
    have hempty := topicsByPrio_of_created hcreated
    have hindexed := indexed_of_created hcreated
    have hfirst : Charted start 0 0 { start with nodeId, bpCounter := c, buffer } := by
      refine ⟨rfl, ⟨hindexed.topics, hindexed.order⟩, ?_, ?_, ?_⟩
      · simp only [hempty]
        exact List.Pairwise.nil
      · simp only [hempty]
        exact fun entry hentry => by cases hentry
      · simp only [hempty]
        exact fun entry hentry => by cases hentry
    obtain ⟨_, _, ⟨rfl, rfl⟩, hrest⟩ := Program.returns_bind.mp hrest
    obtain ⟨n₂, ok, hpublishers, hrest⟩ := Program.returns_bind.mp hrest
    cases ok with
    | false => cases hrest.2
    | true =>
      have hsecond := returns_registerEach (P := fun k m => Charted start k 0 m) start.publishers
        (fun k p m m' hp hm hreturn => hm.registerPublisher hp hreturn) start.publishers 0 rfl
        (Nat.zero_le _) hfirst hpublishers
      have hlast := returns_registerEach
        (P := fun k m => Charted start start.publishers.length k m) start.subscribers
        (fun k s m m' hs hm hreturn => hm.registerSubscriber hs hreturn) start.subscribers 0 rfl
        (Nat.zero_le _) hsecond hrest
      obtain ⟨hp, hs⟩ := lengths_of_blueprint hlast.blueprint
      rwa [hp, hs]

/-! ## Nodes in use -/

theorem config_of_used {start : Node} (h : Used text start n) :
    ∃ n₀, ConnectsTo text start n₀ ∧ n.config = n₀.config := by
  induction h with
  | connected h => exact ⟨_, h, rfl⟩
  | publish k data _ ih =>
    obtain ⟨n₀, hn₀, hconfig⟩ := ih
    exact ⟨n₀, hn₀, (Does.publish k data).config.trans hconfig⟩
  | spinOnce _ hout ih =>
    obtain ⟨n₀, hn₀, hconfig⟩ := ih
    exact ⟨n₀, hn₀, (spinOnce_performs hout).config.trans hconfig⟩
  | threw _ _ ih =>
    obtain ⟨n₀, hn₀, hconfig⟩ := ih
    exact ⟨n₀, hn₀, hconfig⟩

theorem indexed_of_config {np ns : ℕ} (h : n'.config = n.config) (hn : n.Indexed np ns) :
    n'.Indexed np ns := by
  have htopics : n'.topics = n.topics := congrArg NodeConfig.topics h
  have hprio : n'.topicsByPrio = n.topicsByPrio := congrArg NodeConfig.topicsByPrio h
  have hpublishers : n'.publishers.map Publisher.topicId = n.publishers.map Publisher.topicId := by
    have hinfo := congrArg (fun c => c.publishers.map PublisherInfo.topicId) h
    simpa [Node.config, Function.comp_def, Publisher.info] using hinfo
  have hsubscribers : n'.subscribers.map Subscriber.topicId =
      n.subscribers.map Subscriber.topicId := by
    have hinfo := congrArg (fun c => c.subscribers.map SubscriberInfo.topicId) h
    simpa [Node.config, Function.comp_def, Subscriber.info] using hinfo
  refine ⟨fun topicId => ?_, hprio ▸ hn.order⟩
  rw [htopics, hn.topics]
  simp only [publisherPositions, subscriberPositions, ← List.getElem?_map, hpublishers,
    hsubscribers]

/-- A node in use lists each endpoint once by topic and once by priority, highest first. -/
theorem indexed_of_used {start : Node} (h : Used text start n) :
    n.Indexed n.publishers.length n.subscribers.length ∧
      n.topicsByPrio.Pairwise fun a b => b.1 < a.1 := by
  obtain ⟨n₀, hn₀, hconfig⟩ := config_of_used h
  have hcharted := charted_of_connectsTo hn₀
  have hpublishers := congrArg (fun c => c.publishers.length) hconfig
  have hsubscribers := congrArg (fun c => c.subscribers.length) hconfig
  simp only [Node.config, List.length_map] at hpublishers hsubscribers
  rw [hpublishers, hsubscribers, show n.topicsByPrio = n₀.topicsByPrio from
    congrArg NodeConfig.topicsByPrio hconfig]
  exact ⟨indexed_of_config hconfig hcharted.indexed, hcharted.descending⟩

theorem subscriber_mem_visitOrder {np ns k : ℕ} (h : n.Indexed np ns) :
    .subscriber k ∈ n.visitOrder ↔ k < ns := by
  refine h.order.mem_iff.trans ?_
  simp

theorem publisher_mem_visitOrder {np ns k : ℕ} (h : n.Indexed np ns) :
    .publisher k ∈ n.visitOrder ↔ k < np := by
  refine h.order.mem_iff.trans ?_
  simp

theorem capacities_of_created {start : Node} (h : Created start) :
    (∀ p ∈ start.publishers, p.messageQueue.queueCapacity = messageQueueCapacity) ∧
      ∀ s ∈ start.subscribers, s.messageQueue.queueCapacity = messageQueueCapacity := by
  induction h with
  | create =>
    constructor
    · intro p hp
      cases hp
    · intro s hs
      cases hs
  | publisher topicName typeName messageSize topicPriority _ ih =>
    refine ⟨fun p hp => ?_, ih.2⟩
    rcases List.mem_append.mp hp with hp | hp
    · exact ih.1 p hp
    · rw [List.mem_singleton.mp hp]
      rfl
  | subscriber topicName typeName messageSize topicPriority _ ih =>
    refine ⟨ih.1, fun s hs => ?_⟩
    rcases List.mem_append.mp hs with hs | hs
    · exact ih.2 s hs
    · rw [List.mem_singleton.mp hs]
      rfl

theorem capacities_of_blueprint {start : Node} (h : n.blueprint = start.blueprint) :
    n.capacities = start.capacities := by
  have hpublishers := congrArg (fun b : String × List Publisher × List Subscriber =>
    b.2.1.map fun p => p.messageQueue.queueCapacity) h
  have hsubscribers := congrArg (fun b : String × List Publisher × List Subscriber =>
    b.2.2.map fun s => s.messageQueue.queueCapacity) h
  simp only [blueprint, List.map_map] at hpublishers hsubscribers
  exact Prod.ext hpublishers hsubscribers

theorem capacities_of_eq {start : Node} (hcreated : Created start)
    (h : n.capacities = start.capacities) :
    (∀ p ∈ n.publishers, p.messageQueue.queueCapacity = messageQueueCapacity) ∧
      ∀ s ∈ n.subscribers, s.messageQueue.queueCapacity = messageQueueCapacity := by
  obtain ⟨hpublishers, hsubscribers⟩ := capacities_of_created hcreated
  constructor
  · intro p hp
    have hmem : p.messageQueue.queueCapacity ∈ n.capacities.1 :=
      List.mem_map_of_mem (f := fun p : Publisher => p.messageQueue.queueCapacity) hp
    rw [h] at hmem
    obtain ⟨p₀, hp₀, hcapacity⟩ := List.mem_map.mp hmem
    exact hcapacity ▸ hpublishers p₀ hp₀
  · intro s hs
    have hmem : s.messageQueue.queueCapacity ∈ n.capacities.2 :=
      List.mem_map_of_mem (f := fun s : Subscriber => s.messageQueue.queueCapacity) hs
    rw [h] at hmem
    obtain ⟨s₀, hs₀, hcapacity⟩ := List.mem_map.mp hmem
    exact hcapacity ▸ hsubscribers s₀ hs₀

theorem returns_of_sessionOver {α : Type} {script : Script}
    {m : Session Node Json Json Fault α} {x z : Waiting} {a : α}
    (h : sessionOver text script m x = .ok (n, a, z)) : m.Returns (Calls text) n a := by
  induction m generalizing x with
  | ret n₀ a₀ =>
    cases h
    exact ⟨rfl, rfl⟩
  | throw e => cases h
  | call n₀ request resume ih =>
    rw [sessionOver] at h
    cases hrpc : rpcOver text script n₀ x request with
    | error fault =>
      rw [hrpc] at h
      cases h
    | ok got =>
      obtain ⟨n₁, x₁, response⟩ := got
      rw [hrpc] at h
      refine ⟨n₁, response, ?_, ih n₁ response h⟩
      simp only [rpcOver] at hrpc
      split at hrpc
      · cases hrpc
        exact ⟨false, .failed, rfl⟩
      · rename_i d rest _
        cases hcall : n₀.brokerRpcBlocking text request true (.datagram d) with
        | error fault =>
          rw [hcall] at hrpc
          cases hrpc
        | ok answered =>
          rw [hcall] at hrpc
          cases hrpc
          exact ⟨true, .datagram d, hcall⟩

def grantingScript : Script := { liveScript with data := fun _ => [] }

theorem grantingScript_sound : Script.Sound compactJson grantingScript where
  data k d hd := by cases hd
  answer := liveScript_sound.answer
  size := liveScript_sound.size

theorem exists_connectsTo {start : Node} (h : Created start) :
    ∃ n, ConnectsTo compactJson start n := by
  obtain ⟨n, ok, z, hrun, hiff⟩ := connect_ends grantingScript_sound start
  have hok : ok = true := hiff.mpr fun _ _ => rfl
  subst hok
  exact ⟨n, h, returns_of_sessionOver hrun⟩

end Node
end Crps
