import Crps.Node.Priority
import Crps.System.Agreement
import Crps.System.Solo

/-!
# The node's indexes and the broker's priorities

A connected node keeps its endpoints in two maps, and the broker a priority for
every topic. A subscriber is entered under the priority the broker answered
with. A publisher is entered under the priority it was created with, and that
is the broker's exactly if the choice was not left to the broker.
-/

namespace Crps
namespace Node

/-- The name of an endpoint's topic. -/
def topicName (n : Node) : Endpoint → Option String
  | .publisher k => n.publishers[k]?.map Publisher.topicName
  | .subscriber k => n.subscribers[k]?.map Subscriber.topicName

/-- The priority the broker stores for the topic of an endpoint. -/
def brokerPriority (n : Node) (t : Tables) (e : Endpoint) : Option TopicPriority :=
  (n.topicName e).bind t.priorityOf

/-- Every endpoint is once in `m_topics`, under its topic id, and once in `m_topics_by_prio`,
under the broker's priority. -/
structure IndexesAgree (n : Node) (t : Tables) : Prop where
  indexed : n.Indexed n.publishers.length n.subscribers.length
  priority : ∀ e p, n.RegisteredAt e p → n.brokerPriority t e = some p
  oneBucket : ∀ e f p q, n.topicName e = n.topicName f → n.RegisteredAt e p →
    n.RegisteredAt f q → p = q
  decreasing : n.visitOrder.Pairwise fun e f => ∀ p q, n.brokerPriority t e = some p →
    n.brokerPriority t f = some q → q ≤ p

variable {n n' start : Node} {t : Tables}

theorem topicName_of_config (h : n'.config = n.config) (e : Endpoint) :
    n'.topicName e = n.topicName e := by
  cases e with
  | publisher k =>
    have hinfo := congrArg (fun c => c.publishers[k]?.map PublisherInfo.topicName) h
    simpa [Node.config, Function.comp_def, Publisher.info, topicName] using hinfo
  | subscriber k =>
    have hinfo := congrArg (fun c => c.subscribers[k]?.map SubscriberInfo.topicName) h
    simpa [Node.config, Function.comp_def, Subscriber.info, topicName] using hinfo

theorem topicName_of_blueprint (h : n.blueprint = start.blueprint) (e : Endpoint) :
    n.topicName e = start.topicName e := by
  cases e with
  | publisher k =>
    have hname := congrArg (fun b => b.2.1[k]?.map Publisher.topicName) h
    simpa [Node.blueprint, Function.comp_def, Publisher.blueprint, Publisher.setTopicId,
      Publisher.setMessageTypeId, topicName] using hname
  | subscriber k =>
    have hname := congrArg (fun b => b.2.2[k]?.map Subscriber.topicName) h
    simpa [Node.blueprint, Function.comp_def, Subscriber.blueprint, Subscriber.setTopicId,
      Subscriber.setMessageTypeId, Subscriber.setTopicPriority, topicName] using hname

theorem registeredAt_publisher {k : ℕ} {p : TopicPriority} :
    n.RegisteredAt (.publisher k) p ↔ ∃ info, (p, info) ∈ n.topicsByPrio ∧ k ∈ info.publishers := by
  simp only [RegisteredAt, List.mem_append, List.mem_map, reduceCtorEq, and_false, exists_false,
    Endpoint.publisher.injEq, exists_eq_right, false_or, Prod.exists]
  constructor
  · rintro ⟨q, info, hmem, rfl, hk⟩
    exact ⟨info, hmem, hk⟩
  · rintro ⟨info, hmem, hk⟩
    exact ⟨p, info, hmem, rfl, hk⟩

theorem registeredAt_subscriber {k : ℕ} {p : TopicPriority} :
    n.RegisteredAt (.subscriber k) p ↔
      ∃ info, (p, info) ∈ n.topicsByPrio ∧ k ∈ info.subscribers := by
  simp only [RegisteredAt, List.mem_append, List.mem_map, reduceCtorEq, and_false, exists_false,
    Endpoint.subscriber.injEq, exists_eq_right, or_false, Prod.exists]
  constructor
  · rintro ⟨q, info, hmem, rfl, hk⟩
    exact ⟨info, hmem, hk⟩
  · rintro ⟨info, hmem, hk⟩
    exact ⟨p, info, hmem, rfl, hk⟩

theorem indexesAgree_of_priority (hindexed : n.Indexed n.publishers.length n.subscribers.length)
    (hdescending : n.topicsByPrio.Pairwise fun a b => b.1 < a.1)
    (hpriority : ∀ e p, n.RegisteredAt e p → n.brokerPriority t e = some p) :
    n.IndexesAgree t where
  indexed := hindexed
  priority := hpriority
  oneBucket e f p q hname he hf := by
    have hp := hpriority e p he
    rw [brokerPriority, hname] at hp
    exact Option.some.inj (hp.symm.trans (hpriority f q hf))
  decreasing := by
    rw [← map_snd_ranked, List.pairwise_map]
    refine (ranked_pairwise hdescending).imp_of_mem ?_
    intro a b ha hb hab p q hp hq
    have ha' := hpriority a.2 a.1 (mem_ranked.mp ha)
    have hb' := hpriority b.2 b.1 (mem_ranked.mp hb)
    obtain rfl : a.1 = p := Option.some.inj (ha'.symm.trans hp)
    obtain rfl : b.1 = q := Option.some.inj (hb'.symm.trans hq)
    rcases hab with hless | ⟨hsame, _⟩
    · exact Int8.le_of_lt hless
    · rw [hsame]
      exact Int8.le_refl _

section Registered

variable {client : String} {r : Registry} {n₁ : Node}

/-- A registered endpoint stands under the broker's priority, but for the publishers that left
it open. -/
theorem brokerPriority_of_ranked (hranked : Ranked start r.tables n.topicsByPrio)
    (hname : ∀ e, n.topicName e = start.topicName e)
    (hexplicit : ∀ p ∈ start.publishers, p.topicPriority ≠ dontcareTopicPriority)
    (e : Endpoint) (p : TopicPriority) (he : n.RegisteredAt e p) :
    n.brokerPriority r.tables e = some p := by
  rw [brokerPriority, hname]
  cases e with
  | publisher k =>
    obtain ⟨info, hentry, hk⟩ := registeredAt_publisher.mp he
    obtain ⟨q, actual, hq, hprio, hranks, hactual⟩ := hranked.publishers _ hentry k hk
    have hasked := hexplicit q (List.mem_of_getElem? hq)
    rw [hprio] at hasked
    obtain rfl : p = actual := hactual.resolve_left hasked
    simp only [topicName, hq, Option.map_some, Option.bind_some]
    exact Tables.priorityOf_of_ranks r.names hranks
  | subscriber k =>
    obtain ⟨info, hentry, hk⟩ := registeredAt_subscriber.mp he
    obtain ⟨q, hq, hranks⟩ := hranked.subscribers _ hentry k hk
    simp only [topicName, hq, Option.map_some, Option.bind_some]
    exact Tables.priorityOf_of_ranks r.names hranks

theorem explicit_of_priority (hranked : Ranked start r.tables n.topicsByPrio)
    (hname : ∀ e, n.topicName e = start.topicName e)
    (hregistered : ∀ k < start.publishers.length, ∃ p, n.RegisteredAt (.publisher k) p)
    (hpriority : ∀ e p, n.RegisteredAt e p → n.brokerPriority r.tables e = some p) :
    ∀ p ∈ start.publishers, p.topicPriority ≠ dontcareTopicPriority := by
  intro p hp hopen
  obtain ⟨k, hk⟩ := List.getElem?_of_mem hp
  obtain ⟨q, he⟩ := hregistered k (List.getElem?_eq_some_iff.mp hk).1
  obtain ⟨info, hentry, hmem⟩ := registeredAt_publisher.mp he
  obtain ⟨p', actual, hp', hprio, hranks, _⟩ := hranked.publishers _ hentry k hmem
  rw [hk] at hp'
  injection hp' with hp'
  subst hp'
  have hstored := hpriority _ _ he
  rw [brokerPriority, hname] at hstored
  simp only [topicName, hk, Option.map_some, Option.bind_some,
    Tables.priorityOf_of_ranks r.names hranks, Option.some.injEq] at hstored
  obtain ⟨topic, htopic, _, htopicPrio⟩ := hranks
  refine r.explicit topic htopic ?_
  rw [htopicPrio, hstored]
  exact hprio.symm.trans hopen

end Registered
end Node

namespace System

variable {ι : Type} [DecidableEq ι] {net : Deployment ι} {nodes : ι → Node} {s : System ι} {i : ι}

/-- What a connected node's maps say, in every state a run can reach. -/
theorem ranked_of_connected (hnodes : ∀ i, Node.Created (nodes i)) {as : List (Action ι)}
    (hrun : (initial nodes).run net as = some s) (hphase : s.phase i = .connected) :
    ∃ r : Registry, r.tables = s.broker.tables ∧
      (s.node i).Indexed (s.node i).publishers.length (s.node i).subscribers.length ∧
      Node.Ranked (nodes i) r.tables (s.node i).topicsByPrio ∧
      (s.node i).publishers.length = (nodes i).publishers.length ∧
      ∀ e, (s.node i).topicName e = (nodes i).topicName e := by
  obtain ⟨r, horderly, _⟩ := run_orderly hnodes (orderly_initial net nodes) hrun
  have hi := horderly.dealings i
  rw [hphase] at hi
  cases hi with
  | connected _ _ hregistered hconfig =>
    have hpublishers := congrArg (fun c => c.publishers.length) hconfig
    have hsubscribers := congrArg (fun c => c.subscribers.length) hconfig
    simp only [Node.config, List.length_map] at hpublishers hsubscribers
    refine ⟨r, horderly.tables, ?_, ?_, ?_, fun e => ?_⟩
    · rw [hpublishers, hsubscribers]
      exact Node.indexed_of_config hconfig hregistered.indexed
    · rw [show (s.node i).topicsByPrio = _ from congrArg NodeConfig.topicsByPrio hconfig]
      exact hregistered.ranked
    · rw [hpublishers]
      exact (Node.lengths_of_blueprint hregistered.blueprint).1
    · rw [Node.topicName_of_config hconfig, Node.topicName_of_blueprint hregistered.blueprint]

theorem explicit_of_indexesAgree (hnodes : ∀ i, Node.Created (nodes i)) {as : List (Action ι)}
    (hrun : (initial nodes).run net as = some s) (hphase : s.phase i = .connected)
    (hagree : (s.node i).IndexesAgree s.broker.tables) :
    ∀ p ∈ (nodes i).publishers, p.topicPriority ≠ dontcareTopicPriority := by
  obtain ⟨r, htables, hindexed, hranked, hlength, hname⟩ := ranked_of_connected hnodes hrun hphase
  rw [← htables] at hagree
  refine Node.explicit_of_priority hranked hname (fun k hk => ?_) hagree.priority
  refine Node.mem_visitOrder.mp (hindexed.order.mem_iff.mpr (List.mem_append_left _ ?_))
  exact List.mem_map_of_mem (List.mem_range.mpr (hlength ▸ hk))

/-- Whatever the other nodes do, a connected node's indexes agree with the broker's priorities
exactly if none of its publishers was created with the don't-care priority. -/
theorem connected_indexesAgree_iff (hnodes : ∀ i, Node.Created (nodes i)) {as : List (Action ι)}
    (hrun : (initial nodes).run net as = some s) (hphase : s.phase i = .connected) :
    (s.node i).IndexesAgree s.broker.tables ↔
      ∀ p ∈ (nodes i).publishers, p.topicPriority ≠ dontcareTopicPriority := by
  constructor
  · intro hagree
    exact explicit_of_indexesAgree hnodes hrun hphase hagree
  · intro hexplicit
    obtain ⟨r, htables, hindexed, hranked, _, hname⟩ := ranked_of_connected hnodes hrun hphase
    rw [← htables]
    exact Node.indexesAgree_of_priority hindexed hranked.descending
      (Node.brokerPriority_of_ranked hranked hname hexplicit)

/-- Two clients of one broker. -/
def pairDeployment : Deployment Bool where
  text := compactJson
  address second := if second then "b" else "a"
  address_injective := by decide

/-- Two publishers of one topic, the second of which leaves the priority to the broker. -/
def posePublishers (second : Bool) : Node :=
  (Node.create (if second then "echo" else "source")).createPublisher "pose" "pose_t" 1
    (if second then dontcareTopicPriority else 5)

theorem posePublishers_created (i : Bool) : Node.Created (posePublishers i) :=
  .publisher _ _ _ _ (.create _)

/-- The tables once the source has connected, and once the echo has. -/
def sourceTables : Tables where
  nodes := [⟨"source", "a"⟩]
  messageTypes := [⟨"pose_t", 1⟩]
  topics := [⟨"pose", 0, 5, [0], []⟩]

def poseTables : Tables where
  nodes := [⟨"source", "a"⟩, ⟨"echo", "b"⟩]
  messageTypes := [⟨"pose_t", 1⟩]
  topics := [⟨"pose", 0, 5, [0, 1], []⟩]

theorem posePublishers_shortNames (i : Bool) : (posePublishers i).ShortNames := by
  cases i <;> decide

theorem exists_source_connected : ∃ as s,
    (initial posePublishers).run pairDeployment as = some s ∧ s.phase false = .connected ∧
      s.node true = posePublishers true ∧ s.Unheard pairDeployment true ∧
      s.broker.tables = sourceTables := by
  obtain ⟨as, s, hrun, _, hconverses, hphase, htables⟩ := @exists_connected _ _ pairDeployment
    false (initial posePublishers) sourceTables rfl (unheard_initial posePublishers)
    (posePublishers_shortNames false) (by decide)
  exact ⟨as, s, hrun, hphase, hconverses.node true (by decide),
    (unheard_initial posePublishers).converses (by decide) hconverses, htables⟩

theorem exists_both_connected {nodes : Bool → Node} {u t : Tables}
    (hnames : ∀ i, (nodes i).ShortNames)
    (h₀ : ({} : Tables).registerAll "a" (nodes false) = some u)
    (h : u.registerAll "b" (nodes true) = some t) :
    ∃ as s, (∀ a ∈ as, a.IsHandshake) ∧ (initial nodes).run pairDeployment as = some s ∧
      (∀ i, s.phase i = .connected) ∧ s.brokerRunning = true ∧ s.broker.tables = t := by
  obtain ⟨as, s, hrun, hactions, hconverses, hphase, htables⟩ := @exists_connected _ _
    pairDeployment false (initial nodes) u rfl (unheard_initial nodes) (hnames false) h₀
  have hnode : s.node true = nodes true := hconverses.node true (by decide)
  obtain ⟨bs, s', hrun', hactions', hconverses', hphase', htables'⟩ := @exists_connected _ _
    pairDeployment true s t rfl ((unheard_initial nodes).converses (by decide) hconverses)
    (hnode ▸ hnames true) (by rw [hnode, htables]; exact h)
  refine ⟨as ++ bs, s', List.forall_mem_append.mpr ⟨hactions, hactions'⟩, ?_, fun i => ?_,
    hconverses'.running, htables'⟩
  · exact run_trans hrun hrun'
  · cases i with
    | false => exact (hconverses'.phase false (by decide)).trans hphase
    | true => exact hphase'

theorem exists_echo_connected : ∃ as s,
    (initial posePublishers).run pairDeployment as = some s ∧ s.phase true = .connected := by
  obtain ⟨as, s, _, hrun, hphase, _⟩ := exists_both_connected (u := sourceTables)
    (t := poseTables) posePublishers_shortNames (by decide) (by decide)
  exact ⟨as, s, hrun, hphase true⟩

/-- The source knows what it wants. -/
theorem connected_indexesAgree_source : ∃ as s,
    (initial posePublishers).run pairDeployment as = some s ∧ s.phase false = .connected ∧
      (s.node false).IndexesAgree s.broker.tables := by
  obtain ⟨as, s, hrun, hphase, _⟩ := exists_source_connected
  refine ⟨as, s, hrun, hphase, (connected_indexesAgree_iff posePublishers_created hrun hphase).mpr
    fun p hp => ?_⟩
  rw [List.mem_singleton.mp hp]
  decide

/-- The echo enters its topic under the don't-care priority, the broker has it under 5. -/
theorem connected_indexesAgree_fails :
    ¬ ∀ (as : List (Action Bool)) (s : System Bool) (i : Bool),
      (initial posePublishers).run pairDeployment as = some s → s.phase i = .connected →
        (s.node i).IndexesAgree s.broker.tables := by
  intro hall
  obtain ⟨as, s, hrun, hphase⟩ := exists_echo_connected
  have hexplicit := explicit_of_indexesAgree posePublishers_created hrun hphase
    (hall as s true hrun hphase)
  exact hexplicit _ List.mem_cons_self rfl

end System
end Crps
