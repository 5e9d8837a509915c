import Crps.Broker.Overflow
import Crps.Network.Addresses
import Crps.System.Priorities

/-!
# What `connect` has settled

Once `connect` has returned true, the broker has the node, its topics and its
message types on record under the ids the node goes by, and neither the node
nor anybody else changes that. Ids are 32-bit positions, so this holds as long
as there is an id for every entry.
-/

namespace Crps

namespace Node

/-- What an endpoint was given by the broker. -/
def boundTopics (n : Node) : List BoundTopic :=
  n.publishers.map Publisher.boundTopic ++ n.subscribers.map Subscriber.boundTopic

variable {n n' : Node}

theorem boundTopics_of_config (h : n'.config = n.config) : n'.boundTopics = n.boundTopics := by
  have hpublishers := congrArg (fun c => c.publishers.map fun info => (⟨info.topicName,
    info.messageTypeName, info.messageSize, info.topicId, info.messageTypeId⟩ : BoundTopic)) h
  have hsubscribers := congrArg (fun c => c.subscribers.map fun info => (⟨info.topicName,
    info.messageTypeName, info.messageSize, info.topicId, info.messageTypeId⟩ : BoundTopic)) h
  simp only [config, List.map_map] at hpublishers hsubscribers
  exact congrArg₂ (· ++ ·) hpublishers hsubscribers

theorem topicIds_of_config (h : n'.config = n.config) :
    n'.publishers.map Publisher.topicId = n.publishers.map Publisher.topicId ∧
      n'.subscribers.map Subscriber.topicId = n.subscribers.map Subscriber.topicId := by
  have hpublishers := congrArg (fun c => c.publishers.map PublisherInfo.topicId) h
  have hsubscribers := congrArg (fun c => c.subscribers.map SubscriberInfo.topicId) h
  simp only [config, List.map_map] at hpublishers hsubscribers
  exact ⟨hpublishers, hsubscribers⟩

end Node

namespace Tables

variable {t : Tables} {client : String} {n n' : Node}

/-- The tables say of the client's node what the node says of itself. -/
structure Confirms (t : Tables) (client : String) (n : Node) : Prop where
  node : t.nodes[n.nodeId.toNat]? = some ⟨n.name, client⟩
  endpoints : ∀ e ∈ n.boundTopics, t.Binds e
  publishers : ∀ topicId, (t.publishersOf topicId).count n.nodeId =
    (n.publishers.map Publisher.topicId).count topicId
  subscribers : ∀ topicId, (t.subscribersOf topicId).count n.nodeId =
    (n.subscribers.map Subscriber.topicId).count topicId

theorem Confirms.of_config (h : t.Confirms client n) (hconfig : n'.config = n.config) :
    t.Confirms client n' := by
  have hid : n'.nodeId = n.nodeId := congrArg NodeConfig.nodeId hconfig
  have hname : n'.name = n.name := congrArg NodeConfig.name hconfig
  obtain ⟨hpublishers, hsubscribers⟩ := Node.topicIds_of_config hconfig
  constructor
  · rw [hid, hname]
    exact h.node
  · rw [Node.boundTopics_of_config hconfig]
    exact h.endpoints
  · rw [hid, hpublishers]
    exact h.publishers
  · rw [hid, hsubscribers]
    exact h.subscribers

theorem Binds.unique {e f : BoundTopic} (he : t.Binds e) (hf : t.Binds f)
    (hid : e.topicId = f.topicId) :
    e.messageTypeId = f.messageTypeId ∧ e.messageSize = f.messageSize := by
  obtain ⟨⟨topic, htopic, _, htype⟩, hmessage⟩ := he
  obtain ⟨⟨topic', htopic', _, htype'⟩, hmessage'⟩ := hf
  rw [hid, htopic', Option.some.injEq] at htopic
  subst htopic
  have hsame : e.messageTypeId = f.messageTypeId := htype.symm.trans htype'
  rw [hsame, hmessage', Option.some.injEq, MessageTypeInfo.mk.injEq] at hmessage
  exact ⟨hsame, hmessage.2.symm⟩

theorem confirms_of_registered {start : Node} {r : Registry} {live : Bool}
    (h : Node.Registered client start n.publishers.length n.subscribers.length n ⟨r, live⟩)
    (hsmall : r.tables.Small) : r.tables.Confirms client n := by
  have hstanding := h.standing hsmall
  have hpublishers := h.publishers hsmall
  have hsubscribers := h.subscribers hsmall
  rw [List.take_length] at hpublishers hsubscribers
  rw [List.take_length, List.take_length] at hstanding
  refine ⟨hstanding.node, fun e he => ?_, hstanding.publishers, hstanding.subscribers⟩
  rcases List.mem_append.mp he with he | he
  · obtain ⟨p, hp, rfl⟩ := List.mem_map.mp he
    exact hpublishers p hp
  · obtain ⟨s, hs, rfl⟩ := List.mem_map.mp he
    exact hsubscribers s hs

end Tables

namespace System

variable {ι : Type} [DecidableEq ι] {net : Deployment ι} {nodes : ι → Node} {s s' : System ι}

/-- What was settled by `connect` in state `s`, seen from the later state `s'`. -/
structure Established (net : Deployment ι) (s s' : System ι) : Prop where
  confirmed : ∀ i, s.phase i = .connected →
    s'.broker.tables.Confirms (net.address i) (s.node i)
  uniform : ∀ i j, s.phase i = .connected → s'.phase j = .connected →
    ∀ e ∈ (s.node i).boundTopics, ∀ f ∈ (s'.node j).boundTopics, e.topicId = f.topicId →
      e.messageTypeId = f.messageTypeId ∧ e.messageSize = f.messageSize
  firstCheck : ∀ i, s.phase i = .connected → ∀ topicId info,
    (s.node i).topics topicId = some info → ∀ a ∈ info.subscribers, ∀ b ∈ info.subscribers,
      ((s.node i).subscribers[a]?).map Subscriber.messageTypeId =
          ((s.node i).subscribers[b]?).map Subscriber.messageTypeId ∧
        ((s.node i).subscribers[a]?).map Subscriber.messageSize =
          ((s.node i).subscribers[b]?).map Subscriber.messageSize

/-- In all later states the tables confirm a node that has once been connected. -/
theorem confirms_of_connected {i : ι} (hnodes : ∀ i, Node.Created (nodes i))
    {as bs : List (Action ι)} (hrun : (initial nodes).run net as = some s)
    (hphase : s.phase i = .connected) (hlater : s.run net bs = some s')
    (hsmall : s'.broker.tables.Small) :
    s'.broker.tables.Confirms (net.address i) (s.node i) := by
  obtain ⟨r, horderly, _⟩ := run_orderly hnodes (orderly_initial net nodes) hrun
  have hsettled : s.Settled i := ⟨.inl hphase, horderly.connected_up hphase⟩
  obtain ⟨r', horderly', hkeeps⟩ := run_orderly hnodes horderly hlater
  have hrelies := (hkeeps.settled i hsettled).1
  have hi := horderly.dealings i
  rw [hphase] at hi
  generalize s.node i = n at hi ⊢
  cases hi with
  | connected _ _ hregistered hconfig =>
    have hstable := hregistered.stable (y := ⟨r', true⟩) ⟨rfl, hrelies⟩
    rw [← horderly'.tables] at hsmall ⊢
    exact (Tables.confirms_of_registered hstable hsmall).of_config hconfig

omit [DecidableEq ι] in
theorem mem_boundTopics_subscriber {n : Node} {k : ℕ} {sub : Subscriber}
    (h : n.subscribers[k]? = some sub) : sub.boundTopic ∈ n.boundTopics :=
  List.mem_append_right _ (List.mem_map_of_mem (List.mem_of_getElem? h))

/-- What `connect` has settled stays so as long as the broker has ids for all its entries. -/
theorem established_of_small (hnodes : ∀ i, Node.Created (nodes i)) {as bs : List (Action ι)}
    (hrun : (initial nodes).run net as = some s) (hlater : s.run net bs = some s')
    (hsmall : s'.broker.tables.Small) : Established net s s' := by
  have hconfirms := fun i (hi : s.phase i = .connected) =>
    confirms_of_connected hnodes hrun hi hlater hsmall
  refine ⟨hconfirms, fun i j hi hj e he f hf hid => ?_,
    fun i hi topicId info htopic a ha b hb => ?_⟩
  · have hrun' : (initial nodes).run net (as ++ bs) = some s' :=
      run_trans hrun hlater
    have hlast : s'.run net [] = some s' := rfl
    have hj' := confirms_of_connected hnodes hrun' hj hlast hsmall
    exact ((hconfirms i hi).endpoints e he).unique (hj'.endpoints f hf) hid
  · obtain ⟨_, _, hindexed, _⟩ := ranked_of_connected hnodes hrun hi
    have hlisted := hindexed.topics topicId
    rw [htopic, Option.getD_some] at hlisted
    have hpositions := congrArg TopicInfo.subscribers hlisted
    simp only at hpositions
    rw [hpositions, Node.subscriberPositions, List.mem_filter, decide_eq_true_iff] at ha hb
    obtain ⟨sub, hsub, htopicId⟩ := Option.map_eq_some_iff.mp ha.2
    obtain ⟨sub', hsub', htopicId'⟩ := Option.map_eq_some_iff.mp hb.2
    have hsame := ((hconfirms i hi).endpoints _ (mem_boundTopics_subscriber hsub)).unique
      ((hconfirms i hi).endpoints _ (mem_boundTopics_subscriber hsub'))
      (htopicId.trans htopicId'.symm)
    rw [hsub, hsub']
    exact ⟨congrArg some hsame.1, congrArg some hsame.2⟩

/-- Two publishers of one topic. -/
theorem established_pair : ∃ as bs s s',
    (initial posePublishers).run pairDeployment as = some s ∧ s.phase false = .connected ∧
      s.run pairDeployment bs = some s' ∧ s'.phase true = .connected ∧
      Established pairDeployment s s' := by
  obtain ⟨as, s, hrun, hphase, hnode, hunheard, htables⟩ := exists_source_connected
  obtain ⟨bs, s', hrun', _, _, hphase', htables'⟩ := @exists_connected _ _ pairDeployment true s
    poseTables rfl hunheard (hnode ▸ posePublishers_shortNames true)
    (by rw [hnode, htables]; decide)
  refine ⟨as, bs, s, s', hrun, hphase, hrun', hphase',
    established_of_small posePublishers_created hrun hrun' ?_⟩
  rw [htables']
  exact ⟨by decide, by decide, by decide⟩

/-! ## More nodes than ids -/

/-- A node for every socket address, named by the address. -/
def hosts (socket : UInt32 × UInt16) : Node :=
  .create (Decimal.text (socket.1.toNat * 2 ^ 16 + socket.2.toNat))

def everyHost : Deployment (UInt32 × UInt16) :=
  .ofEndpoints compactJson dottedDecimal id Function.injective_id

/-- Sockets in the order the nodes connect: the upper half of the ports, host by host. -/
def socket (k : ℕ) : UInt32 × UInt16 :=
  (UInt32.ofNat (k / 2 ^ 15), UInt16.ofNat (2 ^ 15 + k % 2 ^ 15))

theorem socket_toNat {k : ℕ} (hk : k < 2 ^ 32 + 1) :
    (socket k).1.toNat = k / 2 ^ 15 ∧ (socket k).2.toNat = 2 ^ 15 + k % 2 ^ 15 := by
  simp only [socket, UInt32.toNat_ofNat', UInt16.toNat_ofNat']
  omega

theorem socket_injective {j k : ℕ} (hj : j < 2 ^ 32 + 1) (hk : k < 2 ^ 32 + 1)
    (h : socket j = socket k) : j = k := by
  obtain ⟨hhost, hport⟩ := socket_toNat hj
  obtain ⟨hhost', hport'⟩ := socket_toNat hk
  rw [h] at hhost hport
  omega

theorem hosts_shortNames {k : ℕ} (hk : k < 2 ^ 32 + 1) : (hosts (socket k)).ShortNames := by
  obtain ⟨hhost, hport⟩ := socket_toNat hk
  refine ⟨Node.shortName_text ?_, fun p hp => ?_, fun s hs => ?_⟩
  · rw [hhost, hport]
    omega
  · cases hp
  · cases hs

/-- What the broker has on record of the first `n` nodes. -/
def hostNodes (n : ℕ) : List NodeInfo :=
  (List.range n).map fun k => ⟨(hosts (socket k)).name, everyHost.address (socket k)⟩

theorem registerAll_hostNodes {n : ℕ} (hn : n < 2 ^ 32 + 1) :
    (⟨hostNodes n, [], []⟩ : Tables).registerAll (everyHost.address (socket n))
      (hosts (socket n)) = some ⟨hostNodes (n + 1), [], []⟩ := by
  have hnew : findNamed NodeInfo.name (hosts (socket n)).name (hostNodes n) = none := by
    apply findNamed_none.mpr
    intro info hinfo hname
    obtain ⟨k, hk, rfl⟩ := List.mem_map.mp hinfo
    rw [List.mem_range] at hk
    have hnumber := Decimal.text_injective hname
    obtain ⟨hhost, hport⟩ := socket_toNat hn
    obtain ⟨hhost', hport'⟩ := socket_toNat (hk.trans hn)
    rw [hhost, hport, hhost', hport'] at hnumber
    omega
  have hnext : hostNodes (n + 1) =
      hostNodes n ++ [⟨(hosts (socket n)).name, everyHost.address (socket n)⟩] := by
    simp only [hostNodes, List.range_succ, List.map_append, List.map_singleton]
  simp only [Tables.registerAll, Tables.handle, Tables.registerNode, hnew, Reply.map, ← hnext]
  rfl

/-- The first `n` nodes connect, one after the other. -/
theorem exists_hosts_connected {n : ℕ} (hn : n ≤ 2 ^ 32 + 1) : ∃ as s,
    (initial hosts).run everyHost as = some s ∧ (∀ a ∈ as, a.IsHandshake) ∧
      (∀ k < n, s.phase (socket k) = .connected) ∧
      (∀ k, n ≤ k → k < 2 ^ 32 + 1 →
        s.Unheard everyHost (socket k) ∧ s.node (socket k) = hosts (socket k)) ∧
      s.broker.tables = ⟨hostNodes n, [], []⟩ := by
  induction n with
  | zero =>
    exact ⟨[], initial hosts, rfl, by simp, by simp,
      fun k _ _ => ⟨unheard_initial hosts, rfl⟩, rfl⟩
  | succ n ih =>
    have hlt : n < 2 ^ 32 + 1 := Nat.lt_of_succ_le hn
    obtain ⟨as, s, hrun, hactions, hconnected, hunheard, htables⟩ := ih hlt.le
    obtain ⟨hnext, hnode⟩ := hunheard n le_rfl hlt
    obtain ⟨bs, s', hrun', hactions', hconverses, hphase, htables'⟩ :=
      exists_connected rfl hnext (hnode ▸ hosts_shortNames hlt)
        (by rw [hnode, htables]; exact registerAll_hostNodes hlt)
    have hother : ∀ k < 2 ^ 32 + 1, k ≠ n → socket k ≠ socket n :=
      fun k hk hkn he => hkn (socket_injective hk hlt he)
    refine ⟨as ++ bs, s', ?_, ?_, fun k hk => ?_, fun k hk hbound => ?_, htables'⟩
    · exact run_trans hrun hrun'
    · exact List.forall_mem_append.mpr ⟨hactions, hactions'⟩
    · rcases Nat.lt_succ_iff_lt_or_eq.mp hk with hk | rfl
      · rw [hconverses.phase _ (hother k (hk.trans hlt) hk.ne)]
        exact hconnected k hk
      · exact hphase
    · have hkn := hother k hbound (Nat.lt_of_succ_le hk).ne'
      obtain ⟨hk', hnode'⟩ := hunheard k (Nat.le_of_succ_le hk) hbound
      exact ⟨hk'.converses hkn hconverses, (hconverses.node _ hkn).trans hnode'⟩

/-- With one node more than there are ids, two nodes go by one id, and the broker knows it as
one of them only. -/
theorem established_fails :
    ¬ ∀ (as bs : List (Action (UInt32 × UInt16))) (s s' : System (UInt32 × UInt16)),
      (∀ a ∈ as ++ bs, a.IsHandshake) → (initial hosts).run everyHost as = some s →
        s.run everyHost bs = some s' → Established everyHost s s' := by
  intro hall
  obtain ⟨n, hn⟩ : ∃ n : ℕ, n = 2 ^ 32 := ⟨_, rfl⟩
  obtain ⟨as, s, hrun, hactions, hconnected, _⟩ :=
    exists_hosts_connected (show n + 1 ≤ 2 ^ 32 + 1 by omega)
  have hestablished := hall as [] s s (by simpa using hactions) hrun rfl
  have hid : ∀ k ∈ Finset.range (n + 1), (s.node (socket k)).nodeId.toNat ∈ Finset.range n :=
    fun k _ => Finset.mem_range.mpr (hn ▸ UInt32.toNat_lt _)
  have hcard : (Finset.range n).card < (Finset.range (n + 1)).card := by
    rw [Finset.card_range, Finset.card_range]
    exact Nat.lt_succ_self n
  obtain ⟨j, hj, k, hk, hne, hsame⟩ := Finset.exists_ne_map_eq_of_card_lt_of_maps_to hcard hid
  rw [Finset.mem_range] at hj hk
  have hnode := (hestablished.confirmed _ (hconnected j hj)).node
  rw [hsame, (hestablished.confirmed _ (hconnected k hk)).node, Option.some.injEq,
    NodeInfo.mk.injEq] at hnode
  have hsocket := everyHost.address_injective hnode.2
  exact hne (socket_injective (by omega) (by omega) hsocket.symm)

end System
end Crps
