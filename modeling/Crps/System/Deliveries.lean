import Crps.System.Deadline
import Crps.System.Observation

/-!
# Deliveries between nodes on their storage

What the lists of nodes and links say of deliveries is true of the program
where every connected node has room for its endpoints. A node whose application
has asked for one too many dies of the first message that comes in for it.
-/

namespace Crps
namespace System

variable {ι : Type} [DecidableEq ι] {net : Deployment ι} {setups : ι → NodeSetup} {g : Growth}
variable {nodes : ι → Node} {s s' s₀ : System ι} {i j : ι} {r : Registry} {k l : ℕ}
variable {topicName : String}

theorem backed_of_roomy (hbuilt : ∀ i, (setups i).Built g) (hroomy : ∀ i, (setups i).Roomy g)
    {as : List (Action ι)} (hrun : (initial fun i => (setups i).node).run net as = some s) :
    s.Backed setups :=
  (run_backed_iff hbuilt hrun).mpr fun i _ => hroomy i

/-! ## Going on -/

theorem exists_accepted (hnodes : ∀ i, Node.Created (nodes i)) (h : Chronicle net nodes s r)
    (hphase : s.phase i = .connected) (hempty : (s.node i).queued (.publisher l) = 0)
    (hpublisher : (nodes i).topicName (.publisher l) = some topicName) (data : Memory) :
    ∃ s', s.run net [.publish i l data] = some s' ∧
      (acceptedPayloads (s'.ledger i).trace l).length =
        (acceptedPayloads (s.ledger i).trace l).length + 1 ∧
      s'.broker = s.broker ∧ s'.brokerRunning = s.brokerRunning ∧ s'.phase = s.phase := by
  obtain ⟨_, _, hactive⟩ := (h.history i).active hphase
  have hcapacity : 0 < (s.node i).capacityOf l := by
    rw [hactive.capacityOf]
    obtain ⟨p, hp, _⟩ := Option.map_eq_some_iff.mp hpublisher
    rw [Node.capacityOf, hp, Option.elim_some,
      (Node.capacities_of_created (hnodes i)).1 p (List.mem_of_getElem? hp)]
    decide
  have hperforms := (Node.Does.publish (n := s.node i) l data).performs
  have hqueued := hperforms.queued l
  have hnonempty := Node.queued_publish_ne_zero (n := s.node i) data hcapacity
  refine ⟨{ s with
      node := Function.update s.node i ((s.node i).publish l data).1
      ledger := Function.update s.ledger i
        ((s.ledger i).record none ((s.node i).publish l data).2) }, ?_, ?_, rfl, rfl, rfl⟩
  · simp only [run, step, publishStep, hphase, Option.bind_some]
  · have hone : publishedTo [((s.node i).publish l data).2] (.publisher l) ≤ 1 :=
      List.countP_le_length
    simp only [Function.update_self, Ledger.record_trace, acceptedPayloads_append,
      List.length_append, Node.length_acceptedPayloads]
    omega

/-- Once everybody is connected, the broker's tables stay as they are. -/
theorem run_tables (hnodes : ∀ i, Node.Created (nodes i)) (h : Orderly net nodes s r)
    (hconnected : ∀ i, s.phase i = .connected) {as : List (Action ι)}
    (hrun : s.run net as = some s') : s'.broker.tables = s.broker.tables := by
  obtain ⟨_, _, _, htables⟩ := run_invariant
    (P := fun s' => ∃ r, Orderly net nodes s' r ∧ (∀ i, s'.phase i = .connected) ∧
      s'.broker.tables = s.broker.tables)
    (fun a _ s₁ s₂ h₁ hstep => by
      obtain ⟨r₁, horderly, hphase, htables⟩ := h₁
      obtain ⟨r₂, horderly', _⟩ := step_orderly hnodes horderly hstep
      refine ⟨r₂, horderly', fun i => step_connected horderly hstep (hphase i), ?_⟩
      rw [← htables]
      cases a with
      | connect x =>
        obtain ⟨hcreated, _⟩ := step_connect hstep
        rw [hphase x] at hcreated
        cases hcreated
      | rpcReturn x =>
        obtain ⟨_, _, _, hwaiting, _⟩ := step_rpcReturn hstep
        rw [hphase x] at hwaiting
        cases hwaiting
      | broker x =>
        obtain ⟨_, d, rest, hup, hcases⟩ := step_broker hstep
        rcases hcases with ⟨_, _, rfl⟩ | ⟨it, hit, rfl⟩
        · rfl
        · have hdata : d.bytes.head? ≠ some 1 :=
            controls_eq_nil.mp (horderly.connected_up (hphase x)) d.bytes
              (List.mem_map_of_mem (by rw [hup]; exact List.mem_cons_self))
          exact (Broker.spinIteration_notControl hdata hit).1
      | publish x p data =>
        obtain ⟨_, rfl⟩ := step_publish hstep
        rfl
      | spin x receive env =>
        obtain ⟨_, _, _, _, _, hcases⟩ := step_spin hstep
        rcases hcases with ⟨_, _, rfl⟩ | ⟨_, _, rfl⟩
        · rfl
        · rfl
      | loseUp x position =>
        injection hstep with hstep
        rw [← hstep]
      | loseDown x position =>
        injection hstep with hstep
        rw [← hstep])
    ⟨r, h, hconnected, rfl⟩ hrun
  exact htables

theorem mem_handed_of_ne_zero {index : ℕ} (h : handed s i l j k index ≠ 0) :
    ((i, l), index) ∈ (bus s.ledger).handed (j, k) := by
  rw [handed, ne_eq, List.count_eq_zero, not_not] at h
  obtain ⟨m, hm, hid⟩ := List.mem_map.mp h
  exact List.mem_filterMap.mpr ⟨m, hm, by rw [handing, hid]; rfl⟩

/-! ## A source and a listener -/

/-- A source of poses, and a listener that subscribes to them once or twice. -/
def listening (twice : Bool) : Bool → NodeSetup
  | false => .calls .doubling "source" [.publisher "pose" "pose_t" 1 5]
  | true => .calls .doubling "listener"
      (List.replicate (if twice then 2 else 1) (.subscriber "pose" "pose_t" 1 5))

/-- The tables once both have connected. -/
def listeningTables (twice : Bool) : Tables where
  nodes := [⟨"source", "a"⟩, ⟨"listener", "b"⟩]
  messageTypes := [⟨"pose_t", 1⟩]
  topics := [⟨"pose", 0, 5, [0], List.replicate (if twice then 2 else 1) 1⟩]

theorem listening_built (twice i : Bool) : (listening twice i).Built .doubling := by
  cases i <;> exact ⟨_, _, rfl⟩

theorem listening_roomy (i : Bool) : (listening false i).Roomy .doubling := by cases i <;> decide

theorem listening_created (twice i : Bool) : Node.Created (listening twice i).node :=
  (listening_built twice i).created

theorem listening_fits (twice i : Bool) :
    ∀ p ∈ (listening twice i).node.publishers, p.packetSize ≤ maxDatagramSize := by
  revert twice i
  decide

theorem listening_topicName (twice : Bool) :
    (listening twice false).node.topicName (.publisher 0) = some "pose" ∧
      (listening twice true).node.topicName (.subscriber 0) = some "pose" := by
  revert twice
  decide

theorem listeningTables_small (twice : Bool) : (listeningTables twice).Small := by
  cases twice <;> exact ⟨by decide, by decide, by decide⟩

theorem listening_copies (twice : Bool) :
    (listening twice true).node.copiesOf "pose" = if twice then 2 else 1 := by
  revert twice
  decide

theorem exists_published (twice : Bool) : ∃ as s₀ s, (∀ a ∈ as, a.IsHandshake) ∧
    (initial fun i => (listening twice i).node).run pairDeployment as = some s₀ ∧
    (∀ i, s₀.phase i = .connected) ∧ s₀.brokerRunning = true ∧
    s₀.broker.tables = listeningTables twice ∧ (acceptedPayloads (s₀.ledger false).trace 0) = [] ∧
    s₀.run pairDeployment [.publish false 0 fun _ => 7] = some s ∧
    (acceptedPayloads (s.ledger false).trace 0).length = 1 ∧ s.brokerRunning = true ∧
    s.broker.tables = listeningTables twice := by
  have hnames : ∀ i, (listening twice i).node.ShortNames := by
    intro i
    revert twice i
    decide
  obtain ⟨as, s₀, hactions, hrun, hphase, hrunning, htables⟩ := exists_both_connected
    (u := sourceTables) (t := listeningTables twice) hnames (by revert twice; decide)
    (by revert twice; decide)
  obtain ⟨r, horderly, _, hhistory⟩ := run_history (listening_created twice)
    (orderly_initial pairDeployment _) (history_initial _ _) hrun
  have htrace := trace_of_handshake hactions hrun false
  obtain ⟨_, _, hactive⟩ := (hhistory false).active (hphase false)
  have hbooks := hactive.books (listening_created twice) 0
  have hempty : (s₀.node false).queued (.publisher 0) = 0 := by
    rw [htrace] at hbooks
    exact (Nat.zero_add _).symm.trans hbooks.symm
  obtain ⟨s, hpublish, haccepted, hbroker, hrunning', _⟩ := exists_accepted (i := false)
    (listening_created twice) ⟨horderly, hhistory⟩ (hphase false) hempty
    (listening_topicName twice).1 fun _ => 7
  refine ⟨as, s₀, s, hactions, hrun, hphase, hrunning, htables, by rw [htrace]; rfl, hpublish, ?_,
    hrunning'.trans hrunning, by rw [hbroker, htables]⟩
  rw [haccepted, htrace]
  rfl

omit [DecidableEq ι] in
theorem reliable_of_handshake {as bs : List (Action ι)} (has : ∀ a ∈ as, a.IsHandshake)
    (hbs : ∀ a ∈ bs, a.IsReliable) : ∀ a ∈ as ++ bs, a.IsReliable :=
  List.forall_mem_append.mpr ⟨fun a ha => isReliable_of_isHandshake (has a ha), hbs⟩

/-- Source and listener have connected by `s₀`; by `s` one message has been handed over, as often
as the listener has subscribed. -/
structure Listened (twice : Bool) (as bs : List (Action Bool)) (s₀ s : System Bool) : Prop where
  handshake : ∀ a ∈ as, a.IsHandshake
  reliable : ∀ a ∈ bs, a.IsReliable
  run : (initial fun i => (listening twice i).node).run pairDeployment as = some s₀
  later : s₀.run pairDeployment bs = some s
  connected : ∀ i, s₀.phase i = .connected
  running : s₀.brokerRunning = true
  small₀ : s₀.broker.tables.Small
  small : s.broker.tables.Small
  handed : s.handed false 0 true 0 0 = if twice then 2 else 1

theorem Listened.whole {twice : Bool} {as bs : List (Action Bool)} {s₀ s : System Bool}
    (h : Listened twice as bs s₀ s) :
    (initial fun i => (listening twice i).node).run pairDeployment (as ++ bs) = some s :=
  run_trans h.run h.later

theorem Listened.reliable_whole {twice : Bool} {as bs : List (Action Bool)} {s₀ s : System Bool}
    (h : Listened twice as bs s₀ s) : ∀ a ∈ as ++ bs, a.IsReliable :=
  reliable_of_handshake h.handshake h.reliable

theorem Listened.connected_later {twice : Bool} {as bs : List (Action Bool)} {s₀ s : System Bool}
    (h : Listened twice as bs s₀ s) {i : Bool} : s.phase i = .connected := by
  obtain ⟨r₀, horderly₀, _⟩ := run_orderly (listening_created twice)
    (orderly_initial pairDeployment _) h.run
  exact horderly₀.run_connected (listening_created twice) (h.connected i) h.later

theorem exists_listened (twice : Bool) : ∃ as bs s₀ s, Listened twice as bs s₀ s := by
  obtain ⟨as, s₀, s₁, hactions, hrun, hphase, hrunning₀, htables₀, hbefore, hpublish, hafter,
    hrunning, htables⟩ := exists_published twice
  have hreliable : ∀ a ∈ [Action.publish false 0 fun _ => 7], a.IsReliable := by
    simp [Action.IsReliable]
  have hsmall : s₁.broker.tables.Small := htables ▸ listeningTables_small twice
  obtain ⟨s, hleads, hhanded⟩ := exists_handed (listening_created twice) (listening_fits twice)
    (reliable_of_handshake hactions hreliable) hrun hpublish hsmall hrunning (hphase false)
    (hphase true) (listening_topicName twice).1 (listening_topicName twice).2
  obtain ⟨cs, hcs, hrun'⟩ := hleads.run
  refine ⟨as, [.publish false 0 fun _ => 7] ++ cs, s₀, s, hactions, ?_, hrun, ?_, hphase, hrunning₀,
    htables₀ ▸ listeningTables_small twice, hleads.tables ▸ hsmall, ?_⟩
  · exact List.forall_mem_append.mpr ⟨hreliable, fun a ha => (hcs a ha).isReliable⟩
  · exact run_trans hpublish hrun'
  · rw [hhanded 0 (by rw [hbefore]; exact Nat.le_refl 0) (by rw [hafter]; exact Nat.zero_lt_one)]
    exact listening_copies twice

theorem exists_queued (hnodes : ∀ i, Node.Created (nodes i)) {as : List (Action ι)}
    (hfits : ∀ i, ∀ p ∈ (nodes i).publishers, p.packetSize ≤ maxDatagramSize)
    (hreliable : ∀ a ∈ as, a.IsReliable) (hrun : (initial nodes).run net as = some s)
    (hsmall : s.broker.tables.Small) (hphase : s.phase j = .connected) {index : ℕ}
    (hhanded : handed s i l j k index ≠ 0) :
    ∃ payload, .queueMessage k payload true ∈ (s.ledger j).trace := by
  obtain ⟨r, h, hs⟩ := run_chronicle hnodes (reliable_initial net nodes)
    (fun a ha _ _ _ _ h h' _ hs hstep => hs.step hnodes h h' (hreliable a ha) hstep) hrun
  have hconveys := run_conveys hnodes hrun
    (fun x _ _ p _ hp => hfits x p (List.mem_of_getElem? hp)) hsmall
  obtain ⟨n₀, _, hactive⟩ := (h.history j).active hphase
  have hcount := queuedAt_eq_length hactive.performs (hactive.incoming_connected hnodes)
    (hs.drained j hphase) k
  rw [← (hconveys.recorded j).callbacks k, List.length_map] at hcount
  have hdelivered : ((s.ledger j).delivered k).length ≠ 0 := by
    intro hnone
    rw [List.length_eq_zero_iff] at hnone
    exact hhanded (by simp [handed, hnone])
  obtain ⟨e, he, hqueued⟩ := List.countP_pos_iff.mp
    (Nat.pos_of_ne_zero (hcount ▸ hdelivered : queuedAt k (s.ledger j).trace ≠ 0))
  split at hqueued
  · rename_i m payload
    obtain rfl : m = k := by simpa using hqueued
    exact ⟨payload, he⟩
  · cases hqueued

/-- With the second subscriber, the first one's queue was copied; its buffers are gone. -/
theorem listening_stray :
    ∃ q, (listening true true).storage.queueOf (.subscriber 0) = some q ∧ q.Stray :=
  ⟨_, rfl, rfl, _, _, rfl, by decide⟩

theorem Listened.lost {as bs : List (Action Bool)} {s₀ s : System Bool}
    (h : Listened true as bs s₀ s) : (listening true true).run (s.ledger true).trace = none := by
  obtain ⟨payload, hqueued⟩ := exists_queued (listening_created true) (listening_fits true)
    h.reliable_whole h.whole h.small h.connected_later (by rw [h.handed]; decide)
  obtain ⟨q, hq, hstray⟩ := listening_stray
  cases hstored : (listening true true).run (s.ledger true).trace with
  | none => rfl
  | some st => exact absurd hqueued (NodeSetup.run_stray hq hstray hstored payload true)

/-! ## What arrives -/

/-- In every run, whatever gets lost and whoever connects when, the storage of the connected nodes
backs them and what arrives is what was accepted, in order, exactly if none of their endpoints has
moved. -/
theorem endToEnd_iff (hbuilt : ∀ i, (setups i).Built g) {as : List (Action ι)}
    (hrun : (initial fun i => (setups i).node).run net as = some s)
    (hfit : ∀ x, DatagramsFit (setups x).node (s.ledger x).trace)
    (hsmall : s.broker.tables.Small) :
    (s.Backed setups ∧ ∀ j k, s.EndToEnd j k) ↔
      ∀ i, s.phase i = .connected → (setups i).Roomy g := by
  rw [run_backed_iff hbuilt hrun, and_iff_left_iff_imp]
  exact fun _ j k => endToEnd_of_small (fun i => (hbuilt i).created) hrun hfit hsmall j k

/-- A message that has arrived. -/
theorem endToEnd_listening : ∃ as s,
    (initial fun i => (listening false i).node).run pairDeployment as = some s ∧
      handed s false 0 true 0 0 = 1 ∧ s.Backed (listening false) ∧ ∀ j k, s.EndToEnd j k := by
  obtain ⟨as, bs, s₀, s, h⟩ := exists_listened false
  exact ⟨as ++ bs, s, h.whole, h.handed, (endToEnd_iff (listening_built false) h.whole
    (fun x _ _ p _ hp => listening_fits false x p (List.mem_of_getElem? hp)) h.small).mpr
      fun i _ => listening_roomy i⟩

/-- The message for a listener that has subscribed twice goes to memory that has been given back. -/
theorem endToEnd_fails :
    ¬ ∀ (setups : Bool → NodeSetup) (as bs : List (Action Bool)) (s₀ s : System Bool),
      (∀ i, (setups i).Built .doubling) → (∀ a ∈ as, a.IsHandshake) →
        (initial fun i => (setups i).node).run pairDeployment as = some s₀ →
        (∀ i, s₀.phase i = .connected) → (∀ a ∈ bs, a.IsReliable) →
        s₀.run pairDeployment bs = some s → s.broker.tables.Small →
        (∀ i, ∃ st, (setups i).run (s.ledger i).trace = some st) ∧ ∀ j k, s.EndToEnd j k := by
  intro hall
  obtain ⟨as, bs, s₀, s, h⟩ := exists_listened true
  obtain ⟨st, hstored⟩ := (hall (listening true) as bs s₀ s (listening_built true) h.handshake h.run
    h.connected h.reliable h.later h.small).1 true
  rw [h.lost] at hstored
  cases hstored

/-! ## How often -/

/-- From here on, whatever is accepted is handed to every subscriber of its topic at most once, and
once when nothing is on its way, the storage of all nodes backing them. -/
def ExactlyOnce (net : Deployment ι) (setups : ι → NodeSetup) (s₀ : System ι) : Prop :=
  ∀ bs s, (∀ a ∈ bs, a.IsReliable) → s₀.run net bs = some s → s.Backed setups ∧
    ∀ i l j k topicName, (setups i).node.topicName (.publisher l) = some topicName →
      (setups j).node.topicName (.subscriber k) = some topicName → Multiplied 1 s₀ s i l j k

/-- Once all nodes have connected, deliveries are exactly-once if and only if no endpoint has
moved and no node has two subscribers of a topic that is published to. -/
theorem exactlyOnce_iff (hbuilt : ∀ i, (setups i).Built g)
    (hfits : ∀ i, ∀ p ∈ (setups i).node.publishers, p.packetSize ≤ maxDatagramSize)
    {as : List (Action ι)} (hreliable : ∀ a ∈ as, a.IsReliable)
    (hrun : (initial fun i => (setups i).node).run net as = some s₀)
    (hconnected : ∀ i, s₀.phase i = .connected) (hrunning : s₀.brokerRunning = true)
    (hsmall : s₀.broker.tables.Small) :
    s₀.ExactlyOnce net setups ↔ (∀ i, (setups i).Roomy g) ∧
      ∀ i l j k topicName, (setups i).node.topicName (.publisher l) = some topicName →
        (setups j).node.topicName (.subscriber k) = some topicName →
          (setups j).node.copiesOf topicName = 1 := by
  have hnodes : ∀ i, Node.Created (setups i).node := fun i => (hbuilt i).created
  obtain ⟨r₀, horderly₀, _, hhistory₀⟩ := run_history hnodes (orderly_initial net _)
    (history_initial net _) hrun
  have hmultiplied : ∀ {bs s}, (∀ a ∈ bs, a.IsReliable) → s₀.run net bs = some s →
      ∀ {i l j k topicName}, (setups i).node.topicName (.publisher l) = some topicName →
        (setups j).node.topicName (.subscriber k) = some topicName →
          Multiplied ((setups j).node.copiesOf topicName) s₀ s i l j k := by
    intro bs s hbs hlater i l j k topicName hpublisher hsubscriber
    exact multiplied_of_reliable hnodes hfits (List.forall_mem_append.mpr ⟨hreliable, hbs⟩) hrun
      hlater (by rwa [run_tables hnodes horderly₀ hconnected hlater]) (hconnected i) (hconnected j)
      hpublisher hsubscriber
  constructor
  · intro honce
    refine ⟨fun i => ?_, fun i l j k topicName hpublisher hsubscriber => ?_⟩
    · have hbacked := (honce [] s₀ (by simp) rfl).1
      exact (run_backed_iff hbuilt hrun).mp hbacked i (hconnected i)
    -- drain what is on its way, publish once more, and drain that
    · obtain ⟨s₁, hleads₁, hquiescent₁⟩ := exists_quiescent (l := l) hnodes
        ⟨horderly₀, hhistory₀⟩ (hconnected i) (hconnected j) hrunning
      obtain ⟨r₁, h₁⟩ := hleads₁.chronicle hnodes ⟨horderly₀, hhistory₀⟩
      have hconnected₁ := fun x =>
        hleads₁.connected hnodes ⟨horderly₀, hhistory₀⟩ (hconnected x)
      obtain ⟨s₂, hpublish, haccepted, _, hrunning₂, hphase₂⟩ := exists_accepted hnodes h₁
        (hconnected₁ i) hquiescent₁.queued hpublisher fun _ => 0
      obtain ⟨r₂, horderly₂, _, hhistory₂⟩ := run_history hnodes h₁.orderly h₁.history hpublish
      obtain ⟨s₃, hleads₃, hquiescent₃⟩ := exists_quiescent (l := l) hnodes
        ⟨horderly₂, hhistory₂⟩ (by rw [hphase₂]; exact hconnected₁ i)
        (by rw [hphase₂]; exact hconnected₁ j)
        (hrunning₂.trans (hleads₁.running.trans hrunning))
      obtain ⟨cs, hcs, hrun₁⟩ := hleads₁.run
      obtain ⟨ds, hds, hrun₃⟩ := hleads₃.run
      have hbs : ∀ a ∈ cs ++ ([.publish i l fun _ => 0] ++ ds), a.IsReliable := by
        simp only [List.forall_mem_append]
        exact ⟨fun a ha => (hcs a ha).isReliable, by simp [Action.IsReliable],
          fun a ha => (hds a ha).isReliable⟩
      have hlater : s₀.run net (cs ++ ([.publish i l fun _ => 0] ++ ds)) = some s₃ :=
        run_trans hrun₁ (run_trans hpublish hrun₃)
      have hbefore : (acceptedPayloads (s₀.ledger i).trace l).length <
          (acceptedPayloads (s₃.ledger i).trace l).length := by
        rw [hleads₃.accepted, haccepted, hleads₁.accepted]
        exact Nat.lt_succ_self _
      have hcopies := (hmultiplied hbs hlater hpublisher hsubscriber).exactly hquiescent₃ _
        (Nat.le_refl _) hbefore
      rw [← hcopies]
      exact ((honce _ s₃ hbs hlater).2 i l j k topicName hpublisher hsubscriber).exactly
        hquiescent₃ _ (Nat.le_refl _) hbefore
  · rintro ⟨hroomy, hcopies⟩ bs s hbs hlater
    refine ⟨?_, fun i l j k topicName hpublisher hsubscriber => ?_⟩
    · exact backed_of_roomy hbuilt hroomy (run_trans hrun hlater)
    · rw [← hcopies i l j k topicName hpublisher hsubscriber]
      exact hmultiplied hbs hlater hpublisher hsubscriber

/-- The listener gets the source's messages once. -/
theorem exactlyOnce_listening : ∃ as bs s₀ s,
    (initial fun i => (listening false i).node).run pairDeployment as = some s₀ ∧
      s₀.ExactlyOnce pairDeployment (listening false) ∧ s₀.run pairDeployment bs = some s ∧
      handed s false 0 true 0 0 = 1 := by
  obtain ⟨as, bs, s₀, s, h⟩ := exists_listened false
  refine ⟨as, bs, s₀, s, h.run, ?_, h.later, h.handed⟩
  refine (exactlyOnce_iff (listening_built false) (listening_fits false)
    (fun a ha => isReliable_of_isHandshake (h.handshake a ha)) h.run h.connected h.running
    h.small₀).mpr ⟨listening_roomy, fun i l j k topicName _ hsubscriber => ?_⟩
  cases j with
  | false => cases hsubscriber
  | true =>
    obtain ⟨sub, hsub, rfl⟩ := Option.map_eq_some_iff.mp hsubscriber
    rw [List.mem_singleton.mp (List.mem_of_getElem? hsub)]
    exact listening_copies false

/-- One that has subscribed twice does not live to get them. -/
theorem exactlyOnce_fails :
    ¬ ∀ (setups : Bool → NodeSetup) (as : List (Action Bool)) (s₀ : System Bool),
      (∀ i, (setups i).Built .doubling) →
        (∀ i, ∀ p ∈ (setups i).node.publishers, p.packetSize ≤ maxDatagramSize) →
        (∀ a ∈ as, a.IsHandshake) →
        (initial fun i => (setups i).node).run pairDeployment as = some s₀ →
        (∀ i, s₀.phase i = .connected) → s₀.brokerRunning = true → s₀.broker.tables.Small →
        s₀.ExactlyOnce pairDeployment setups := by
  intro hall
  obtain ⟨as, bs, s₀, s, h⟩ := exists_listened true
  have honce := hall (listening true) as s₀ (listening_built true) (listening_fits true) h.handshake
    h.run h.connected h.running h.small₀
  obtain ⟨st, hstored, _⟩ := ((honce bs s h.reliable h.later).1 true h.connected_later).stored
  rw [h.lost] at hstored
  cases hstored

/-- A message goes to every subscriber of its topic as often as its node has subscribers of the
topic. -/
theorem multiplied_of_roomy (hbuilt : ∀ i, (setups i).Built g) (hroomy : ∀ i, (setups i).Roomy g)
    (hfits : ∀ i, ∀ p ∈ (setups i).node.publishers, p.packetSize ≤ maxDatagramSize)
    {as bs : List (Action ι)} (hreliable : ∀ a ∈ as ++ bs, a.IsReliable)
    (hrun : (initial fun i => (setups i).node).run net as = some s₀)
    (hlater : s₀.run net bs = some s) (hsmall : s.broker.tables.Small)
    (hi : s₀.phase i = .connected) (hj : s₀.phase j = .connected)
    (hpublisher : (setups i).node.topicName (.publisher l) = some topicName)
    (hsubscriber : (setups j).node.topicName (.subscriber k) = some topicName) :
    s.Backed setups ∧ Multiplied ((setups j).node.copiesOf topicName) s₀ s i l j k := by
  constructor
  · exact backed_of_roomy hbuilt hroomy (run_trans hrun hlater)
  · exact multiplied_of_reliable (fun i => (hbuilt i).created) hfits hreliable hrun hlater hsmall hi
      hj hpublisher hsubscriber

theorem multiplied_listening : ∃ as bs s₀ s,
    (initial fun i => (listening false i).node).run pairDeployment as = some s₀ ∧
      s₀.run pairDeployment bs = some s ∧ handed s false 0 true 0 0 = 1 ∧
      s.Backed (listening false) ∧ Multiplied 1 s₀ s false 0 true 0 := by
  obtain ⟨as, bs, s₀, s, h⟩ := exists_listened false
  exact ⟨as, bs, s₀, s, h.run, h.later, h.handed, multiplied_of_roomy (listening_built false)
    listening_roomy (listening_fits false) h.reliable_whole h.run h.later h.small
    (h.connected false) (h.connected true) (listening_topicName false).1
    (listening_topicName false).2⟩

/-! ## How soon -/

/-- What has been accepted can always be handed over, by the publisher's node, the broker and the
subscriber's node alone. -/
theorem exists_handed_of_roomy (hbuilt : ∀ i, (setups i).Built g)
    (hroomy : ∀ i, (setups i).Roomy g)
    (hfits : ∀ i, ∀ p ∈ (setups i).node.publishers, p.packetSize ≤ maxDatagramSize)
    {as bs : List (Action ι)} (hreliable : ∀ a ∈ as ++ bs, a.IsReliable)
    (hrun : (initial fun i => (setups i).node).run net as = some s₀)
    (hlater : s₀.run net bs = some s) (hsmall : s.broker.tables.Small)
    (hrunning : s.brokerRunning = true) (hi : s₀.phase i = .connected)
    (hj : s₀.phase j = .connected)
    (hpublisher : (setups i).node.topicName (.publisher l) = some topicName)
    (hsubscriber : (setups j).node.topicName (.subscriber k) = some topicName) :
    ∃ s', Leads net i j s s' ∧ s'.Backed setups ∧
      ∀ index, (acceptedPayloads (s₀.ledger i).trace l).length ≤ index →
        index < (acceptedPayloads (s.ledger i).trace l).length →
          handed s' i l j k index = (setups j).node.copiesOf topicName := by
  obtain ⟨s', hleads, hhanded⟩ := exists_handed (fun i => (hbuilt i).created) hfits hreliable hrun
    hlater hsmall hrunning hi hj hpublisher hsubscriber
  obtain ⟨cs, _, hrun'⟩ := hleads.run
  refine ⟨s', hleads, ?_, hhanded⟩
  have hwhole : (initial fun i => (setups i).node).run net (as ++ (bs ++ cs)) = some s' :=
    run_trans hrun (run_trans hlater hrun')
  exact backed_of_roomy hbuilt hroomy hwhole

/-- The source's message is, from where it has been accepted. -/
theorem exists_handed_listening : ∃ as bs s₀ s s',
    (initial fun i => (listening false i).node).run pairDeployment as = some s₀ ∧
      s₀.run pairDeployment bs = some s ∧ Leads pairDeployment false true s s' ∧
      s'.Backed (listening false) ∧ handed s' false 0 true 0 0 = 1 := by
  obtain ⟨as, s₀, s, hactions, hrun, hphase, _, _, hbefore, hpublish, hafter, hrunning, htables⟩ :=
    exists_published false
  obtain ⟨s', hleads, hbacked, hhanded⟩ := exists_handed_of_roomy (listening_built false)
    listening_roomy (listening_fits false)
    (reliable_of_handshake hactions (by simp [Action.IsReliable])) hrun hpublish
    (htables ▸ listeningTables_small false) hrunning (hphase false) (hphase true)
    (listening_topicName false).1 (listening_topicName false).2
  refine ⟨as, _, s₀, s, s', hrun, hpublish, hleads, hbacked, ?_⟩
  rw [hhanded 0 (by rw [hbefore]; exact Nat.le_refl 0) (by rw [hafter]; exact Nat.zero_lt_one)]
  exact listening_copies false

/-- A message is handed over once its publisher's node has spun as often as it has messages queued,
then the broker has served the node as often as datagrams are on its link, and then the subscriber's
node has received as often as datagrams are on its. -/
theorem handed_in_time_of_roomy (hbuilt : ∀ i, (setups i).Built g)
    (hroomy : ∀ i, (setups i).Roomy g)
    (hfits : ∀ i, ∀ p ∈ (setups i).node.publishers, p.packetSize ≤ maxDatagramSize)
    {s₁ s₂ s₃ : System ι} {as bs cs ds es : List (Action ι)}
    (hreliable : ∀ a ∈ as ++ (bs ++ (cs ++ (ds ++ es))), a.IsReliable)
    (hrun : (initial fun i => (setups i).node).run net as = some s₀)
    (hlater : s₀.run net bs = some s) (hspin : s.run net cs = some s₁)
    (hserve : s₁.run net ds = some s₂) (hreceive : s₂.run net es = some s₃)
    (hsmall : s₃.broker.tables.Small) (hi : s₀.phase i = .connected) (hj : s₀.phase j = .connected)
    (hpublisher : (setups i).node.topicName (.publisher l) = some topicName)
    (hsubscriber : (setups j).node.topicName (.subscriber k) = some topicName)
    (hspins : (s.node i).queued (.publisher l) ≤ cs.countP fun a => a.isSpin i)
    (hserved : (s₁.up i).length ≤ ds.countP fun a => a.isBroker i)
    (hreceived : (s₂.down j).length ≤ es.countP fun a => a.isReception j) :
    s₃.Backed setups ∧ ∀ index, (acceptedPayloads (s₀.ledger i).trace l).length ≤ index →
      index < (acceptedPayloads (s.ledger i).trace l).length →
        handed s₃ i l j k index = (setups j).node.copiesOf topicName := by
  have hwhole : (initial fun i => (setups i).node).run net
      (as ++ (bs ++ (cs ++ (ds ++ es)))) = some s₃ :=
    run_trans hrun (run_trans hlater (run_trans hspin (run_trans hserve hreceive)))
  constructor
  · exact backed_of_roomy hbuilt hroomy hwhole
  · exact handed_in_time (fun i => (hbuilt i).created) hfits hreliable hrun hlater hspin hserve
      hreceive hsmall hi hj hpublisher hsubscriber hspins hserved hreceived

/-- The source's one message: the calls of `spin_once` its node needs, a broker iteration for every
datagram then on its link, a reception for every datagram then on the listener's. -/
theorem handed_in_time_listening : ∃ as s s₁ s₂ s₃,
    (initial fun i => (listening false i).node).run pairDeployment as = some s ∧
      s.run pairDeployment (List.replicate ((s.node false).queued (.publisher 0))
        (.spin false false (sending true))) = some s₁ ∧
      s₁.run pairDeployment (List.replicate (s₁.up false).length (.broker false)) = some s₂ ∧
      s₂.run pairDeployment
        (List.replicate (s₂.down true).length (.spin true true (sending true))) = some s₃ ∧
      s₃.Backed (listening false) ∧ handed s₃ false 0 true 0 0 = 1 := by
  obtain ⟨as, s₀, s, hactions, hrun, hphase, _, _, hbefore, hpublish, hafter, hrunning, htables⟩ :=
    exists_published false
  obtain ⟨r₀, horderly₀, _, hhistory₀⟩ := run_history (listening_created false)
    (orderly_initial pairDeployment _) (history_initial _ _) hrun
  obtain ⟨r, horderly, _, hhistory⟩ :=
    run_history (listening_created false) horderly₀ hhistory₀ hpublish
  have hconnected := fun i =>
    horderly₀.run_connected (listening_created false) (hphase i) hpublish
  -- each of the three stretches can be run
  obtain ⟨s₁, hspin, hbroker₁, hrunning₁⟩ := exists_spins (listening_created false)
    ⟨horderly, hhistory⟩ (hconnected false) false ((s.node false).queued (.publisher 0))
  obtain ⟨r₁, horderly₁, _, hhistory₁⟩ :=
    run_history (listening_created false) horderly hhistory hspin
  have hconnected₁ := fun i =>
    horderly.run_connected (listening_created false) (hconnected i) hspin
  obtain ⟨s₂, hserve, hleads, _⟩ := exists_served (i := false) (j := true)
    (listening_created false) ⟨horderly₁, hhistory₁⟩ (hconnected₁ false)
    (hrunning₁.trans hrunning) rfl
  obtain ⟨r₂, horderly₂, _, hhistory₂⟩ :=
    run_history (listening_created false) horderly₁ hhistory₁ hserve
  obtain ⟨s₃, hreceive, hbroker₃, _⟩ := exists_spins (listening_created false)
    ⟨horderly₂, hhistory₂⟩
    (horderly₁.run_connected (listening_created false) (hconnected₁ true) hserve) true
    (s₂.down true).length
  have hsmall : s₃.broker.tables.Small := by
    rw [hbroker₃, hleads.tables, hbroker₁, htables]
    exact listeningTables_small false
  have hrun' : (initial fun i => (listening false i).node).run pairDeployment
      (as ++ [.publish false 0 fun _ => 7]) = some s :=
    run_trans hrun hpublish
  obtain ⟨hbacked, hhanded⟩ := handed_in_time_of_roomy (listening_built false) listening_roomy
    (listening_fits false) (by
      simp only [List.forall_mem_append]
      refine ⟨fun a ha => isReliable_of_isHandshake (hactions a ha), by simp [Action.IsReliable],
        fun a ha => ?_, fun a ha => ?_, fun a ha => ?_⟩
      · rw [List.eq_of_mem_replicate ha]
        exact fun _ _ => rfl
      · rw [List.eq_of_mem_replicate ha]
        trivial
      · rw [List.eq_of_mem_replicate ha]
        exact fun _ _ => rfl) hrun hpublish hspin hserve hreceive hsmall (hphase false)
    (hphase true) (listening_topicName false).1 (listening_topicName false).2
    (by simp [List.countP_replicate, Action.isSpin])
    (by simp [List.countP_replicate, Action.isBroker])
    (by simp [List.countP_replicate, Action.isReception])
  refine ⟨_, s, s₁, s₂, s₃, hrun', hspin, hserve, hreceive, hbacked, ?_⟩
  rw [hhanded 0 (by rw [hbefore]; exact Nat.le_refl 0) (by rw [hafter]; exact Nat.zero_lt_one)]
  exact listening_copies false

/-! ## The bus -/

end System
end Crps
