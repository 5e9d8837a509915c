import Crps.Benchmark.Samples

/-!
# Pings come back

Where nothing is lost a reflector has at most one pong waiting between two
calls of `spin_once`, so it can send back every ping it gets. A ping then
returns to the generators as soon as nodes and broker have carried it to the
reflector, and the pong from there.
-/

namespace Crps
namespace Benchmark

variable {ι : Type}

/-! ## One call of a reflector -/

section Call

variable {app : BenchmarkNode} {nodeId : BpNodeId} {i : ι} {n : Node} {message : Bytes}
variable {sendto : List SpinEvent → Bytes → Bool} {text : JsonText} {reception : Reception}
variable {out : Node.SpinOutcome}

theorem length_callback (app : BenchmarkNode) (nodeId : BpNodeId) (message : Bytes) :
    (app.callback nodeId message).publishes.length ≤ 1 := by
  unfold BenchmarkNode.callback BenchmarkNode.pingCallback
  split_ifs
  · exact Nat.zero_le 1
  · exact Nat.zero_le 1
  · exact Nat.le_refl 1

theorem published_le_one (hequipped : n.Equipped) (hsubscribers : n.subscribers.length = 1)
    (hout : n.spinOnce text reception (environment app nodeId sendto) = .ok out) :
    publishedTo out.events (.publisher 0) ≤ 1 := by
  have hbound := Node.spinOnce_published_le hequipped
    (fun _ _ message => length_callback app nodeId message) hout (.publisher 0)
  rwa [hsubscribers, Nat.mul_one] at hbound

/-- There is room for the pong of every ping. -/
theorem reflected_of_spin (hreflector : app.benchNodeType ≠ "generator")
    (hsized : Sized app n.config) (hequipped : n.Equipped)
    (hsubscribers : n.subscribers.length = 1) (hcapacity : n.capacityOf 0 = messageQueueCapacity)
    (hqueued : n.queued (.publisher 0) ≤ 1)
    (hout : n.spinOnce text reception (environment app nodeId sendto) = .ok out) {t k : ℕ}
    (hat : (out.events.filterMap (System.observe i))[t]? = some (.callback (i, k) message))
    (hlength : message.length = app.messageSize.toNat) :
    (out.events.filterMap (System.observe i))[t + 1]? =
      some (.publish (i, 0) (BenchmarkHeader.stamp nodeId message) true) := by
  obtain ⟨u, e, hevent, he, _, hafter⟩ := System.exists_of_observed hat
  obtain rfl : e = .callback k message := by
    cases e with
    | callback j data =>
      simp only [System.observe, Option.some.injEq, BusEvent.callback.injEq, Prod.mk.injEq,
        true_and] at he
      obtain ⟨rfl, rfl⟩ := he
      rfl
    | publish => cases he
    | queueMessage => cases he
    | sendto => cases he
  obtain ⟨n₁, es, hperforms, hdrop⟩ := Node.spinOnce_answered hout u k message hevent
  have hpublishes : ((environment app nodeId sendto).callback (out.events.take u) k
      message).publishes =
        [(0, BenchmarkNode.pointer (BenchmarkHeader.stamp nodeId message))] := by
    simp only [environment, BenchmarkNode.callback, if_neg hreflector, BenchmarkNode.pingCallback,
      hlength, ne_eq, not_true_eq_false, if_false]
  obtain ⟨taken, hpublish⟩ := Node.publish_event n₁ 0
    (BenchmarkNode.pointer (BenchmarkHeader.stamp nodeId message))
  rw [hperforms.config, hsized.payload (by rw [BenchmarkHeader.length_stamp, hlength])] at hpublish
  have htaken : taken = true := by
    have hdoes := Node.Does.publish (n := n₁) 0
      (BenchmarkNode.pointer (BenchmarkHeader.stamp nodeId message))
    rw [hpublish] at hdoes
    rw [hdoes.publish_taken, decide_eq_true_iff, hperforms.capacityOf, hcapacity]
    have hsplit := Node.publishedTo_append (out.events.take (u + 1)) (out.events.drop (u + 1))
      (.publisher 0)
    rw [List.take_append_drop] at hsplit
    have hpublished := published_le_one hequipped hsubscribers hout
    have hbooks := hperforms.queued 0
    have hroom : 2 < messageQueueCapacity := by decide
    omega
  have hnext : out.events.drop (u + 1) =
      .publish 0 (BenchmarkHeader.stamp nodeId message) true :: es := by
    rw [hdrop, hpublishes]
    simp only [Node.publishAll, hpublish, htaken]
    rfl
  rw [hnext] at hafter
  have hfirst := congrArg (fun seen => seen[0]?) hafter
  simp only [List.getElem?_drop, Nat.add_zero] at hfirst
  exact hfirst.symm

end Call

/-! ## All calls of all reflectors -/

section Runs

variable [DecidableEq ι] {net : Deployment ι} {apps : ι → BenchmarkNode} {clock : ℕ → UInt64}
variable {nodes : ι → Node} {b b' : Benchmark ι} {r : Registry}

/-- A reflector has at most one pong waiting, and has sent back whatever it has got. -/
structure Reflects (apps : ι → BenchmarkNode) (b : Benchmark ι) : Prop where
  waiting : ∀ i, (apps i).benchNodeType ≠ "generator" →
    (acceptedPayloads (b.system.ledger i).trace 0).length ≤
      transmitted (b.system.ledger i).trace 0 + 1
  reflected : ∀ n i k message, b.seen[n]? = some (.callback (i, k) message) →
    (apps i).benchNodeType ≠ "generator" → message.length = (apps i).messageSize.toNat →
      b.system.phase i = .connected ∧ b.seen[n + 1]? =
        some (.publish (i, 0) (BenchmarkHeader.stamp (b.system.node i).nodeId message) true)

omit [DecidableEq ι] in
theorem reflects_initial (nodes : ι → Node) : Reflects apps (initial nodes) := by
  refine ⟨fun i _ => Nat.zero_le _, fun n i k message h => ?_⟩
  cases h

omit [DecidableEq ι] in
theorem equips_connected (hsetUp : ∀ i, (apps i).setUp = some (nodes i))
    (h : System.Chronicle net nodes b.system r) {i : ι} (hphase : b.system.phase i = .connected) :
    (b.system.node i).Equipped ∧ (b.system.node i).subscribers.length = 1 ∧
      (b.system.node i).capacityOf 0 = messageQueueCapacity ∧
      (acceptedPayloads (b.system.ledger i).trace 0).length =
        transmitted (b.system.ledger i).trace 0 + (b.system.node i).queued (.publisher 0) := by
  have hnodes : ∀ i, Node.Created (nodes i) :=
    fun i => (BenchmarkNode.equips_of_setUp (hsetUp i)).created
  have hequips := BenchmarkNode.equips_of_setUp (hsetUp i)
  obtain ⟨n₀, requests, hactive⟩ := (h.history i).active hphase
  refine ⟨hactive.equipped hnodes, ?_, ?_, hactive.books hnodes 0⟩
  · have hlength :=
      congrArg (fun cfg : NodeConfig => cfg.subscribers.length) hactive.performs.config
    simp only [Node.config, List.length_map] at hlength
    rw [hlength, (Node.lengths_of_blueprint hactive.registered.blueprint).2, hequips.subscribers]
    rfl
  · rw [hactive.capacityOf, Node.capacityOf, hequips.publishers]
    rfl

omit [DecidableEq ι] in
theorem reflector_calls {a : BenchmarkAction ι} {action : Action ι} {es : List SpinEvent}
    {now : UInt64} (hcalls : System.Calls net.text b.system action es)
    (hmeans : b.action apps now a = some action)
    (hreflector : (apps action.node).benchNodeType ≠ "generator") :
    es = [] ∨ b.system.phase action.node = .connected ∧ ∃ reception sendto out,
      (b.system.node action.node).spinOnce net.text reception (environment (apps action.node)
        (b.system.node action.node).nodeId sendto) = .ok out ∧ es = out.events ∧
        (a.IsReliable → ∀ events packet, sendto events packet = true) := by
  cases a with
  | ping x =>
    simp only [Benchmark.action] at hmeans
    split_ifs at hmeans with hgenerator
    injection hmeans with hmeans
    subst hmeans
    exact absurd hgenerator hreflector
  | spin x receive sendto =>
    injection hmeans with hmeans
    subst hmeans
    cases hcalls with
    | nothing => exact .inl rfl
    | spin _ _ _ hphase hout => exact .inr ⟨hphase, _, sendto, _, hout, rfl, id⟩
  | _ =>
    injection hmeans with hmeans
    subst hmeans
    cases hcalls
    exact .inl rfl

theorem Reflects.step (h : Reflects apps b) (hsetUp : ∀ i, (apps i).setUp = some (nodes i))
    (hchronicle : System.Chronicle net nodes b.system r) {a : BenchmarkAction ι}
    (ha : a.IsReliable) (hstep : b.step net apps clock a = some b') : Reflects apps b' := by
  obtain ⟨action, es, hmoves⟩ := exists_moves hstep
  have hkept := hmoves.kept hchronicle
  refine ⟨fun i hreflector => ?_, fun n i k message hat hreflector hlength => ?_⟩
  · have hbefore := h.waiting i hreflector
    by_cases hi : i = action.node
    · subst hi
      rw [hmoves.trace, acceptedPayloads_append, transmitted_append, List.length_append,
        Node.length_acceptedPayloads es 0]
      rcases reflector_calls hmoves.calls hmoves.means hreflector with
        rfl | ⟨hphase, reception, sendto, out, hout, rfl, hsends⟩
      · exact hbefore
      · obtain ⟨hequipped, hsubscribers, _, hbooks⟩ := equips_connected hsetUp hchronicle hphase
        have hpublished := published_le_one hequipped hsubscribers hout
        have hsent := @Node.spinOnce_transmits _ _ _ hequipped (hsends ha) _ _ hout 0
        by_cases hqueued : (b.system.node action.node).queued (.publisher 0) = 0
        · omega
        · have hsome := hsent hqueued
          omega
    · rw [hmoves.others i hi]
      exact hbefore
  · rw [hmoves.seen] at hat ⊢
    by_cases hn : n < b.seen.length
    · rw [List.getElem?_append_left hn] at hat
      obtain ⟨hphase, hnext⟩ := h.reflected n i k message hat hreflector hlength
      rw [List.getElem?_append_left (List.getElem?_eq_some_iff.mp hnext).1, (hkept i hphase).2]
      exact ⟨(hkept i hphase).1, hnext⟩
    · obtain ⟨t, rfl⟩ := Nat.exists_eq_add_of_le (not_lt.mp hn)
      rw [List.getElem?_append_right (Nat.le_add_right _ _), Nat.add_sub_cancel_left] at hat
      rw [Nat.add_assoc, List.getElem?_append_right (Nat.le_add_right _ _), Nat.add_sub_cancel_left]
      obtain ⟨k', hsame⟩ := callback_of_observed (List.mem_of_getElem? hat)
      rw [Prod.mk.injEq] at hsame
      obtain ⟨rfl, _⟩ := hsame
      rcases reflector_calls hmoves.calls hmoves.means hreflector with
        rfl | ⟨hphase, reception, sendto, out, hout, rfl, _⟩
      · cases hat
      · obtain ⟨hequipped, hsubscribers, hcapacity, hbooks⟩ :=
          equips_connected hsetUp hchronicle hphase
        have hbefore := h.waiting action.node hreflector
        rw [(hkept _ hphase).2]
        refine ⟨(hkept _ hphase).1, ?_⟩
        exact reflected_of_spin hreflector (sized_of_connected hsetUp hchronicle hphase) hequipped
          hsubscribers hcapacity (by omega) hout hat hlength

theorem run_reflects (hsetUp : ∀ i, (apps i).setUp = some (nodes i))
    {as : List (BenchmarkAction ι)} (hreliable : ∀ a ∈ as, a.IsReliable)
    (hrun : (initial nodes).run net apps clock as = some b) : Reflects apps b :=
  (run_invariant (fun i => (BenchmarkNode.equips_of_setUp (hsetUp i)).created)
    (fun a ha _ _ _ hchronicle h hstep => h.step hsetUp hchronicle (hreliable a ha) hstep)
    (System.chronicle_initial net nodes) (reflects_initial nodes) hrun).1

/-! ## What is carried arrives -/

/-- Node `i` spins as often as it has messages queued, then the broker serves it as often as
datagrams are on its link, then node `j` receives as often as datagrams are on its. -/
def Carries (net : Deployment ι) (apps : ι → BenchmarkNode) (clock : ℕ → UInt64) (i j : ι)
    (b b' : Benchmark ι) : Prop :=
  ∃ b₁ b₂ cs ds es, (∀ a ∈ cs ++ (ds ++ es), a.IsReliable) ∧
    b.run net apps clock cs = some b₁ ∧ b₁.run net apps clock ds = some b₂ ∧
    b₂.run net apps clock es = some b' ∧
    (b.system.node i).queued (.publisher 0) ≤ cs.countP (fun a => a.isSpin i) ∧
    (b₁.system.up i).length ≤ ds.countP (fun a => a.isBroker i) ∧
    (b₂.system.down j).length ≤ es.countP (fun a => a.isReception j)

variable {i j : ι}

theorem Carries.exists_run (h : Carries net apps clock i j b b') :
    ∃ as, (∀ a ∈ as, a.IsReliable) ∧ b.run net apps clock as = some b' := by
  obtain ⟨b₁, b₂, cs, ds, es, hreliable, hspin, hserve, hreceive, _⟩ := h
  exact ⟨cs ++ (ds ++ es), hreliable, run_trans hspin (run_trans hserve hreceive)⟩

theorem Carries.carried (h : Carries net apps clock i j b b') :
    System.Carried net i 0 j b.system b'.system := by
  obtain ⟨b₁, b₂, cs, ds, es, hreliable, hspin, hserve, hreceive, hspins, hserved, hreceived⟩ := h
  simp only [List.forall_mem_append] at hreliable
  obtain ⟨hcs, hds, hes⟩ := hreliable
  obtain ⟨cs', hcs', hspin', _⟩ := run_system hspin
  obtain ⟨ds', hds', hserve', _⟩ := run_system hserve
  obtain ⟨es', hes', hreceive', _⟩ := run_system hreceive
  refine ⟨b₁.system, b₂.system, cs', ds', es', ?_, hspin', hserve', hreceive', ?_, ?_, ?_⟩
  · simp only [List.forall_mem_append]
    exact ⟨reliable_of_translated hcs' hcs, reliable_of_translated hds' hds,
      reliable_of_translated hes' hes⟩
  · rwa [countP_of_translated hcs' fun _ _ h => h.spin i]
  · rwa [countP_of_translated hds' fun _ _ h => h.broker i]
  · rwa [countP_of_translated hes' fun _ _ h => h.reception j]

omit [DecidableEq ι] in
theorem topicNames (hsetUp : ∀ i, (apps i).setUp = some (nodes i)) (i : ι) :
    (nodes i).topicName (.publisher 0) = some (apps i).publishedTopic ∧
      (nodes i).topicName (.subscriber 0) = some (apps i).subscribedTopic ∧
      (nodes i).copiesOf (apps i).subscribedTopic = 1 := by
  have hequips := BenchmarkNode.equips_of_setUp (hsetUp i)
  refine ⟨?_, ?_, ?_⟩
  · rw [Node.topicName, hequips.publishers]
    rfl
  · rw [Node.topicName, hequips.subscribers]
    rfl
  · rw [Node.copiesOf, hequips.subscribers]
    simp [Subscriber.create]

theorem heard_of_carries (hsetUp : ∀ i, (apps i).setUp = some (nodes i))
    (hfits : ∀ i, ∀ p ∈ (nodes i).publishers, p.packetSize ≤ maxDatagramSize)
    {as bs : List (BenchmarkAction ι)} {b₀ : Benchmark ι}
    (hreliable : ∀ a ∈ as ++ bs, a.IsReliable)
    (hrun : (initial nodes).run net apps clock as = some b₀)
    (hlater : b₀.run net apps clock bs = some b) (hcarries : Carries net apps clock i j b b')
    (hsmall : b'.system.broker.tables.Small) (hi : b₀.system.phase i = .connected)
    (hj : b₀.system.phase j = .connected)
    (htopic : (apps i).publishedTopic = (apps j).subscribedTopic) {n : ℕ}
    (hn : b₀.seen.length ≤ n) {message : Bytes}
    (hat : b.seen[n]? = some (.publish (i, 0) message true)) :
    ∃ m, n < m ∧ b'.seen[m]? = some (.callback (j, 0) message) := by
  have hnodes : ∀ i, Node.Created (nodes i) :=
    fun i => (BenchmarkNode.equips_of_setUp (hsetUp i)).created
  obtain ⟨cs, _, hcarried⟩ := hcarries.exists_run
  have hwhole : (initial nodes).run net apps clock (as ++ (bs ++ cs)) = some b' :=
    run_trans hrun (run_trans hlater hcarried)
  have hruns := run_bus hnodes hwhole
    (fun x _ _ p _ hp => hfits x p (List.mem_of_getElem? hp)) hsmall
  -- the message's number at its publisher
  obtain ⟨as', has', hrun', _⟩ := run_system hrun
  obtain ⟨bs', hbs', hlater', hgrown⟩ := run_system hlater
  obtain ⟨_, _, _, hgrown'⟩ := run_system hcarried
  have hstart : ∀ p, Bus.taken p (initial nodes).seen =
      acceptedPayloads ((initial nodes).system.ledger p.1).trace p.2 := fun _ => rfl
  have htaken₀ := run_taken hstart hrun (i, 0)
  have htaken := run_taken (run_taken hstart hrun) hlater (i, 0)
  obtain ⟨index, hindex⟩ : ∃ index, index = (Bus.taken (i, 0) (b.seen.take n)).length := ⟨_, rfl⟩
  have hafter : (acceptedPayloads (b₀.system.ledger i).trace 0).length ≤ index := by
    have hbefore : b₀.seen <+: b.seen.take n :=
      List.prefix_take_iff.mpr ⟨⟨_, hgrown.symm⟩, hn⟩
    rw [hindex, ← htaken₀]
    exact (hbefore.filterMap _).length_le
  have hlt : index < (acceptedPayloads (b.system.ledger i).trace 0).length := by
    rw [hindex, ← htaken]
    exact (List.getElem?_eq_some_iff.mp (Bus.getElem?_taken hat)).1
  obtain ⟨hpublisher, _, _⟩ := topicNames hsetUp i
  obtain ⟨_, hsubscriber, hcopies⟩ := topicNames hsetUp j
  rw [htopic] at hpublisher
  have hreliable' : ∀ action ∈ as' ++ bs', action.IsReliable := by
    rw [List.forall_mem_append] at hreliable ⊢
    exact ⟨reliable_of_translated has' hreliable.1, reliable_of_translated hbs' hreliable.2⟩
  have hhanded := System.handed_of_carried hnodes hfits hreliable' hrun' hlater' hcarries.carried
    hsmall hi hj hpublisher hsubscriber index hafter hlt
  rw [hcopies] at hhanded
  have hnlt := (List.getElem?_eq_some_iff.mp hat).1
  apply hruns.answered
  · exact run_seen hcarried hat
  · rw [hgrown', List.take_append_of_le_length hnlt.le, ← hindex]
    apply System.mem_handed_of_ne_zero
    rw [hhanded]
    exact Nat.one_ne_zero

theorem small_of_run (hnodes : ∀ i, Node.Created (nodes i)) {as : List (BenchmarkAction ι)}
    (hchronicle : System.Chronicle net nodes b.system r)
    (hrun : b.run net apps clock as = some b') (hsmall : b'.system.broker.tables.Small) :
    b.system.broker.tables.Small := by
  obtain ⟨actions, _, hsystem, _⟩ := run_system hrun
  obtain ⟨r', horderly, hkeeps, _⟩ :=
    System.run_history hnodes hchronicle.orderly hchronicle.history hsystem
  rw [← horderly.tables] at hsmall
  rw [← hchronicle.orderly.tables]
  exact hsmall.of_grows hkeeps.grows

/-- A ping that has been carried to a reflector, whose pong has then been carried to a generator,
has made the round trip. -/
theorem roundTrip_of_carries (hsetUp : ∀ i, (apps i).setUp = some (nodes i))
    (hfits : ∀ i, ∀ p ∈ (nodes i).publishers, p.packetSize ≤ maxDatagramSize)
    {as bs : List (BenchmarkAction ι)} {b₀ b'' : Benchmark ι} {g r i : ι}
    (hreliable : ∀ a ∈ as ++ bs, a.IsReliable)
    (hrun : (initial nodes).run net apps clock as = some b₀)
    (hlater : b₀.run net apps clock bs = some b) (hping : Carries net apps clock g r b b')
    (hpong : Carries net apps clock r i b' b'') (hsmall : b''.system.broker.tables.Small)
    (hconnected : ∀ x ∈ [g, r, i], b₀.system.phase x = .connected)
    (htypes : (apps g).benchNodeType = "generator" ∧ (apps r).benchNodeType = "reflector" ∧
      (apps i).benchNodeType = "generator")
    (hpartners : Partners (apps g) (apps r) ∧ Partners (apps r) (apps i)) {n₀ : ℕ}
    (hn₀ : b₀.seen.length ≤ n₀) {ping : Bytes}
    (hpublished : b.seen[n₀]? = some (.publish (g, 0) ping true)) :
    ∃ n₁ n₂ n₃, RoundTrip apps clock b'' g r i ping
      (BenchmarkHeader.stamp (b''.system.node r).nodeId ping) n₀ n₁ n₂ n₃ := by
  have hnodes : ∀ i, Node.Created (nodes i) :=
    fun i => (BenchmarkNode.equips_of_setUp (hsetUp i)).created
  obtain ⟨hg, hr, hi⟩ := htypes
  have hr' : (apps r).benchNodeType ≠ "generator" := by
    rw [hr]
    decide
  obtain ⟨cs, hcs, hcarried⟩ := hping.exists_run
  obtain ⟨ds, hds, hcarried'⟩ := hpong.exists_run
  have hlater' : b₀.run net apps clock (bs ++ cs) = some b' := run_trans hlater hcarried
  have hwhole' : (initial nodes).run net apps clock (as ++ (bs ++ cs)) = some b' :=
    run_trans hrun hlater'
  have hreliable' : ∀ a ∈ as ++ (bs ++ cs), a.IsReliable := by
    rw [← List.append_assoc]
    exact List.forall_mem_append.mpr ⟨hreliable, hcs⟩
  obtain ⟨_, r', hchronicle'⟩ := run_kept hnodes (System.chronicle_initial net nodes) hwhole'
  obtain ⟨hkept, _⟩ := run_kept hnodes hchronicle' hcarried'
  have hwhole'' : (initial nodes).run net apps clock (as ++ (bs ++ cs) ++ ds) = some b'' :=
    run_trans hwhole' hcarried'
  have hpublished'' := run_seen hcarried' (run_seen hcarried hpublished)
  obtain ⟨counter, hmade⟩ : ∃ counter, ping = BenchmarkHeader.ping (apps g).messageSize.toNat
      (b''.system.node g).nodeId (clock n₀) counter := by
    obtain ⟨_, hmade⟩ := (run_measured hsetUp hwhole'').made n₀ g 0 ping true hpublished''
    cases hmade with
    | ping counter _ => exact ⟨counter, rfl⟩
    | pong _ hg' => exact absurd hg hg'
  -- the reflector gets the ping
  obtain ⟨n₁, hn₁, harrived⟩ := heard_of_carries hsetUp hfits hreliable hrun hlater hping
    (small_of_run hnodes hchronicle' hcarried' hsmall) (hconnected g (by simp))
    (hconnected r (by simp)) (hpartners.1.topic (by simp [hg, hr'])) hn₀ hpublished
  have hlength : ping.length = (apps r).messageSize.toNat := by
    rw [hmade, BenchmarkHeader.length_ping, hpartners.1.messageSize]
  -- and publishes the pong, which the generator gets
  obtain ⟨hphase, hreflected⟩ :=
    (run_reflects hsetUp hreliable' hwhole').reflected n₁ r 0 ping harrived hr' hlength
  obtain ⟨n₃, hn₃, hreturned⟩ := heard_of_carries hsetUp hfits hreliable' hrun hlater' hpong hsmall
    (hconnected r (by simp)) (hconnected i (by simp)) (hpartners.2.topic (by simp [hi, hr']))
    (hn₀.trans (hn₁.le.trans (Nat.le_succ n₁))) hreflected
  rw [← (hkept r hphase).2] at hreflected hreturned
  exact ⟨n₁, n₁ + 1, n₃, ⟨hg, hr, hi⟩, hpartners, ⟨counter, hmade⟩, rfl,
    ⟨hn₁, Nat.lt_succ_self n₁, hn₃⟩, hpublished'', run_seen hcarried' harrived,
    run_seen hcarried' hreflected, hreturned⟩

/-! ## Carrying is always possible -/

theorem exists_spins (hnodes : ∀ i, Node.Created (nodes i))
    (hchronicle : System.Chronicle net nodes b.system r) (hphase : b.system.phase j = .connected)
    (receive : Bool) (n : ℕ) : ∃ b', b.run net apps clock
        (List.replicate n (.spin j receive fun _ _ => true)) = some b' ∧
      b'.system.broker = b.system.broker ∧
        b'.system.brokerRunning = b.system.brokerRunning := by
  induction n generalizing b r with
  | zero => exact ⟨b, rfl, rfl, rfl⟩
  | succ n ih =>
    obtain ⟨s₁, hsystem, hbroker, hrunning⟩ := @System.exists_spin_step _ _ net _ _ hphase receive
      (environment (apps j) (b.system.node j).nodeId fun _ _ => true)
    obtain ⟨b₁, hstep, rfl⟩ : ∃ b₁, b.step net apps clock (.spin j receive fun _ _ => true) =
        some b₁ ∧ b₁.system = s₁ := by
      simp only [Benchmark.step, Benchmark.action, hsystem, Option.bind_eq_bind, Option.bind_some]
      exact ⟨_, rfl, rfl⟩
    obtain ⟨r₁, horderly, _, hhistory⟩ :=
      System.step_history hnodes hchronicle.orderly hchronicle.history hsystem
    obtain ⟨b', hrun, hbroker', hrunning'⟩ := ih ⟨horderly, hhistory⟩
      (System.step_connected hchronicle.orderly hsystem hphase)
    refine ⟨b', ?_, hbroker'.trans hbroker, hrunning'.trans hrunning⟩
    rw [List.replicate_succ, run, hstep]
    exact hrun

theorem exists_carries (hnodes : ∀ i, Node.Created (nodes i))
    (hchronicle : System.Chronicle net nodes b.system r) (hi : b.system.phase i = .connected)
    (hj : b.system.phase j = .connected) (hrunning : b.system.brokerRunning = true) :
    ∃ b', Carries net apps clock i j b b' ∧
      b'.system.broker.tables = b.system.broker.tables ∧ b'.system.brokerRunning = true := by
  obtain ⟨b₁, hspin, hbroker₁, hrunning₁⟩ := @exists_spins _ _ net apps clock _ _ _ _ hnodes
    hchronicle hi false ((b.system.node i).queued (.publisher 0))
  obtain ⟨hkept₁, r₁, hchronicle₁⟩ := run_kept hnodes hchronicle hspin
  obtain ⟨s₂, hserve, hleads, _⟩ := System.exists_served (j := j) hnodes hchronicle₁ (hkept₁ i hi).1
    (hrunning₁.trans hrunning) rfl
  obtain ⟨b₂, hserve', rfl⟩ : ∃ b₂, b₁.run net apps clock
      (List.replicate (b₁.system.up i).length (.broker i)) = some b₂ ∧ b₂.system = s₂ := by
    apply exists_run_of_system _ hserve
    induction (b₁.system.up i).length with
    | zero => exact .nil
    | succ n ih => exact .cons (fun _ _ => rfl) ih
  obtain ⟨hkept₂, r₂, hchronicle₂⟩ := run_kept hnodes hchronicle₁ hserve'
  obtain ⟨b₃, hreceive, hbroker₃, hrunning₃⟩ := @exists_spins _ _ net apps clock _ _ _ _ hnodes
    hchronicle₂ (hkept₂ j (hkept₁ j hj).1).1 true (b₂.system.down j).length
  refine ⟨b₃, ⟨b₁, b₂, _, _, _, ?_, hspin, hserve', hreceive, ?_, ?_, ?_⟩, ?_, ?_⟩
  · simp only [List.forall_mem_append]
    refine ⟨fun a ha => ?_, fun a ha => ?_, fun a ha => ?_⟩
    · rw [List.eq_of_mem_replicate ha]
      exact fun _ _ => rfl
    · rw [List.eq_of_mem_replicate ha]
      trivial
    · rw [List.eq_of_mem_replicate ha]
      exact fun _ _ => rfl
  · simp [List.countP_replicate, BenchmarkAction.isSpin]
  · simp [List.countP_replicate, BenchmarkAction.isBroker]
  · simp [List.countP_replicate, BenchmarkAction.isReception]
  · rw [hbroker₃, hleads.tables, hbroker₁]
  · rw [hrunning₃, hleads.running, hrunning₁, hrunning]

theorem exists_run_of_handshake {actions : List (Action ι)}
    (hactions : ∀ action ∈ actions, action.IsHandshake) {s' : System ι}
    (hrun : b.system.run net actions = some s') :
    ∃ as b', (∀ a ∈ as, a.IsReliable) ∧ b.run net apps clock as = some b' ∧ b'.system = s' := by
  obtain ⟨as, hreliable, hmeans⟩ : ∃ as : List (BenchmarkAction ι), (∀ a ∈ as, a.IsReliable) ∧
      List.Forall₂ (fun a action => ∀ (b : Benchmark ι) now, b.action apps now a = some action)
        as actions := by
    clear hrun
    induction actions with
    | nil => exact ⟨[], by simp, .nil⟩
    | cons action actions ih =>
      obtain ⟨hfirst, hrest⟩ := List.forall_mem_cons.mp hactions
      obtain ⟨as, hreliable, hmeans⟩ := ih hrest
      obtain ⟨a, ha, hsame⟩ : ∃ a : BenchmarkAction ι, a.IsReliable ∧
          ∀ (b : Benchmark ι) now, b.action apps now a = some action := by
        cases action with
        | connect x => exact ⟨.connect x, trivial, fun _ _ => rfl⟩
        | rpcReturn x => exact ⟨.rpcReturn x, trivial, fun _ _ => rfl⟩
        | broker x => exact ⟨.broker x, trivial, fun _ _ => rfl⟩
        | _ => exact hfirst.elim
      exact ⟨a :: as, List.forall_mem_cons.mpr ⟨ha, hreliable⟩, .cons hsame hmeans⟩
  obtain ⟨b', hb', hs'⟩ := exists_run_of_system hmeans hrun
  exact ⟨as, b', hreliable, hb', hs'⟩

end Runs

/-! ## A generator and a reflector -/

def pairApps : Bool → BenchmarkNode
  | false => .create "bench_node" "bench" "bench_t" 24 1 "generator"
  | true => .create "bench_node" "bench" "bench_t" 24 1 "reflector"

def pairNodes : Bool → Node
  | false => ((Node.create "bench_node_generator").createPublisher "bench_ping" "bench_t" 24
      1).createSubscriber "bench_pong" "bench_t" 24 1
  | true => ((Node.create "bench_node_reflector").createPublisher "bench_pong" "bench_t" 24
      1).createSubscriber "bench_ping" "bench_t" 24 1

/-- A microsecond from event to event. -/
def pairClock (n : ℕ) : UInt64 := .ofNat (1000 * n)

theorem pair_setUp : ∀ i, (pairApps i).setUp = some (pairNodes i)
  | false => rfl
  | true => rfl

theorem pair_fits (i : Bool) : ∀ p ∈ (pairNodes i).publishers, p.packetSize ≤ maxDatagramSize := by
  cases i <;> decide

theorem pair_shortNames (i : Bool) : (pairNodes i).ShortNames := by cases i <;> decide

def generatorTables : Tables where
  nodes := [⟨"bench_node_generator", "a"⟩]
  messageTypes := [⟨"bench_t", 24⟩]
  topics := [⟨"bench_ping", 0, 1, [0], []⟩, ⟨"bench_pong", 0, 1, [], [0]⟩]

def pairTables : Tables where
  nodes := [⟨"bench_node_generator", "a"⟩, ⟨"bench_node_reflector", "b"⟩]
  messageTypes := [⟨"bench_t", 24⟩]
  topics := [⟨"bench_ping", 0, 1, [0], [1]⟩, ⟨"bench_pong", 0, 1, [1], [0]⟩]

theorem exists_pair_connected : ∃ as b, (∀ a ∈ as, a.IsReliable) ∧
    (initial pairNodes).run System.pairDeployment pairApps pairClock as = some b ∧
    (∀ i, b.system.phase i = .connected) ∧ (∀ i, (b.system.ledger i).trace = []) ∧
    b.system.brokerRunning = true ∧ b.system.broker.tables = pairTables := by
  obtain ⟨as, s, hactions, hrun, hphase, hrunning, htables⟩ := System.exists_both_connected
    (u := generatorTables) (t := pairTables) pair_shortNames (by decide) (by decide)
  obtain ⟨cs, b, hreliable, hb, rfl⟩ := @exists_run_of_handshake _ _ System.pairDeployment pairApps
    pairClock (initial pairNodes) _ hactions _ hrun
  exact ⟨cs, b, hreliable, hb, hphase, System.trace_of_handshake hactions hrun, hrunning, htables⟩

/-- The generator publishes a ping, which the reflector gets, and the generator the pong. -/
theorem exists_pair_carried : ∃ as b₀ b b' b'' ping,
    (∀ a ∈ as ++ [.ping false], a.IsReliable) ∧
    (initial pairNodes).run System.pairDeployment pairApps pairClock as = some b₀ ∧
    (∀ i, b₀.system.phase i = .connected) ∧
    b₀.run System.pairDeployment pairApps pairClock [.ping false] = some b ∧
    b.seen[b₀.seen.length]? = some (.publish (false, 0) ping true) ∧
    Carries System.pairDeployment pairApps pairClock false true b b' ∧
    Carries System.pairDeployment pairApps pairClock true false b' b'' ∧
    (∃ cs, (initial pairNodes).run System.pairDeployment pairApps pairClock cs = some b'') ∧
    b''.system.broker.tables.Small := by
  obtain ⟨as, b₀, hreliable, hrun, hphase, htrace, hrunning, htables⟩ :=
    exists_pair_connected
  have hnodes : ∀ i, Node.Created (pairNodes i) :=
    fun i => (BenchmarkNode.equips_of_setUp (pair_setUp i)).created
  obtain ⟨_, r₀, hchronicle₀⟩ := run_kept hnodes (System.chronicle_initial _ _) hrun
  obtain ⟨ping, hping⟩ : ∃ ping, ping = BenchmarkHeader.ping (pairApps false).messageSize.toNat
    (b₀.system.node false).nodeId (pairClock b₀.seen.length) (b₀.state false).counter := ⟨_, rfl⟩
  obtain ⟨b, hstep⟩ : ∃ b, b₀.step System.pairDeployment pairApps pairClock (.ping false) =
      some b := by
    have hgenerator : (pairApps false).benchNodeType = "generator" := rfl
    simp only [Benchmark.step, Benchmark.action, if_pos hgenerator, System.step,
      System.publishStep, hphase, Option.bind_eq_bind, Option.bind_some]
    exact ⟨_, rfl⟩
  obtain ⟨action, es, hmoves⟩ := exists_moves hstep
  obtain rfl : action = .publish false 0 (BenchmarkNode.pointer ping) := by
    rw [hping]
    exact (Option.some.inj hmoves.means).symm
  obtain ⟨_, hsystem⟩ := System.step_publish hmoves.system
  obtain ⟨hequipped, _, hcapacity, hbooks⟩ :=
    equips_connected pair_setUp hchronicle₀ (hphase false)
  have hevent : ((b₀.system.node false).publish 0 (BenchmarkNode.pointer ping)).2 =
      .publish 0 ping true := by
    obtain ⟨taken, hpublish⟩ := Node.publish_event (b₀.system.node false) 0
      (BenchmarkNode.pointer ping)
    rw [(sized_of_connected pair_setUp hchronicle₀ (hphase false)).payload
      (by rw [hping, BenchmarkHeader.length_ping])] at hpublish
    have hdoes := Node.Does.publish (n := b₀.system.node false) 0 (BenchmarkNode.pointer ping)
    rw [hpublish] at hdoes ⊢
    have htaken := hdoes.publish_taken
    rw [htrace] at hbooks
    have hnone : (b₀.system.node false).queued (.publisher 0) = 0 :=
      (Nat.eq_zero_of_add_eq_zero hbooks.symm).2
    rw [hcapacity, hnone] at htaken
    rw [htaken]
    rfl
  have hes : es = [.publish 0 ping true] := by
    have hmore := hmoves.trace
    rw [hsystem, hevent] at hmore
    simp only [Action.node, Function.update_self, Ledger.record_trace] at hmore
    exact (List.append_cancel_left hmore).symm
  have hat : b.seen[b₀.seen.length]? = some (.publish (false, 0) ping true) := by
    rw [hmoves.seen, List.getElem?_append_right (Nat.le_refl _), Nat.sub_self, hes]
    rfl
  have hpinged : b₀.run System.pairDeployment pairApps pairClock [.ping false] = some b := by
    rw [run, hstep]
    rfl
  obtain ⟨hkept, r, hchronicle⟩ := run_kept hnodes hchronicle₀ hpinged
  obtain ⟨b', hcarries, htables', hrunning'⟩ := @exists_carries _ _ _ pairApps pairClock _ _ _ false
    true hnodes hchronicle (hkept _ (hphase _)).1 (hkept _ (hphase _)).1 (by rw [hsystem, hrunning])
  obtain ⟨cs, _, hcarried⟩ := hcarries.exists_run
  obtain ⟨hkept', r', hchronicle'⟩ := run_kept hnodes hchronicle hcarried
  have hphase' : ∀ i, b'.system.phase i = .connected :=
    fun i => (hkept' i (hkept i (hphase i)).1).1
  obtain ⟨b'', hcarries', htables'', _⟩ := @exists_carries _ _ _ pairApps pairClock _ _ _ true false
    hnodes hchronicle' (hphase' true) (hphase' false) hrunning'
  obtain ⟨ds, _, hcarried'⟩ := hcarries'.exists_run
  refine ⟨as, b₀, b, b', b'', ping, ?_, hrun, hphase, hpinged, hat, hcarries, hcarries',
    ⟨as ++ ([.ping false] ++ (cs ++ ds)), ?_⟩, ?_⟩
  · refine List.forall_mem_append.mpr ⟨hreliable, fun a ha => ?_⟩
    rw [List.mem_singleton.mp ha]
    trivial
  · exact run_trans hrun (run_trans hpinged (run_trans hcarried hcarried'))
  · rw [htables'', htables', hsystem, htables]
    exact ⟨by decide, by decide, by decide⟩

end Benchmark
end Crps
