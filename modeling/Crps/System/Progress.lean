import Crps.Node.WhileWork
import Crps.System.Multiplicity

/-!
# Nothing gets stuck

From every state of a run over a reliable network a schedule leads on that
drains what is on its way from one node to another: the node sends what it has
queued, the broker serves its link, the other node receives. Nothing new is
published meanwhile. So every message can still be handed over as often as it
has to be.
-/

namespace Crps

namespace Node

variable {text : JsonText} {n : Node} {env : SpinEnvironment} {s s' : SpinState}

theorem visit_silent (hsilent : ∀ events k message, (env.callback events k message).publishes = [])
    (e f : Endpoint) :
    publishedTo (visit env s e).2.events f = publishedTo s.events f := by
  cases e with
  | subscriber k =>
    have hvisit : visit env s (.subscriber k) = visitSubscriber env s k := rfl
    rw [hvisit]
    unfold visitSubscriber
    split
    · rfl
    · split
      · rfl
      · simp only [hsilent, publishAll]
        cases f with
        | subscriber j => rfl
        | publisher j =>
          rw [publishedTo_append]
          rfl
  | publisher k =>
    have hvisit : visit env s (.publisher k) = visitPublisher env s k := rfl
    rw [hvisit]
    unfold visitPublisher
    have hsendto : ∀ packet sent, publishedTo (s.events ++ [.sendto k packet sent]) f =
        publishedTo s.events f := by
      intro packet sent
      rw [publishedTo_append]
      cases f <;> rfl
    split
    · rfl
    · split
      · rfl
      · simp only
        split_ifs
        · exact hsendto _ _
        · exact hsendto _ _

theorem visitAll_publishes_nothing
    (hsilent : ∀ events k message, (env.callback events k message).publishes = [])
    {es : List Endpoint} {ok : Bool} (h : visitAll env s es = (ok, s')) (f : Endpoint) :
    publishedTo s'.events f = publishedTo s.events f := by
  induction es generalizing s with
  | nil =>
    cases h
    rfl
  | cons e es ih =>
    simp only [visitAll] at h
    split at h
    · rw [ih h, visit_silent hsilent]
    · have hlast := visit_silent (s := s) hsilent e f
      rwa [h] at hlast

theorem spinOnce_transmits (hequipped : n.Equipped)
    (hsends : ∀ events packet, env.sendto events packet = true)
    {reception : Reception} {out : SpinOutcome} (hout : n.spinOnce text reception env = .ok out)
    {k : ℕ} (hqueued : n.queued (.publisher k) ≠ 0) : transmitted out.events k ≠ 0 := by
  have hbooks := (spinOnce_performs hout).queued k
  obtain ⟨n', events, processed, ok, s', hprocessed, hvisited, rfl⟩ := spinOnce_cases hout
  have hprocesses := processIncomingMessage_processes hprocessed
  obtain ⟨s'', hall⟩ :=
    @visitAll_sends env ⟨n', events, decide (0 < processed)⟩ hsends n'.visitOrder
  rw [hvisited] at hall
  cases hall
  have hindexed := indexed_of_config hprocesses.performs.config hequipped.indexed
  have horder : n'.visitOrder = n.visitOrder := congrArg
    (fun c : NodeConfig => endpointsByPrio c.topicsByPrio) hprocesses.performs.config
  have hlisted : .publisher k ∈ n'.visitOrder :=
    horder ▸ mem_visitOrder_of_queued hequipped.indexed hqueued
  have hupper := ((carried_visitAll (visitOrder_nodup hindexed) hvisited).2 _ hlisted).1
  have hstart : carried ⟨n', events, decide (0 < processed)⟩ (.publisher k) =
      n.queued (.publisher k) := by
    simp only [carried, hprocesses.publishedTo, queued_publisher_congr hprocesses.publishers]
    omega
  rw [hstart] at hupper
  simp only [carried] at hupper hbooks ⊢
  omega

theorem spinOnce_shrinks (hequipped : n.Equipped)
    (hsends : ∀ events packet, env.sendto events packet = true)
    (hsilent : ∀ events k message, (env.callback events k message).publishes = [])
    {reception : Reception} {out : SpinOutcome} (hout : n.spinOnce text reception env = .ok out)
    (k : ℕ) : publishedTo out.events (.publisher k) = 0 ∧
      out.node.queued (.publisher k) ≤ n.queued (.publisher k) - 1 := by
  have hbooks := (spinOnce_performs hout).queued k
  have htransmits := @spinOnce_transmits _ _ _ hequipped hsends _ _ hout k
  obtain ⟨n', events, processed, ok, s', hprocessed, hvisited, rfl⟩ := spinOnce_cases hout
  have hprocesses := processIncomingMessage_processes hprocessed
  have hpublished := (visitAll_publishes_nothing hsilent hvisited (.publisher k)).trans
    (hprocesses.publishedTo _)
  refine ⟨hpublished, ?_⟩
  simp only [hpublished] at hbooks htransmits ⊢
  by_cases hqueued : n.queued (.publisher k) = 0
  · omega
  · have hsome := htransmits hqueued
    omega

end Node

/-- A call of `spin_once` at node `i` or a reception at node `j`, in which every `sendto` succeeds
and callbacks do nothing, or an iteration of the broker for node `i`. -/
def Action.Drains {ι : Type} (i j : ι) : Action ι → Prop
  | .spin x receive env =>
    env = System.sending true ∧ (x = i ∧ receive = false ∨ x = j ∧ receive = true)
  | .broker x => x = i
  | _ => False

theorem Action.Drains.isReliable {ι : Type} {i j : ι} {a : Action ι}
    (h : a.Drains i j) : a.IsReliable := by
  cases a with
  | spin x receive env =>
    obtain ⟨rfl, _⟩ := h
    exact fun _ _ => rfl
  | broker => trivial
  | _ => exact h.elim

namespace System

variable {ι : Type} [DecidableEq ι] {net : Deployment ι} {nodes : ι → Node}
variable {s s' s₀ : System ι} {i j : ι} {r : Registry} {k l : ℕ}

/-- Such calls, receptions and iterations lead on; node `i` accepts no messages and the broker no
requests. -/
structure Leads (net : Deployment ι) (i j : ι) (s s' : System ι) : Prop where
  run : ∃ as, (∀ a ∈ as, a.Drains i j) ∧ s.run net as = some s'
  tables : s'.broker.tables = s.broker.tables
  running : s'.brokerRunning = s.brokerRunning
  accepted : ∀ l, acceptedPayloads (s'.ledger i).trace l = acceptedPayloads (s.ledger i).trace l

theorem Leads.refl (net : Deployment ι) (i j : ι) (s : System ι) : Leads net i j s s :=
  ⟨⟨[], by simp, rfl⟩, rfl, rfl, fun _ => rfl⟩

theorem Leads.trans {s'' : System ι} (h : Leads net i j s s') (h' : Leads net i j s' s'') :
    Leads net i j s s'' := by
  obtain ⟨as, has, hrun⟩ := h.run
  obtain ⟨bs, hbs, hrun'⟩ := h'.run
  refine ⟨⟨as ++ bs, List.forall_mem_append.mpr ⟨has, hbs⟩, ?_⟩, h'.tables.trans h.tables,
    h'.running.trans h.running, fun l => (h'.accepted l).trans (h.accepted l)⟩
  exact run_trans hrun hrun'

theorem Leads.of_step {a : Action ι} (ha : a.Drains i j) (hstep : s.step net a = some s')
    (htables : s'.broker.tables = s.broker.tables) (hrunning : s'.brokerRunning = s.brokerRunning)
    (haccepted : ∀ l, acceptedPayloads (s'.ledger i).trace l =
      acceptedPayloads (s.ledger i).trace l) : Leads net i j s s' := by
  refine ⟨⟨[a], by simpa using ha, ?_⟩, htables, hrunning, haccepted⟩
  rw [System.run, hstep]
  rfl

theorem Leads.chronicle (h : Leads net i j s s') (hnodes : ∀ i, Node.Created (nodes i))
    (hchronicle : Chronicle net nodes s r) : ∃ r', Chronicle net nodes s' r' := by
  obtain ⟨as, _, hrun⟩ := h.run
  obtain ⟨r', horderly, _, hhistory⟩ :=
    run_history hnodes hchronicle.orderly hchronicle.history hrun
  exact ⟨r', horderly, hhistory⟩

theorem Leads.connected (h : Leads net i j s s') (hnodes : ∀ i, Node.Created (nodes i))
    (hchronicle : Chronicle net nodes s r) {x : ι} (hphase : s.phase x = .connected) :
    s'.phase x = .connected := by
  obtain ⟨as, _, hrun⟩ := h.run
  exact hchronicle.orderly.run_connected hnodes hphase hrun

theorem exists_spin (hnodes : ∀ i, Node.Created (nodes i)) (h : Chronicle net nodes s r)
    {x : ι} (hphase : s.phase x = .connected) {reception : Reception}
    {origin : Option (MessageId ι)} {rest : List (Datagram ι)}
    (hreceipt : Receipt (s.down x) reception origin rest)
    (hx : x = i ∧ reception = .wouldBlock ∨ x = j ∧ ∃ bytes, reception = .datagram bytes) :
    ∃ (out : Node.SpinOutcome) (s' : System ι), Leads net i j s s' ∧ s' = { s with
        down := Function.update s.down x rest
        node := Function.update s.node x out.node
        up := Function.update s.up x (s.up x ++ dispatched x (s.ledger x).trace out.events)
        ledger := Function.update s.ledger x ((s.ledger x).recordAll origin out.events) } ∧
      (∀ k, transmitted out.events k + out.node.queued (.publisher k) =
        (s.node x).queued (.publisher k)) ∧
      ∀ k, out.node.queued (.publisher k) ≤ (s.node x).queued (.publisher k) - 1 := by
  obtain ⟨out, hout⟩ := h.orderly.spins hphase hreceipt (sending true)
  obtain ⟨_, _, hactive⟩ := (h.history x).active hphase
  have hshrinks := fun k => Node.spinOnce_shrinks (hactive.equipped hnodes)
    (show ∀ events packet, (sending true).sendto events packet = true from fun _ _ => rfl)
    (fun _ _ _ => rfl) hout k
  obtain ⟨receive, hdrains, hstep⟩ : ∃ receive,
      (Action.spin x receive (sending true)).Drains i j ∧
        s.step net (.spin x receive (sending true)) =
          some (s.spinWith net x reception origin rest (sending true)) := by
    cases hreceipt with
    | nothing =>
      have hi : x = i := by
        obtain hi | ⟨_, _, hdatagram⟩ := hx
        · exact hi.1
        · cases hdatagram
      refine ⟨false, ⟨rfl, .inl ⟨hi, rfl⟩⟩, ?_⟩
      simp only [step, spinStep, hphase]
    | datagram hwaiting =>
      have hj : x = j := by
        obtain ⟨_, hnothing⟩ | hj := hx
        · cases hnothing
        · exact hj.1
      refine ⟨true, ⟨rfl, .inr ⟨hj, rfl⟩⟩, ?_⟩
      simp only [step, spinStep, hphase, hwaiting]
  have hspun : s.spinWith net x reception origin rest (sending true) = { s with
      down := Function.update s.down x rest
      node := Function.update s.node x out.node
      up := Function.update s.up x (s.up x ++ dispatched x (s.ledger x).trace out.events)
      ledger := Function.update s.ledger x ((s.ledger x).recordAll origin out.events) } := by
    simp only [spinWith, hout]
  rw [hspun] at hstep
  refine ⟨out, _, .of_step hdrains hstep rfl rfl fun l => ?_, rfl, fun k => ?_,
    fun k => (hshrinks k).2⟩
  · by_cases hix : i = x
    · subst hix
      have hnone : acceptedPayloads out.events l = [] := by
        rw [← List.length_eq_zero_iff, Node.length_acceptedPayloads]
        exact (hshrinks l).1
      simp only [Function.update_self, Ledger.recordAll_trace, acceptedPayloads_append, hnone,
        List.append_nil]
    · simp only [Function.update_of_ne hix]
  · have hqueued := (Node.spinOnce_performs hout).queued k
    rw [(hshrinks k).1] at hqueued
    omega

/-- Call by call, all queues of a node's publishers get empty. -/
theorem exists_emptied (hnodes : ∀ i, Node.Created (nodes i)) (h : Chronicle net nodes s r)
    (hphase : s.phase i = .connected) {bound : ℕ}
    (hbound : ∀ k, (s.node i).queued (.publisher k) ≤ bound) :
    ∃ s', Leads net i j s s' ∧ ∀ k, (s'.node i).queued (.publisher k) = 0 := by
  induction bound generalizing s r with
  | zero => exact ⟨s, .refl net i j s, fun k => Nat.le_zero.mp (hbound k)⟩
  | succ bound ih =>
    obtain ⟨out, s₁, hleads, hs₁, _, hshrinks⟩ :=
      exists_spin hnodes h hphase .nothing (.inl ⟨rfl, rfl⟩)
    obtain ⟨r₁, h₁⟩ := hleads.chronicle hnodes h
    obtain ⟨s', hleads', hempty⟩ := ih h₁ (hleads.connected hnodes h hphase) fun k => by
      have hless := hshrinks k
      have hmore := hbound k
      rw [hs₁]
      simp only [Function.update_self]
      omega
    exact ⟨s', hleads.trans hleads', hempty⟩

theorem exists_bound (n : Node) : ∃ bound, ∀ k, n.queued (.publisher k) ≤ bound := by
  refine ⟨(n.publishers.map Publisher.messagesQueued).sum, fun k => ?_⟩
  cases hp : n.publishers[k]? with
  | none => simp [Node.queued, hp]
  | some p =>
    simp only [Node.queued, hp, Option.elim_some]
    exact List.single_le_sum (fun _ _ => Nat.zero_le _) _
      (List.mem_map_of_mem (List.mem_of_getElem? hp))

theorem exists_served (hnodes : ∀ i, Node.Created (nodes i)) (h : Chronicle net nodes s r)
    (hphase : s.phase i = .connected) (hrunning : s.brokerRunning = true)
    {waiting : List (Datagram ι)} (hup : s.up i = waiting) :
    ∃ s', s.run net (List.replicate waiting.length (.broker i)) = some s' ∧ Leads net i j s s' ∧
      s'.up i = [] ∧ s'.node = s.node := by
  induction waiting generalizing s r with
  | nil => exact ⟨s, rfl, .refl net i j s, hup, rfl⟩
  | cons d rest ih =>
    have hd : d.bytes.head? ≠ some 1 :=
      controls_eq_nil.mp (h.orderly.connected_up hphase) d.bytes
        (List.mem_map_of_mem (by rw [hup]; exact List.mem_cons_self))
    obtain ⟨it, hit, hstopped⟩ := @Broker.exists_spinIteration_notControl net.text s.broker
      (net.address i) d.bytes hd brokerSendto
    obtain ⟨s₁, hs₁⟩ : ∃ s₁, s₁ = { s with
        broker := it.broker
        brokerRunning := !it.stopped
        up := Function.update s.up i rest
        down := fun j => s.down j ++ arrivals net it d.origin j
        ledger := Function.update s.ledger i
          ((s.ledger i).judge d.bytes it.disposal.passedCounter) } := ⟨_, rfl⟩
    have hstep : s.step net (.broker i) = some s₁ := by
      simp only [step, brokerStep, hrunning, hup, hit, hs₁]
    have hleads : Leads net i j s s₁ := by
      refine .of_step (show (Action.broker i).Drains i j from rfl) hstep ?_ ?_ fun l => ?_
      · rw [hs₁]
        exact (Broker.spinIteration_notControl hd hit).1
      · rw [hs₁, hrunning, hstopped]
        rfl
      · simp only [hs₁, Function.update_self, Ledger.judge]
    obtain ⟨r₁, h₁⟩ := hleads.chronicle hnodes h
    obtain ⟨s', hrun, hleads', hempty, hnode⟩ := ih h₁ (hleads.connected hnodes h hphase)
      (hleads.running.trans hrunning) (by rw [hs₁]; exact Function.update_self ..)
    refine ⟨s', ?_, hleads.trans hleads', hempty, hnode.trans (by rw [hs₁])⟩
    rw [List.length_cons, List.replicate_succ, run, hstep]
    exact hrun

theorem exists_received (hnodes : ∀ i, Node.Created (nodes i)) (h : Chronicle net nodes s r)
    (hphase : s.phase j = .connected) (hup : s.up i = [])
    (hempty : ∀ k, (s.node i).queued (.publisher k) = 0) {waiting : List (Datagram ι)}
    (hdown : s.down j = waiting) :
    ∃ s', Leads net i j s s' ∧ s'.up i = [] ∧ s'.down j = [] ∧
      ∀ k, (s'.node i).queued (.publisher k) = 0 := by
  induction waiting generalizing s r with
  | nil => exact ⟨s, .refl net i j s, hup, hdown, hempty⟩
  | cons d rest ih =>
    obtain ⟨out, s₁, hleads, hs₁, hsent, _⟩ :=
      exists_spin hnodes h hphase (.datagram hdown) (.inr ⟨rfl, _, rfl⟩)
    obtain ⟨r₁, h₁⟩ := hleads.chronicle hnodes h
    have hstays : s₁.up i = [] ∧ ∀ k, (s₁.node i).queued (.publisher k) = 0 := by
      rw [hs₁]
      by_cases hij : i = j
      · subst hij
        have hnothing : ∀ k, transmitted out.events k = 0 ∧ out.node.queued (.publisher k) = 0 := by
          intro k
          have hcount := hsent k
          rw [hempty k] at hcount
          omega
        simp only [Function.update_self, hup, List.nil_append]
        refine ⟨?_, fun k => (hnothing k).2⟩
        apply List.eq_nil_iff_forall_not_mem.mpr
        intro d' hd'
        obtain ⟨k, hk⟩ := mem_dispatched hd'
        have hsome : 0 < transmitted out.events k := List.countP_pos_iff.mpr ⟨_, hk, by simp⟩
        rw [(hnothing k).1] at hsome
        exact Nat.lt_irrefl 0 hsome
      · simp only [Function.update_of_ne hij]
        exact ⟨hup, hempty⟩
    obtain ⟨s', hleads', hup', hdown', hempty'⟩ := ih h₁ (hleads.connected hnodes h hphase)
      hstays.1 hstays.2 (by rw [hs₁]; exact Function.update_self ..)
    exact ⟨s', hleads.trans hleads', hup', hdown', hempty'⟩

theorem exists_quiescent (hnodes : ∀ i, Node.Created (nodes i)) (h : Chronicle net nodes s r)
    (hi : s.phase i = .connected) (hj : s.phase j = .connected) (hrunning : s.brokerRunning = true)
    (l : ℕ) : ∃ s', Leads net i j s s' ∧ s'.Quiescent i l j := by
  obtain ⟨bound, hbound⟩ := exists_bound (s.node i)
  obtain ⟨s₁, hleads₁, hempty₁⟩ := exists_emptied (j := j) hnodes h hi hbound
  obtain ⟨r₁, h₁⟩ := hleads₁.chronicle hnodes h
  obtain ⟨s₂, _, hleads₂, hup₂, hnode₂⟩ := exists_served (j := j) hnodes h₁
    (hleads₁.connected hnodes h hi) (hleads₁.running.trans hrunning) rfl
  obtain ⟨r₂, h₂⟩ := hleads₂.chronicle hnodes h₁
  have hj₂ := hleads₂.connected hnodes h₁ (hleads₁.connected hnodes h hj)
  obtain ⟨s₃, hleads₃, hup₃, hdown₃, hempty₃⟩ := exists_received hnodes h₂ hj₂ hup₂
    (by rw [hnode₂]; exact hempty₁) rfl
  exact ⟨s₃, (hleads₁.trans hleads₂).trans hleads₃, hup₃, hdown₃, hempty₃ l⟩

/-- From every state of a reliable run the messages accepted so far can be handed over as often as
they have to be, and nothing else has to happen for it. -/
theorem exists_handed (hnodes : ∀ i, Node.Created (nodes i))
    (hfits : ∀ i, ∀ p ∈ (nodes i).publishers, p.packetSize ≤ maxDatagramSize)
    {as bs : List (Action ι)} (hreliable : ∀ a ∈ as ++ bs, a.IsReliable)
    (hrun : (initial nodes).run net as = some s₀) (hlater : s₀.run net bs = some s)
    (hsmall : s.broker.tables.Small) (hrunning : s.brokerRunning = true)
    (hi : s₀.phase i = .connected) (hj : s₀.phase j = .connected) {topicName : String}
    (hpublisher : (nodes i).topicName (.publisher l) = some topicName)
    (hsubscriber : (nodes j).topicName (.subscriber k) = some topicName) :
    ∃ s', Leads net i j s s' ∧ ∀ index, (acceptedPayloads (s₀.ledger i).trace l).length ≤ index →
      index < (acceptedPayloads (s.ledger i).trace l).length →
        handed s' i l j k index = (nodes j).copiesOf topicName := by
  obtain ⟨r₀, horderly₀, _, hhistory₀⟩ := run_history hnodes (orderly_initial net nodes)
    (history_initial net nodes) hrun
  obtain ⟨r, horderly, _, hhistory⟩ := run_history hnodes horderly₀ hhistory₀ hlater
  obtain ⟨s', hleads, hquiescent⟩ := exists_quiescent hnodes ⟨horderly, hhistory⟩
    (horderly₀.run_connected hnodes hi hlater) (horderly₀.run_connected hnodes hj hlater) hrunning l
  obtain ⟨cs, hcs, hrun'⟩ := hleads.run
  have hlater' : s₀.run net (bs ++ cs) = some s' := run_trans hlater hrun'
  have hreliable' : ∀ a ∈ as ++ (bs ++ cs), a.IsReliable := by
    rw [← List.append_assoc]
    exact List.forall_mem_append.mpr ⟨hreliable, fun a ha => (hcs a ha).isReliable⟩
  obtain ⟨r', h', hs', hcontinues⟩ :=
    run_continues hnodes hfits hreliable' hrun hlater' hi hj hpublisher hsubscriber
  obtain ⟨hconveys₀, hconveys, hcontinues⟩ := hcontinues (hleads.tables ▸ hsmall)
  obtain ⟨_, _, hactive₀⟩ := (hhistory₀ i).active hi
  obtain ⟨_, _, hactive'⟩ :=
    (h'.history i).active (horderly₀.run_connected hnodes hi hlater')
  have hbefore := hactive₀.books hnodes l
  have hmultiplied := hcontinues.multiplied hconveys₀ hconveys hs'
    (horderly₀.run_connected hnodes hj hlater') (by omega) (hactive'.books hnodes l)
  refine ⟨s', hleads, fun index hindex hlt => ?_⟩
  exact hmultiplied.exactly hquiescent index hindex (by rw [hleads.accepted l]; exact hlt)

end System
end Crps
