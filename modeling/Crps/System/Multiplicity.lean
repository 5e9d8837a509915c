import Crps.System.Reliable

/-!
# How often a message is handed over

The broker keeps one entry for every subscriber and sends a datagram for every
entry; the node hands every datagram to all its subscribers of the topic. So on
a network that loses nothing each subscriber is handed every message as often
as its node has subscribers of the topic: once, if there is no other.
-/

namespace Crps

/-- A node's subscribers of a topic. -/
def Node.copiesOf (n : Node) (topicName : String) : ℕ :=
  n.subscribers.countP fun sub => sub.topicName = topicName

namespace Tables

variable {t : Tables} {client name : String} {id : BpNodeId} {publishes subscribes : List TopicId}

theorem Standing.countP_address (h : t.Standing client name id publishes subscribes)
    (hknown : t.Known) {topicId : TopicId} {topic : Topic}
    (htopic : t.topics[topicId.toNat]? = some topic) :
    topic.subscribers.countP (fun x => Broker.nodeAddress t x == client) =
      subscribes.count topicId := by
  have hlist : t.subscribersOf topicId = topic.subscribers := by
    simp [subscribersOf, htopic]
  rw [← h.subscribers topicId, hlist, List.count]
  apply List.countP_congr
  intro x hx
  simp only [beq_iff_eq]
  constructor
  · intro haddress
    have hlt := hknown topicId x (List.mem_append_right _ (by rw [hlist]; exact hx))
    apply h.sole
    refine ⟨t.nodes[x.toNat], List.getElem?_eq_getElem hlt, ?_⟩
    simpa [Broker.nodeAddress, List.getElem?_eq_getElem hlt] using haddress
  · rintro rfl
    simp [Broker.nodeAddress, h.node]

theorem Binds.same_topicId (hnames : t.NamesDistinct) {e f : BoundTopic} (he : t.Binds e)
    (hf : t.Binds f) : e.topicId = f.topicId ↔ e.topicName = f.topicName := by
  obtain ⟨⟨topic, htopic, hname, _⟩, _⟩ := he
  obtain ⟨⟨topic', htopic', hname', _⟩, _⟩ := hf
  rw [← hname, ← hname', ← UInt32.toNat_inj]
  exact (name_eq_iff_index hnames.topics htopic htopic').symm

end Tables

namespace Broker

variable {text : JsonText} {b : Broker} {client : String} {it : Iteration}

theorem spinIteration_forwards {sendto : Sendto} {counter : BpCounter} {e : BoundTopic}
    {size : MessageSize} {payload : Bytes} (hsize : size.toNat = payload.length)
    (hlen : 17 + payload.length < 2 ^ 32) (hbinds : b.tables.Binds e)
    (hit : b.spinIteration text sendto client
      (dataHeaderBytes counter e.topicId e.messageTypeId size ++ payload) = .ok it)
    (hpassed : it.disposal.passedCounter = true) :
    ∃ topic, b.tables.topics[e.topicId.toNat]? = some topic ∧
      it.attempts = forward b.tables sendto
        (dataHeaderBytes counter e.topicId e.messageTypeId size ++ payload) topic.subscribers := by
  have hpass : (verifyAndUpdateClientCounter b.clientCounters client counter).1 = true := by
    have hverdict := spinIteration_verdict text
      (by rw [List.length_append, length_dataHeaderBytes]; omega) hit
    rw [hpassed] at hverdict
    have hcounter : packetCounter
        (dataHeaderBytes counter e.topicId e.messageTypeId size ++ payload) = counter :=
      packetCounter_data counter e.topicId e.messageTypeId size payload
    rw [hcounter] at hverdict
    exact (congrArg Prod.fst hverdict).symm
  rw [spinIteration_dataPacket sendto hsize hlen hpass] at hit
  injection hit with hit
  obtain ⟨⟨topic, htopic, _, htype⟩, hmessage⟩ := hbinds
  refine ⟨topic, htopic, ?_⟩
  have hlt := (List.getElem?_eq_some_iff.mp hmessage).1
  rw [← hit]
  simp only [processData, checked, htopic, not_le.mpr hlt, if_false, htype, ne_eq,
    not_true_eq_false]

end Broker

theorem Consigned.publisher {n : Node} {trace : List SpinEvent} {l index : ℕ} {packet : Bytes}
    (h : Consigned n.config trace l index packet) : ∃ p payload counter,
      n.publishers[l]? = some p ∧ p.info.Fits ∧ payload.length = p.messageSize.toNat ∧
        packet = dataHeaderBytes counter p.topicId p.messageTypeId p.messageSize ++ payload := by
  obtain ⟨info, payload, counter, hinfo, hfits, _, hlength, hpacket⟩ := h
  rw [Node.config, List.getElem?_map] at hinfo
  obtain ⟨p, hp, rfl⟩ := Option.map_eq_some_iff.mp hinfo
  exact ⟨p, payload, counter, hp, hfits, hlength, hpacket⟩

namespace System

variable {ι : Type} {net : Deployment ι} {nodes : ι → Node} {s s' : System ι} {i j : ι}
variable {r : Registry} {n₀ : Node} {requests : List Bytes}

/-! ## What the broker makes of a datagram -/

theorem Active.topicName (h : Active net nodes s r i n₀ requests) (e : Endpoint) :
    (s.node i).topicName e = (nodes i).topicName e := by
  rw [Node.topicName_of_config h.performs.config,
    Node.topicName_of_blueprint h.registered.blueprint]

theorem Active.standing (h : Active net nodes s r i n₀ requests) (hsmall : r.tables.Small) :
    r.tables.Standing (net.address i) n₀.name n₀.nodeId (n₀.publishers.map Publisher.topicId)
      (n₀.subscribers.map Subscriber.topicId) := by
  have hstanding := h.registered.standing hsmall
  rwa [List.take_length, List.take_length] at hstanding

theorem Active.copies (h : Active net nodes s r j n₀ requests) (hsmall : r.tables.Small)
    {e : BoundTopic} (he : r.tables.Binds e) :
    (n₀.subscribers.map Subscriber.topicId).count e.topicId = (nodes j).copiesOf e.topicName := by
  have hnames : n₀.subscribers.map Subscriber.topicName =
      (nodes j).subscribers.map Subscriber.topicName := by
    have hblueprint := congrArg (fun b => b.2.2.map Subscriber.topicName) h.registered.blueprint
    simpa [Node.blueprint, Function.comp_def, Subscriber.blueprint, Subscriber.setTopicId,
      Subscriber.setMessageTypeId, Subscriber.setTopicPriority] using hblueprint
  have hcount := congrArg (List.countP fun topicName => decide (topicName = e.topicName)) hnames
  rw [List.countP_map, List.countP_map] at hcount
  rw [Node.copiesOf, ← Function.comp_def (fun topicName => decide (topicName = e.topicName)),
    ← hcount, List.count, List.countP_map]
  apply List.countP_congr
  intro sub hsub
  have hbinds := h.registered.subscribers hsmall sub (by rwa [List.take_length])
  have hiff := hbinds.same_topicId r.names he
  simpa [Subscriber.boundTopic] using hiff

theorem length_arrivals {t : Tables} {packet : Bytes} {subscribers : List BpNodeId}
    {it : Iteration} (hit : it.attempts = Broker.forward t brokerSendto packet subscribers)
    (hsize : packet.length ≤ maxDatagramSize) (origin : Option (MessageId ι)) (j : ι) :
    (arrivals net it origin j).length =
      subscribers.countP fun x => Broker.nodeAddress t x == net.address j := by
  rw [arrivals, List.length_map, ← List.countP_eq_length_filter, hit, Broker.forward]
  have hmap : (subscribers.mapIdx fun k id => (⟨Broker.nodeAddress t id, packet,
      brokerSendto k (Broker.nodeAddress t id) packet⟩ : SendAttempt)) =
      subscribers.map fun id => ⟨Broker.nodeAddress t id, packet, true⟩ := by
    apply List.ext_getElem?
    intro k
    simp [brokerSendto, hsize]
  simp only [hmap, List.countP_map]
  rfl

theorem numbers_singleton [DecidableEq ι] (i : ι) (l : ℕ) (o : Option (MessageId ι)) :
    numbers i l [o] = [] ∨ ∃ index, o = some ⟨i, l, index⟩ := by
  cases o with
  | none => exact .inl rfl
  | some m =>
    by_cases hm : m.node = i ∧ m.publisher = l
    · obtain ⟨rfl, rfl⟩ := hm
      exact .inr ⟨m.index, rfl⟩
    · left
      simp [numbers, numberFrom, hm]

theorem numbers_arrivals [DecidableEq ι] (hchronicle : Chronicle net nodes s r)
    (hsmall : r.tables.Small) (hi : s.phase i = .connected) (hj : s.phase j = .connected)
    (hfits : ∀ p ∈ (nodes i).publishers, p.packetSize ≤ maxDatagramSize)
    {d : Datagram ι} (hd : s.Sound d) {it : Iteration}
    (hit : s.broker.spinIteration net.text brokerSendto (net.address i) d.bytes = .ok it)
    (hpassed : it.disposal.passedCounter = true) {l : ℕ} {topicName : String}
    (htopic : (nodes i).topicName (.publisher l) = some topicName) :
    numbers i l ((arrivals net it d.origin j).map Datagram.origin) =
      copied ((nodes j).copiesOf topicName) (numbers i l [d.origin]) := by
  rw [map_origin_arrivals, numbers_replicate]
  rcases numbers_singleton i l d.origin with hnone | ⟨index, horigin⟩
  · rw [hnone]
    rfl
  · rcases hd with ⟨hcontrol, _⟩ | ⟨m, hm, hconsigned⟩
    · rw [hcontrol] at horigin
      cases horigin
    · rw [horigin, Option.some.injEq] at hm
      subst hm
      obtain ⟨p, payload, counter, hp, ⟨hheader, hroom⟩, hlength, hpacket⟩ := hconsigned.publisher
      obtain ⟨_, _, hsender⟩ := (hchronicle.history i).active hi
      obtain ⟨_, _, hreceiver⟩ := (hchronicle.history j).active hj
      have hbinds := (hsender.confirms hsmall).endpoints p.boundTopic
        (List.mem_append_left _ (List.mem_map_of_mem (List.mem_of_getElem? hp)))
      have hname : p.topicName = topicName := by
        have hname := hsender.topicName (.publisher l)
        rw [htopic, Node.topicName, hp] at hname
        exact Option.some.inj hname
      rw [hpacket] at hit
      rw [hheader] at hroom
      obtain ⟨topic, htable, hattempts⟩ := Broker.spinIteration_forwards (e := p.boundTopic)
        hlength.symm (by rw [hlength]; exact hroom) (hchronicle.orderly.tables ▸ hbinds) hit hpassed
      have hsize : d.bytes.length ≤ maxDatagramSize := by
        have hfit := hsender.fits hfits p (List.mem_of_getElem? hp)
        have hpacketSize : p.packetSize = 17 + p.messageSize.toNat :=
          congrArg (· + p.messageSize.toNat) hheader
        rw [hpacket, List.length_append, length_dataHeaderBytes, hlength, ← hpacketSize]
        exact hfit
      rw [hpacket] at hsize
      rw [length_arrivals hattempts hsize, ← hchronicle.orderly.tables,
        (hreceiver.standing hsmall).countP_address r.known
          (hchronicle.orderly.tables ▸ htable), hreceiver.copies hsmall hbinds, ← hname]
      rfl

/-! ## What a node makes of a datagram -/

theorem queuedAt_eq_length {n n' : Node} {es : List SpinEvent} (h : n.Performs es n')
    (hempty : ∀ k, n.incoming k = []) (hempty' : ∀ k, n'.incoming k = []) (k : ℕ) :
    queuedAt k es = (deliveredTo k es).length := by
  have hstart : ({} : Ledger Unit).Tallies n fun _ _ _ => True := by
    refine ⟨fun k => ?_, fun k m hm => ?_⟩
    · rw [hempty]
      exact .nil
    · cases hm
  obtain ⟨hend, horigins⟩ := hstart.performs none h fun _ _ _ => trivial
  have hinbox := hend.queued k
  rw [hempty', List.forall₂_nil_right_iff] at hinbox
  have hdelivered := congrArg List.length
    (Ledger.recordAll_delivered (ι := Unit) none {} es k)
  have hlength := congrArg List.length (horigins k)
  rw [Ledger.origins, hinbox, List.append_nil, List.length_map] at hlength
  rw [List.length_map, List.length_append] at hdelivered
  simp only [Ledger.origins, List.map_nil, List.append_nil, List.nil_append, List.length_nil,
    List.length_replicate, Nat.zero_add] at hlength hdelivered
  rw [← hlength, hdelivered]

theorem numbers_queued [DecidableEq ι] (hnodes : ∀ i, Node.Created (nodes i))
    (hchronicle : Chronicle net nodes s r) (hsmall : r.tables.Small)
    (hempty : ∀ k, (s.node j).incoming k = []) (hi : s.phase i = .connected)
    (hj : s.phase j = .connected) {d : Datagram ι} (hd : s.Sound d) {env : SpinEnvironment}
    {out : Node.SpinOutcome}
    (hout : (s.node j).spinOnce net.text (.datagram d.bytes) env = .ok out)
    (hok : out.result ≠ .error) {l k : ℕ} {topicName : String}
    (hpublisher : (nodes i).topicName (.publisher l) = some topicName)
    (hsubscriber : (nodes j).topicName (.subscriber k) = some topicName) :
    numbers i l (List.replicate (queuedAt k out.events) d.origin) = numbers i l [d.origin] := by
  rw [numbers_replicate]
  rcases numbers_singleton i l d.origin with hnone | ⟨index, horigin⟩
  · rw [hnone]
    rfl
  · rcases hd with ⟨hcontrol, _⟩ | ⟨m, hm, hconsigned⟩
    · rw [hcontrol] at horigin
      cases horigin
    · rw [horigin, Option.some.injEq] at hm
      subst hm
      obtain ⟨p, payload, counter, hp, ⟨hheader, hroom⟩, hlength, hpacket⟩ := hconsigned.publisher
      obtain ⟨_, _, hsender⟩ := (hchronicle.history i).active hi
      obtain ⟨_, _, hreceiver⟩ := (hchronicle.history j).active hj
      have hname := hsender.topicName (.publisher l)
      have hname' := hreceiver.topicName (.subscriber k)
      rw [hpublisher, Node.topicName, hp] at hname
      rw [hsubscriber, Node.topicName] at hname'
      obtain ⟨sub, hsub, hsubName⟩ := Option.map_eq_some_iff.mp hname'
      have hbinds := (hsender.confirms hsmall).endpoints p.boundTopic
        (List.mem_append_left _ (List.mem_map_of_mem (List.mem_of_getElem? hp)))
      have hbinds' := (hreceiver.confirms hsmall).endpoints sub.boundTopic
        (mem_boundTopics_subscriber hsub)
      have hid : sub.topicId = p.topicId := (hbinds'.same_topicId r.names hbinds).mpr
        (hsubName.trans (Option.some.inj hname).symm)
      rw [hheader] at hroom
      have hsubInfo : (s.node j).config.subscribers[k]? = some sub.info := by
        rw [Node.config, List.getElem?_map, hsub]
        rfl
      have hmessage := (@Node.messageFor_dataPacket net.text (s.node j) counter p.topicId
        p.messageTypeId p.messageSize payload _ hreceiver.indexed hlength.symm
        (by rw [hlength]; exact hroom) k sub.info hsubInfo).mpr hid
      rw [← hpacket] at hmessage
      obtain ⟨honce, _, hempty'⟩ :=
        (hreceiver.equipped hnodes).spinOnce_delivers hempty hout hok
      rw [queuedAt_eq_length (Node.spinOnce_performs hout) hempty hempty', honce k _ hsubInfo]
      obtain ⟨message, hsome⟩ := Option.isSome_iff_exists.mp hmessage
      rw [hsome]
      exact copied_one _

/-! ## Everything on its way -/

section Stream

variable [DecidableEq ι] (c : ℕ) (i : ι) (l : ℕ)

/-- The passage of a publisher's messages, where one that is still on its way to the broker counts
as all the copies to come. -/
def stream (s : System ι) (j : ι) (k : ℕ) : List ℕ :=
  numbers i l ((s.ledger j).origins k) ++ numbers i l ((s.down j).map Datagram.origin) ++
    copied c (numbers i l ((s.up i).map Datagram.origin))

/-- From one state to a later one nothing is lost, and what goes out comes last. -/
def Continues (s s' : System ι) (j : ι) (k : ℕ) : Prop :=
  ∃ count, stream c i l s' j k = stream c i l s j k ++
      copied c (List.range' (transmitted (s.ledger i).trace l) count) ∧
    transmitted (s'.ledger i).trace l = transmitted (s.ledger i).trace l + count

variable {c i l} {k : ℕ}

theorem Continues.refl (s : System ι) (j : ι) (k : ℕ) : Continues c i l s s j k :=
  ⟨0, (List.append_nil _).symm, rfl⟩

theorem Continues.trans {s'' : System ι} (h : Continues c i l s s' j k)
    (h' : Continues c i l s' s'' j k) : Continues c i l s s'' j k := by
  obtain ⟨count, hstream, htransmitted⟩ := h
  obtain ⟨count', hstream', htransmitted'⟩ := h'
  refine ⟨count + count', ?_, ?_⟩
  · rw [hstream', hstream, htransmitted, List.append_assoc, ← copied_append,
      List.range'_append_1]
  · rw [htransmitted', htransmitted, Nat.add_assoc]

theorem Continues.quiet (hstream : stream c i l s' j k = stream c i l s j k)
    (htrace : transmitted (s'.ledger i).trace l = transmitted (s.ledger i).trace l) :
    Continues c i l s s' j k :=
  ⟨0, hstream.trans (List.append_nil _).symm, htrace⟩

theorem Continues.same (horigins : (s'.ledger j).origins k = (s.ledger j).origins k)
    (hdown : s'.down j = s.down j) (hup : s'.up i = s.up i)
    (htrace : (s'.ledger i).trace = (s.ledger i).trace) : Continues c i l s s' j k := by
  refine .quiet ?_ (by rw [htrace])
  unfold stream
  rw [horigins, hdown, hup]

theorem continueConnect_continues {x : ι} (hix : i ≠ x) (hjx : j ≠ x) (n : Node)
    (m : Session Node Json Json Fault Bool) :
    Continues c i l s (s.continueConnect net x n m) j k := by
  apply Continues.same
  · simp [continueConnect, hjx]
  · rfl
  · simp [continueConnect, hix]
  · simp [continueConnect, hix]

theorem broker_continues {x : ι} {d : Datagram ι} {rest : List (Datagram ι)} {it : Iteration}
    (hwired : Wired s) (hup : s.up x = d :: rest) (hup' : s'.up = Function.update s.up x rest)
    (hdown : s'.down j = s.down j ++ arrivals net it d.origin j)
    (horigins : (s'.ledger j).origins k = (s.ledger j).origins k)
    (htrace : (s'.ledger i).trace = (s.ledger i).trace)
    (hcopies : x = i → numbers i l ((arrivals net it d.origin j).map Datagram.origin) =
      copied c (numbers i l [d.origin])) : Continues c i l s s' j k := by
  refine .quiet ?_ (by rw [htrace])
  unfold stream
  rw [horigins, hdown, List.map_append, numbers_append, hup']
  by_cases hix : i = x
  · subst hix
    rw [Function.update_self, hcopies rfl, hup, List.map_cons,
      numbers_cons i l d.origin (rest.map _), copied_append]
    simp only [List.append_assoc]
  · have hforeign : numbers i l ((arrivals net it d.origin j).map Datagram.origin) = [] := by
      apply numbers_eq_nil
      intro o ho m hm
      obtain ⟨d', hd', rfl⟩ := List.mem_map.mp ho
      rw [(mem_arrivals hd').1] at hm
      have hnode := (hwired.up x d (by rw [hup]; exact List.mem_cons_self)).2 m hm
      rw [hnode]
      exact Ne.symm hix
    rw [Function.update_of_ne hix, hforeign, List.append_nil]

theorem spin_continues {x : ι} {reception : Reception} {origin : Option (MessageId ι)}
    {rest : List (Datagram ι)} {events : List SpinEvent}
    (hreceipt : Receipt (s.down x) reception origin rest)
    (hdown : s'.down = Function.update s.down x rest)
    (hup : s'.up = Function.update s.up x
      (s.up x ++ dispatched x (s.ledger x).trace events))
    (hledger : ∀ y, y ≠ x → s'.ledger y = s.ledger y)
    (htrace : (s'.ledger x).trace = (s.ledger x).trace ++ events)
    (horigins : (s'.ledger x).origins k =
      (s.ledger x).origins k ++ List.replicate (queuedAt k events) origin)
    (honce : x = j → numbers i l (List.replicate (queuedAt k events) origin) =
      numbers i l [origin])
    (hnothing : reception = .wouldBlock → queuedAt k events = 0) :
    Continues c i l s s' j k := by
  have harrives : numbers i l ((s'.ledger j).origins k) ++
      numbers i l ((s'.down j).map Datagram.origin) =
        numbers i l ((s.ledger j).origins k) ++ numbers i l ((s.down j).map Datagram.origin) := by
    by_cases hjx : j = x
    · subst hjx
      rw [horigins, numbers_append, honce rfl, hdown, Function.update_self]
      cases hreceipt with
      | nothing =>
        have hnone := honce rfl
        rw [hnothing rfl] at hnone
        rw [← hnone]
        simp [numbers]
      | @datagram d _ hwaiting =>
        rw [hwaiting, List.map_cons, numbers_cons i l d.origin (rest.map _), List.append_assoc]
    · rw [hledger j hjx, hdown, Function.update_of_ne hjx]
  by_cases hix : i = x
  · subst hix
    refine ⟨transmitted events l, ?_, by rw [htrace, transmitted_append]⟩
    unfold stream
    rw [harrives, hup, Function.update_self, List.map_append, numbers_append, numbers_dispatched,
      copied_append]
    simp only [List.append_assoc]
  · refine .quiet ?_ (by rw [hledger i hix])
    unfold stream
    rw [harrives, hup, Function.update_of_ne hix]

end Stream

section Runs

variable [DecidableEq ι] {l k : ℕ} {topicName : String} {s₀ : System ι}

/-- From a publisher to a subscriber of its topic every step continues the stream. -/
theorem step_continues (hnodes : ∀ i, Node.Created (nodes i))
    (hfits : ∀ p ∈ (nodes i).publishers, p.packetSize ≤ maxDatagramSize)
    (h : Chronicle net nodes s r) {r' : Registry} (h' : Chronicle net nodes s' r')
    (hsmall : r.tables.Small) (hconveys : Conveys s) (hreliable : Reliable net s)
    (hreliable' : Reliable net s') (hi : s.phase i = .connected) (hj : s.phase j = .connected)
    (hpublisher : (nodes i).topicName (.publisher l) = some topicName)
    (hsubscriber : (nodes j).topicName (.subscriber k) = some topicName)
    {a : Action ι} (ha : a.IsReliable) (hstep : s.step net a = some s') :
    Continues ((nodes j).copiesOf topicName) i l s s' j k := by
  have hlater := h.later hstep
  have hne : ∀ {x y : ι}, s.phase y = .connected → s.phase x ≠ .connected → y ≠ x := by
    rintro x y hy hx rfl
    exact hx hy
  cases a with
  | connect x =>
    obtain ⟨hphase, rfl⟩ := step_connect hstep
    have hx : s.phase x ≠ .connected := by simp [hphase]
    exact continueConnect_continues (hne hi hx) (hne hj hx) _ _
  | rpcReturn x =>
    obtain ⟨resume, d, rest, hphase, _, hcases⟩ := step_rpcReturn hstep
    have hx : s.phase x ≠ .connected := by simp [hphase]
    have hreceived : Continues ((nodes j).copiesOf topicName) i l s
        { s with down := Function.update s.down x rest } j k :=
      .same rfl (Function.update_of_ne (hne hj hx) _ _) rfl rfl
    rcases hcases with ⟨fault, _, rfl⟩ | ⟨n, response, _, rfl⟩
    · exact .same rfl (Function.update_of_ne (hne hj hx) _ _) rfl rfl
    · exact hreceived.trans (continueConnect_continues (hne hi hx) (hne hj hx) _ _)
  | broker x =>
    obtain ⟨_, d, rest, hup, hcases⟩ := step_broker hstep
    have hd := hconveys.wired.up x d (by rw [hup]; exact List.mem_cons_self)
    rcases hcases with ⟨fault, hfault, hs'⟩ | ⟨it, hit, hs'⟩
    · have hix : i ≠ x := by
        rintro rfl
        have hcontrols := controls_eq_nil.mp (h.orderly.connected_up hi) d.bytes
          (List.mem_map_of_mem (by rw [hup]; exact List.mem_cons_self))
        obtain ⟨it, hit, _⟩ := @Broker.exists_spinIteration_notControl net.text s.broker
          (net.address i) d.bytes hcontrols brokerSendto
        rw [hfault] at hit
        cases hit
      subst hs'
      exact .same rfl rfl (Function.update_of_ne hix _ _) rfl
    · have hledger : ∀ y, (s'.ledger y).trace = (s.ledger y).trace ∧
          (s'.ledger y).origins k = (s.ledger y).origins k := by
        intro y
        by_cases hyx : y = x
        · subst hyx
          simp [hs', Ledger.judge, Ledger.origins]
        · simp [hs', hyx]
      refine broker_continues hconveys.wired hup (by rw [hs']) (by rw [hs']) (hledger j).2
        (hledger i).1 ?_
      rintro rfl
      obtain ⟨_, _, hactive'⟩ := (h'.history x).active (step_connected h.orderly hstep hi)
      have haccepted := hreliable'.accepted hnodes hactive' hfits
        (d.bytes, it.disposal.passedCounter) (by
          rw [hs']
          simp [Ledger.judge])
      exact numbers_arrivals h hsmall hi hj hfits hd.1 hit haccepted hpublisher
  | publish x p data =>
    obtain ⟨_, hs'⟩ := step_publish hstep
    have hledger : ∀ y, transmitted (s'.ledger y).trace l = transmitted (s.ledger y).trace l ∧
        (s'.ledger y).origins k = (s.ledger y).origins k := by
      intro y
      by_cases hyx : y = x
      · subst hyx
        rw [hs']
        simp only [Function.update_self]
        unfold Node.publish
        split
        · exact ⟨by rw [Ledger.record_trace, transmitted_append]; rfl, rfl⟩
        · exact ⟨by rw [Ledger.record_trace, transmitted_append]; rfl, rfl⟩
      · simp [hs', hyx]
    refine .quiet ?_ (hledger i).1
    unfold stream
    rw [(hledger j).2, hs']
  | spin x receive env =>
    obtain ⟨hphase, reception, origin, rest, hreceipt, hcases⟩ := step_spin hstep
    rcases hcases with ⟨fault, hfault, _⟩ | ⟨out, hout, hs'⟩
    · obtain ⟨out, hout⟩ := h.orderly.spins hphase hreceipt env
      rw [hfault] at hout
      cases hout
    · have hledger : s'.ledger x = (s.ledger x).recordAll origin out.events := by
        rw [hs']
        exact Function.update_self ..
      obtain ⟨_, horigins⟩ := spin_records hnodes h hsmall hconveys.wired hconveys.recorded hphase
        hreceipt hout hlater (by rw [hs']; exact Function.update_self ..) hledger
      refine spin_continues hreceipt (by rw [hs']) (by rw [hs']) (fun y hyx => ?_) ?_ (horigins k)
        ?_ ?_
      · rw [hs']
        exact Function.update_of_ne hyx _ _
      · rw [hledger, Ledger.recordAll_trace]
      · rintro rfl
        cases hreceipt with
        | nothing =>
          rw [queuedAt_of_wouldBlock hout]
          rfl
        | @datagram d _ hwaiting =>
          have hd := hconveys.wired.down x d (by rw [hwaiting]; exact List.mem_cons_self)
          exact numbers_queued hnodes h hsmall (hreliable.drained x hphase) hi hphase hd hout
            (Node.spinOnce_sendResults ha hout).2 hpublisher hsubscriber
      · rintro rfl
        exact queuedAt_of_wouldBlock hout k
  | loseUp => exact ha.elim
  | loseDown => exact ha.elim

/-- Whatever the other nodes do, on a network that loses nothing the stream goes on. -/
theorem run_continues (hnodes : ∀ i, Node.Created (nodes i))
    (hfits : ∀ i, ∀ p ∈ (nodes i).publishers, p.packetSize ≤ maxDatagramSize)
    {as bs : List (Action ι)} (hreliable : ∀ a ∈ as ++ bs, a.IsReliable)
    (hrun : (initial nodes).run net as = some s₀) (hlater : s₀.run net bs = some s)
    (hi : s₀.phase i = .connected) (hj : s₀.phase j = .connected)
    (hpublisher : (nodes i).topicName (.publisher l) = some topicName)
    (hsubscriber : (nodes j).topicName (.subscriber k) = some topicName) :
    ∃ r, Chronicle net nodes s r ∧ Reliable net s ∧ (s.broker.tables.Small →
      Conveys s₀ ∧ Conveys s ∧ Continues ((nodes j).copiesOf topicName) i l s₀ s j k) := by
  have hfit : ∀ (s : System ι) x, DatagramsFit (nodes x) (s.ledger x).trace :=
    fun _ x _ _ p _ hp => hfits x p (List.mem_of_getElem? hp)
  obtain ⟨r₀, h₀, hreliable₀⟩ := run_chronicle hnodes (reliable_initial net nodes)
    (fun a ha _ _ _ _ h h' _ hs hstep =>
      hs.step hnodes h h' (hreliable a (List.mem_append_left _ ha)) hstep) hrun
  obtain ⟨r, h, hs, _, _, hcontinues⟩ := run_invariant
    (P := fun s => ∃ r, Chronicle net nodes s r ∧ Reliable net s ∧ s.phase i = .connected ∧
      s.phase j = .connected ∧ (s.broker.tables.Small →
        Conveys s₀ ∧ Conveys s ∧ Continues ((nodes j).copiesOf topicName) i l s₀ s j k))
    (fun a ha s₁ s₂ hs₁ hstep => by
      obtain ⟨r₁, h₁, hreliable₁, hi₁, hj₁, hcontinues₁⟩ := hs₁
      obtain ⟨r₂, horderly, hkeeps, hhistory⟩ := step_history hnodes h₁.orderly h₁.history hstep
      have h₂ : Chronicle net nodes s₂ r₂ := ⟨horderly, hhistory⟩
      have ha' := hreliable a (List.mem_append_right _ ha)
      have hreliable₂ := hreliable₁.step hnodes h₁ h₂ ha' hstep
      refine ⟨r₂, h₂, hreliable₂, step_connected h₁.orderly hstep hi₁,
        step_connected h₁.orderly hstep hj₁, fun hsmall => ?_⟩
      rw [← horderly.tables] at hsmall
      have hsmall₁ := hsmall.of_grows hkeeps.grows
      obtain ⟨hconveys₀, hconveys₁, hcontinues⟩ := hcontinues₁ (h₁.orderly.tables ▸ hsmall₁)
      exact ⟨hconveys₀, hconveys₁.step hnodes h₁ hsmall₁ hstep (hfit s₂),
        hcontinues.trans (step_continues hnodes (hfits i) h₁ h₂ hsmall₁ hconveys₁ hreliable₁
          hreliable₂ hi₁ hj₁ hpublisher hsubscriber ha' hstep)⟩)
    ⟨r₀, h₀, hreliable₀, hi, hj, fun hsmall =>
      have hconveys := run_conveys hnodes hrun (hfit s₀) hsmall
      ⟨hconveys, hconveys, .refl s₀ j k⟩⟩ hlater
  exact ⟨r, h, hs, hcontinues⟩

end Runs

/-! ## How often -/

section Handed

variable [DecidableEq ι] {l k : ℕ} {topicName : String} {s₀ : System ι}

/-- How often subscriber `k` of node `j` has been handed message `index` of publisher `l` of
node `i`. -/
def handed (s : System ι) (i : ι) (l : ℕ) (j : ι) (k index : ℕ) : ℕ :=
  (((s.ledger j).delivered k).map Prod.fst).count (some ⟨i, l, index⟩)

/-- Nothing of the publisher's is queued or on a link. -/
structure Quiescent (s : System ι) (i : ι) (l : ℕ) (j : ι) : Prop where
  up : s.up i = []
  down : s.down j = []
  queued : (s.node i).queued (.publisher l) = 0

/-- Every message accepted from state `s₀` on is handed over at most `c` times, and `c` times once
nothing is on its way. -/
structure Multiplied (c : ℕ) (s₀ s : System ι) (i : ι) (l : ℕ) (j : ι) (k : ℕ) : Prop where
  atMost : ∀ index, (acceptedPayloads (s₀.ledger i).trace l).length ≤ index →
    handed s i l j k index ≤ c
  exactly : s.Quiescent i l j → ∀ index,
    (acceptedPayloads (s₀.ledger i).trace l).length ≤ index →
      index < (acceptedPayloads (s.ledger i).trace l).length → handed s i l j k index = c

theorem count_numbers (os : List (Option (MessageId ι))) (index : ℕ) :
    (numbers i l os).count index = os.count (some ⟨i, l, index⟩) := by
  induction os with
  | nil => rfl
  | cons o os ih =>
    rw [numbers_cons, List.count_append, ih, List.count_cons, Nat.add_comm]
    congr 1
    rcases numbers_singleton i l o with hnone | ⟨index', rfl⟩
    · rw [hnone, if_neg]
      · rfl
      · intro ho
        rw [beq_iff_eq.mp ho] at hnone
        simp [numbers, numberFrom] at hnone
    · simp [numbers, numberFrom, List.count_singleton]

theorem Continues.count {c : ℕ} (h : Continues c i l s₀ s j k) (hinOrder : InOrder i l s₀ j k)
    {index : ℕ} (hindex : transmitted (s₀.ledger i).trace l ≤ index) :
    (stream c i l s j k).count index =
      if index < transmitted (s.ledger i).trace l then c else 0 := by
  obtain ⟨count, hstream, htransmitted⟩ := h
  have hbefore : (stream c i l s₀ j k).count index = 0 := by
    apply List.count_eq_zero.mpr
    intro hmem
    have hpassage : index ∈ passage i l s₀ j k := by
      rcases List.mem_append.mp hmem with hmem | hmem
      · exact List.mem_append_left _ hmem
      · apply List.mem_append_right
        obtain ⟨x, hx, hcopy⟩ := List.mem_flatMap.mp hmem
        rw [List.eq_of_mem_replicate hcopy]
        exact hx
    exact absurd (hinOrder.given index hpassage) (not_lt.mpr hindex)
  rw [hstream, List.count_append, hbefore, Nat.zero_add, count_copied, htransmitted]
  have hnodup : (List.range' (transmitted (s₀.ledger i).trace l) count).Nodup := List.nodup_range'
  by_cases hlt : index < transmitted (s₀.ledger i).trace l + count
  · rw [if_pos hlt, List.count_eq_one_of_mem hnodup (List.mem_range'_1.mpr ⟨hindex, hlt⟩),
      Nat.mul_one]
  · rw [if_neg hlt, List.count_eq_zero.mpr fun hmem => hlt (List.mem_range'_1.mp hmem).2,
      Nat.mul_zero]

/-- Where the copies are of a message accepted since. -/
theorem Continues.whereabouts {c : ℕ} (hcontinues : Continues c i l s₀ s j k)
    (hconveys₀ : Conveys s₀) (hconveys : Conveys s) (hs : Reliable net s)
    (hj : s.phase j = .connected) {index : ℕ}
    (hindex : transmitted (s₀.ledger i).trace l ≤ index) :
    handed s i l j k index + (numbers i l ((s.down j).map Datagram.origin)).count index +
        (copied c (numbers i l ((s.up i).map Datagram.origin))).count index =
      if index < transmitted (s.ledger i).trace l then c else 0 := by
  -- between two calls of `spin_once` the inbox is empty
  have hinbox : (s.ledger j).inbox k = [] := by
    by_cases htrace : (s.ledger j).trace = []
    · exact ((hconveys.recorded j).silent htrace k).1
    · have hqueued := ((hconveys.recorded j).tallies htrace).queued k
      rwa [hs.drained j hj, List.forall₂_nil_right_iff] at hqueued
  rw [← hcontinues.count (hconveys₀.inOrder i l j k) hindex]
  simp only [stream, List.count_append, count_numbers, Ledger.origins, handed, hinbox,
    List.append_nil]

theorem Continues.multiplied {c : ℕ} (hcontinues : Continues c i l s₀ s j k)
    (hconveys₀ : Conveys s₀) (hconveys : Conveys s) (hs : Reliable net s)
    (hj : s.phase j = .connected)
    (hbefore : transmitted (s₀.ledger i).trace l ≤ (acceptedPayloads (s₀.ledger i).trace l).length)
    (hafter : (acceptedPayloads (s.ledger i).trace l).length =
      transmitted (s.ledger i).trace l + (s.node i).queued (.publisher l)) :
    Multiplied c s₀ s i l j k := by
  have hcount := fun index
    (hindex : (acceptedPayloads (s₀.ledger i).trace l).length ≤ index) =>
      hcontinues.whereabouts hconveys₀ hconveys hs hj (hbefore.trans hindex)
  constructor
  · intro index hindex
    have htotal := hcount index hindex
    split_ifs at htotal
    · omega
    · omega
  · intro hquiescent index hindex hlt
    have htotal := hcount index hindex
    rw [hquiescent.queued, Nat.add_zero] at hafter
    rw [hquiescent.up, hquiescent.down, if_pos (hafter ▸ hlt)] at htotal
    simpa [numbers, copied] using htotal

/-- A node that is connected hands every message of a topic to each of its subscribers as often as
it has subscribers of the topic. -/
theorem multiplied_of_reliable (hnodes : ∀ i, Node.Created (nodes i))
    (hfits : ∀ i, ∀ p ∈ (nodes i).publishers, p.packetSize ≤ maxDatagramSize)
    {as bs : List (Action ι)} (hreliable : ∀ a ∈ as ++ bs, a.IsReliable)
    (hrun : (initial nodes).run net as = some s₀) (hlater : s₀.run net bs = some s)
    (hsmall : s.broker.tables.Small) (hi : s₀.phase i = .connected)
    (hj : s₀.phase j = .connected)
    (hpublisher : (nodes i).topicName (.publisher l) = some topicName)
    (hsubscriber : (nodes j).topicName (.subscriber k) = some topicName) :
    Multiplied ((nodes j).copiesOf topicName) s₀ s i l j k := by
  obtain ⟨r, h, hs, hcontinues⟩ :=
    run_continues hnodes hfits hreliable hrun hlater hi hj hpublisher hsubscriber
  obtain ⟨hconveys₀, hconveys, hcontinues⟩ := hcontinues hsmall
  obtain ⟨r₀, horderly₀, _, hhistory₀⟩ := run_history hnodes (orderly_initial net nodes)
    (history_initial net nodes) hrun
  obtain ⟨_, _, hactive₀⟩ := (hhistory₀ i).active hi
  obtain ⟨_, _, hactive⟩ :=
    (h.history i).active (horderly₀.run_connected hnodes hi hlater)
  have hbefore := hactive₀.books hnodes l
  exact hcontinues.multiplied hconveys₀ hconveys hs (horderly₀.run_connected hnodes hj hlater)
    (by omega) (hactive.books hnodes l)

end Handed

theorem isReliable_of_isHandshake {a : Action ι} (h : a.IsHandshake) : a.IsReliable := by
  cases a with
  | connect => trivial
  | rpcReturn => trivial
  | broker => trivial
  | publish => trivial
  | _ => exact h.elim

end System
end Crps
