import Crps.System.Steps

/-!
# A node connects while nothing else happens

If the network loses nothing and only one node and the broker are scheduled,
`connect` runs as one conversation: request, answer, request, answer. A session
that is safe in that setting has a schedule that brings it to its end.
-/

namespace Crps

/-! ## One request -/

section Granted

variable {t : Tables} {b : Broker} {client : String} {c : ControlRequest} {a : ControlAnswer}

theorem processControlRequest_granted (rpcId : UInt32)
    (h : (t.handle client c).result = some a) :
    ∃ accesses, t.processControlRequest client (Node.requestJson rpcId c) =
      .ok ⟨(t.handle client c).tables, a.response (.ofUInt32 rpcId), accesses⟩ := by
  exact ⟨_, t.processControlRequest_of_granted (Node.ofJson_requestJson rpcId c) h
    (Node.requestJson_rpcId rpcId c)⟩

theorem spinIteration_granted {text : JsonText} (sendto : Sendto) {rpcId : UInt32}
    {counter : BpCounter}
    (hpass : (verifyAndUpdateClientCounter b.clientCounters client counter).1 = true)
    (hresult : (b.tables.handle client c).result = some a)
    (hsize : 9 + (text.dump (Node.requestJson rpcId c)).length ≤ maxDatagramSize)
    (hsent : ∀ answered, sendto 0 client (bpControlJsonToPacketBuffer text
      (a.response (.ofUInt32 rpcId)) answered) = true) :
    ∃ it answered, b.spinIteration text sendto client
        (bpControlJsonToPacketBuffer text (Node.requestJson rpcId c) counter) = .ok it ∧
      it.broker.tables = (b.tables.handle client c).tables ∧
      it.broker.clientCounters =
        (verifyAndUpdateClientCounter b.clientCounters client counter).2 ∧
      it.stopped = false ∧
      it.attempts = [⟨client, bpControlJsonToPacketBuffer text (a.response (.ofUInt32 rpcId))
        answered, true⟩] := by
  obtain ⟨accesses, hreply⟩ := processControlRequest_granted rpcId hresult
  simp only [maxDatagramSize] at hsize
  have hspin := Broker.spinIteration_controlPacket sendto (Node.requestJson_plain rpcId c)
    (show 9 + (text.dump (Node.requestJson rpcId c)).length < 2 ^ 32 by omega) hpass
  generalize bpControlJsonToPacketBuffer text (Node.requestJson rpcId c) counter = packet at hspin ⊢
  have htables : (b.checked client packet counter).tables = b.tables := rfl
  rw [hspin]
  simp only [Broker.processControl, htables, hreply, bind, Except.bind, pure, Except.pure]
  refine ⟨_, ((b.checked client packet counter).clientCounters client).getD 0, rfl, rfl, rfl,
    ?_, ?_⟩
  · simp only [hsent, Bool.not_true]
  · simp only [hsent]

end Granted

namespace Node

/-- A client the broker serves without interruption: the tables and the counter it has accepted
last. Every request is granted, and it and its response fit a datagram. -/
def soloSetting (text : JsonText) (client : String) :
    Interference Node (Tables × Option BpCounter) Json Json where
  rely := Eq
  guarantee n x request _ := ∃ c a, request = requestJson n.rpcId c ∧
    (x.1.handle client c).result = some a ∧ (x.2 = none ∨ x.2 = some n.bpCounter) ∧
    9 + (text.dump request).length ≤ maxDatagramSize ∧
    9 + (text.dump (a.response (.ofUInt32 n.rpcId))).length ≤ maxDatagramSize
  serve n x request n' y response := (∃ buffer, n' =
      { n with bpCounter := n.bpCounter + 1, buffer }) ∧
    ∀ c a, request = requestJson n.rpcId c → (x.1.handle client c).result = some a →
      response = a.response (.ofUInt32 n.rpcId) ∧
        y = ((x.1.handle client c).tables, some n'.bpCounter)
  rely_refl _ := rfl
  rely_trans := Eq.trans

section Solo

variable {text : JsonText} {client : String} {n : Node} {x : Tables × Option BpCounter}
variable {c : ControlRequest} {a : ControlAnswer}

theorem solo_serves (hresult : (x.1.handle client c).result = some a) (buffer : Memory) :
    (soloSetting text client).serve n x (requestJson n.rpcId c)
      { n with bpCounter := n.bpCounter + 1, buffer }
      ((x.1.handle client c).tables, some (n.bpCounter + 1)) (a.response (.ofUInt32 n.rpcId)) := by
  refine ⟨⟨buffer, rfl⟩, fun c' a' hrequest hresult' => ?_⟩
  have hsame := ofJson_requestJson n.rpcId c
  rw [hrequest, ofJson_requestJson, Except.ok.injEq, Option.some.injEq] at hsame
  subst hsame
  rw [hresult] at hresult'
  injection hresult' with hresult'
  exact ⟨by rw [hresult'], rfl⟩

/-- A call that is safe in this setting is granted. -/
theorem solo_guarantees {α : Type} {request : Json}
    {Q : Node → α → Tables × Option BpCounter → Prop}
    {resume : Node → Json → Session Node Json Json Fault α}
    (h : (Session.call n request resume).Safe (soloSetting text client) Q x) :
    ∃ c a, request = requestJson n.rpcId c ∧ (x.1.handle client c).result = some a ∧
      (x.2 = none ∨ x.2 = some n.bpCounter) ∧
      9 + (text.dump request).length ≤ maxDatagramSize ∧
      9 + (text.dump (a.response (.ofUInt32 n.rpcId))).length ≤ maxDatagramSize ∧
      ∀ buffer, (resume { n with bpCounter := n.bpCounter + 1, buffer }
        (a.response (.ofUInt32 n.rpcId))).Safe (soloSetting text client) Q
          ((x.1.handle client c).tables, some (n.bpCounter + 1)) := by
  by_cases hgranted : ∃ c a, request = requestJson n.rpcId c ∧
      (x.1.handle client c).result = some a
  · obtain ⟨c, a, rfl, hresult⟩ := hgranted
    have hserved := fun buffer => h x rfl _ _ _ (solo_serves hresult buffer)
    obtain ⟨c', a', hrequest, hresult', hcounter, hsize, hanswer⟩ := (hserved n.buffer).1
    have hsame := ofJson_requestJson n.rpcId c
    rw [hrequest, ofJson_requestJson, Except.ok.injEq, Option.some.injEq] at hsame
    subst hsame
    rw [hresult] at hresult'
    injection hresult' with hresult'
    subst hresult'
    exact ⟨_, _, rfl, hresult, hcounter, hsize, hanswer, fun buffer => (hserved buffer).2⟩
  · have hserve : (soloSetting text client).serve n x request
        { n with bpCounter := n.bpCounter + 1 } x .null :=
      ⟨⟨n.buffer, rfl⟩, fun c a hrequest hresult => absurd ⟨c, a, hrequest, hresult⟩ hgranted⟩
    obtain ⟨c, a, hrequest, hresult, _⟩ := (h x rfl _ _ _ hserve).1
    exact absurd ⟨c, a, hrequest, hresult⟩ hgranted

theorem callMeets_solo (hcounter : x.2 = none ∨ x.2 = some n.bpCounter)
    (hresult : (x.1.handle client c).result = some a) (hfits : a.Fits c)
    (hsize : 9 + (text.dump (requestJson n.rpcId c)).length ≤ maxDatagramSize)
    (hanswer : 9 + (text.dump (a.response (.ofUInt32 n.rpcId))).length ≤ maxDatagramSize) :
    CallMeets (soloSetting text client) n x c fun n' r z =>
      (∃ buffer, n' = { n with bpCounter := n.bpCounter + 1, buffer }) ∧ r = some a ∧
        z = ((x.1.handle client c).tables, some (n.bpCounter + 1)) := by
  intro y hy n' z d hserve
  subst hy
  obtain ⟨⟨buffer, rfl⟩, hserved⟩ := hserve
  obtain ⟨rfl, rfl⟩ := hserved c a rfl hresult
  refine ⟨⟨c, a, rfl, hresult, hcounter, hsize, hanswer⟩, some a, .granted _ hfits, ?_⟩
  rintro w rfl
  exact ⟨⟨buffer, rfl⟩, rfl, rfl⟩

end Solo

/-! ## The requests of `connect` on the tables -/

end Node

namespace Tables

/-- The three requests for an endpoint. The tables after them, if all are granted. -/
def registerEndpoint (t : Tables) (client : String) (nodeId : BpNodeId)
    (add : BpNodeId → TopicId → MessageTypeId → ControlRequest) (topicName typeName : String)
    (messageSize : MessageSize) (topicPriority : TopicPriority) : Option Tables :=
  let typed := t.handle client (.registerMessageType typeName messageSize)
  match typed.result with
  | some (.messageType messageTypeId) =>
    let named := typed.tables.handle client (.registerTopic topicName messageTypeId topicPriority)
    match named.result with
    | some (.topic topicId _) =>
      let added := named.tables.handle client (add nodeId topicId messageTypeId)
      if added.result = some .added then some added.tables else none
    | _ => none
  | _ => none

def registerPublisherOf (t : Tables) (client : String) (nodeId : BpNodeId) (p : Publisher) :
    Option Tables :=
  t.registerEndpoint client nodeId .addPublisher p.topicName p.messageTypeName p.messageSize
    p.topicPriority

def registerSubscriberOf (t : Tables) (client : String) (nodeId : BpNodeId) (s : Subscriber) :
    Option Tables :=
  t.registerEndpoint client nodeId .addSubscriber s.topicName s.messageTypeName s.messageSize
    s.topicPriority

/-- All requests of a node's `connect`. -/
def registerAll (t : Tables) (client : String) (n : Node) : Option Tables :=
  let registered := t.handle client (.registerNode n.name)
  match registered.result with
  | some (.node id) => do
    let published ← n.publishers.foldlM (fun t p => t.registerPublisherOf client id p)
      registered.tables
    n.subscribers.foldlM (fun t s => t.registerSubscriberOf client id s) published
  | _ => none

variable {t t' : Tables} {client : String} {nodeId : BpNodeId} {topicName typeName : String}
variable {add : BpNodeId → TopicId → MessageTypeId → ControlRequest}
variable {messageSize : MessageSize} {topicPriority : TopicPriority}

theorem registerEndpoint_some
    (h : t.registerEndpoint client nodeId add topicName typeName messageSize topicPriority =
      some t') :
    ∃ messageTypeId topicId actual t₁ t₂,
      t₁ = (t.handle client (.registerMessageType typeName messageSize)).tables ∧
      (t.handle client (.registerMessageType typeName messageSize)).result =
        some (.messageType messageTypeId) ∧
      t₂ = (t₁.handle client (.registerTopic topicName messageTypeId topicPriority)).tables ∧
      (t₁.handle client (.registerTopic topicName messageTypeId topicPriority)).result =
        some (.topic topicId actual) ∧
      t' = (t₂.handle client (add nodeId topicId messageTypeId)).tables ∧
      (t₂.handle client (add nodeId topicId messageTypeId)).result = some .added := by
  simp only [registerEndpoint] at h
  split at h
  · rename_i messageTypeId htype
    split at h
    · rename_i topicId actual htopic
      split_ifs at h with hadded
      injection h with h
      exact ⟨messageTypeId, topicId, actual, _, _, rfl, htype, rfl, htopic, h.symm, hadded⟩
    · cases h
  · cases h

end Tables

namespace Node

/-- All names a node sends are short. -/
structure ShortNames (n : Node) : Prop where
  name : ShortName n.name
  publishers : ∀ p ∈ n.publishers, ShortName p.topicName ∧ ShortName p.messageTypeName
  subscribers : ∀ s ∈ n.subscribers, ShortName s.topicName ∧ ShortName s.messageTypeName

instance (n : Node) : Decidable n.ShortNames :=
  decidable_of_iff (ShortName n.name ∧
      (∀ p ∈ n.publishers, ShortName p.topicName ∧ ShortName p.messageTypeName) ∧
      ∀ s ∈ n.subscribers, ShortName s.topicName ∧ ShortName s.messageTypeName)
    ⟨fun h => ⟨h.1, h.2.1, h.2.2⟩, fun h => ⟨h.name, h.publishers, h.subscribers⟩⟩

section Compact

variable {client : String} {n : Node} {t t' : Tables} {last : Option BpCounter}

theorem callMeets_compact {c : ControlRequest} {a : ControlAnswer}
    (hlast : last = none ∨ last = some n.bpCounter)
    (hresult : (t.handle client c).result = some a) (hfits : a.Fits c)
    (hname : ShortName (requestName c)) :
    CallMeets (soloSetting compactJson client) n (t, last) c fun n' r z =>
      (∃ buffer, n' = { n with bpCounter := n.bpCounter + 1, buffer }) ∧ r = some a ∧
        z = ((t.handle client c).tables, some (n.bpCounter + 1)) := by
  have hrequest := length_dump_requestJson_le c n.rpcId
  have hanswer := length_dump_response_le a n.rpcId
  unfold ShortName at hname
  exact callMeets_solo hlast hresult hfits (by simp only [maxDatagramSize]; omega)
    (by simp only [maxDatagramSize]; omega)

/-- Where the broker is once a session has been granted everything. -/
def Granted (t' : Tables) (nodeId : BpNodeId) (n' : Node) (ok : Bool)
    (z : Tables × Option BpCounter) : Prop :=
  ok = true ∧ n'.nodeId = nodeId ∧ z = (t', some n'.bpCounter)

theorem solo_registerPublisher {k : ℕ} {p : Publisher} (hlast : last = some n.bpCounter)
    (h : t.registerPublisherOf client n.nodeId p = some t')
    (hnames : ShortName p.topicName ∧ ShortName p.messageTypeName) :
    (registerPublisher k p n).Safe (soloSetting compactJson client) (Granted t' n.nodeId)
      (t, last) := by
  obtain ⟨m, id, actual, t₁, t₂, rfl, htype, rfl, htopic, rfl, hadd⟩ :=
    Tables.registerEndpoint_some h
  refine Program.safe_bind ((safe_registerMessageType
    (callMeets_compact (.inr hlast) htype trivial hnames.2)).mono ?_)
  rintro n₁ (_ | m') z₁ ⟨⟨buffer₁, rfl⟩, hm, rfl⟩
  · cases hm
  cases hm
  simp only [Program.bind_apply, Program.modify_apply, Session.ret_bind]
  refine Session.Safe.bind ((safe_registerTopic
    (callMeets_compact (.inr rfl) htopic trivial hnames.1)).mono ?_)
  rintro n₂ (_ | ⟨id', priority⟩) z₂ h₂
  · cases h₂.2.1
  obtain ⟨actual', ⟨⟨buffer₂, rfl⟩, hid, rfl⟩, _⟩ := h₂
  cases hid
  simp only [Program.bind_apply, Program.modify_apply, Session.ret_bind]
  refine Session.Safe.bind (Session.Safe.mono ?_ (safe_addPublisher (callMeets_compact (.inr rfl)
    (c := .addPublisher n.nodeId id m) hadd trivial (show ShortName "" by decide))))
  rintro n₃ (_ | _) z₃ ⟨⟨buffer₃, rfl⟩, hok, rfl⟩
  · cases hok
  · rintro w rfl
    exact ⟨rfl, rfl, rfl⟩

theorem solo_registerSubscriber {k : ℕ} {s : Subscriber} (hlast : last = some n.bpCounter)
    (h : t.registerSubscriberOf client n.nodeId s = some t')
    (hnames : ShortName s.topicName ∧ ShortName s.messageTypeName) :
    (registerSubscriber k s n).Safe (soloSetting compactJson client) (Granted t' n.nodeId)
      (t, last) := by
  obtain ⟨m, id, actual, t₁, t₂, rfl, htype, rfl, htopic, rfl, hadd⟩ :=
    Tables.registerEndpoint_some h
  refine Program.safe_bind ((safe_registerMessageType
    (callMeets_compact (.inr hlast) htype trivial hnames.2)).mono ?_)
  rintro n₁ (_ | m') z₁ ⟨⟨buffer₁, rfl⟩, hm, rfl⟩
  · cases hm
  cases hm
  simp only [Program.bind_apply, Program.modify_apply, Session.ret_bind]
  refine Session.Safe.bind ((safe_registerTopic
    (callMeets_compact (.inr rfl) htopic trivial hnames.1)).mono ?_)
  rintro n₂ (_ | ⟨id', priority⟩) z₂ h₂
  · cases h₂.2.1
  obtain ⟨actual', ⟨⟨buffer₂, rfl⟩, hid, rfl⟩, _⟩ := h₂
  cases hid
  simp only [Program.bind_apply, Program.modify_apply, Session.ret_bind]
  refine Session.Safe.bind (Session.Safe.mono ?_ (safe_addSubscriber (callMeets_compact (.inr rfl)
    (c := .addSubscriber n.nodeId id m) hadd trivial (show ShortName "" by decide))))
  rintro n₃ (_ | _) z₃ ⟨⟨buffer₃, rfl⟩, hok, rfl⟩
  · cases hok
  · rintro w rfl
    exact ⟨rfl, rfl, rfl⟩

theorem solo_registerEach {α : Type} {register : ℕ → α → NodeM Bool}
    {registerOf : Tables → α → Option Tables} {nodeId : BpNodeId} {es : List α}
    (hstep : ∀ k e n t t' last, e ∈ es → n.nodeId = nodeId → last = some n.bpCounter →
      registerOf t e = some t' →
      (register k e n).Safe (soloSetting compactJson client) (Granted t' nodeId) (t, last))
    (k : ℕ) (hid : n.nodeId = nodeId) (hlast : last = some n.bpCounter)
    (h : es.foldlM registerOf t = some t') :
    (registerEach register k es n).Safe (soloSetting compactJson client) (Granted t' nodeId)
      (t, last) := by
  induction es generalizing k n t last with
  | nil =>
    cases h
    rintro w rfl
    exact ⟨rfl, hid, hlast ▸ rfl⟩
  | cons e es ih =>
    rw [List.foldlM_cons] at h
    obtain ⟨t₁, hfirst, hrest⟩ := Option.bind_eq_some_iff.mp h
    refine Program.safe_bind ((hstep k e n t t₁ last List.mem_cons_self hid hlast hfirst).mono ?_)
    rintro n₁ ok z₁ ⟨rfl, hid₁, rfl⟩
    exact ih (fun k e n t t' last he => hstep k e n t t' last (List.mem_cons_of_mem _ he))
      (k + 1) hid₁ rfl hrest

theorem solo_connect (hnames : ShortNames n) (hlast : last = none ∨ last = some n.bpCounter)
    (h : t.registerAll client n = some t') :
    (connect n).Safe (soloSetting compactJson client)
      (fun n' ok z => ok = true ∧ z = (t', some n'.bpCounter)) (t, last) := by
  simp only [Tables.registerAll] at h
  split at h
  · rename_i id hresult
    obtain ⟨t₁, hpublishers, hsubscribers⟩ := Option.bind_eq_some_iff.mp h
    refine Program.safe_bind ((safe_registerNode
      (callMeets_compact hlast hresult trivial hnames.name)).mono ?_)
    rintro n₁ (_ | _) z₁ h₁
    · cases h₁.2.1
    obtain ⟨n₀, id', rfl, ⟨buffer, rfl⟩, hid, rfl⟩ := h₁
    cases hid
    simp only [Bool.not_true, Bool.false_eq_true, if_false, Program.bind_apply,
      Program.get_apply, Session.ret_bind]
    refine Session.Safe.bind ((solo_registerEach (fun k p n t t' last hp hid hlast h =>
      hid ▸ solo_registerPublisher hlast (hid ▸ h) (hnames.publishers p hp)) 0 rfl rfl
      hpublishers).mono ?_)
    rintro n₂ ok z₂ ⟨rfl, hid₂, rfl⟩
    refine (solo_registerEach (fun k s n t t' last hs hid hlast h =>
      hid ▸ solo_registerSubscriber hlast (hid ▸ h) (hnames.subscribers s hs)) 0 hid₂ rfl
      hsubscribers).mono ?_
    rintro n₃ ok z₃ ⟨rfl, _, rfl⟩
    exact ⟨rfl, rfl⟩
  · cases h

end Compact

end Node

/-- A step of somebody's `connect`. -/
def Action.IsHandshake {ι : Type} : Action ι → Prop
  | .connect _ => True
  | .rpcReturn _ => True
  | .broker _ => True
  | _ => False

namespace System

variable {ι : Type} [DecidableEq ι] {net : Deployment ι} {i : ι}

/-- From one state to another, only node `i` and the broker have moved, and nothing is left on
the links. -/
structure Converses (net : Deployment ι) (i : ι) (s s' : System ι) : Prop where
  running : s'.brokerRunning = true
  up : s'.up = s.up
  down : s'.down = s.down
  node : ∀ j ≠ i, s'.node j = s.node j
  phase : ∀ j ≠ i, s'.phase j = s.phase j
  counters : ∀ address ≠ net.address i,
    s'.broker.clientCounters address = s.broker.clientCounters address

omit [DecidableEq ι] in
theorem Converses.trans {s s' s'' : System ι} (h : Converses net i s s')
    (h' : Converses net i s' s'') : Converses net i s s'' where
  running := h'.running
  up := h'.up.trans h.up
  down := h'.down.trans h.down
  node j hj := (h'.node j hj).trans (h.node j hj)
  phase j hj := (h'.phase j hj).trans (h.phase j hj)
  counters a ha := (h'.counters a ha).trans (h.counters a ha)

theorem step_answers {s : System ι} {packet reply : Bytes} {it : Iteration}
    (hrunning : s.brokerRunning = true) (hup : s.up i = [⟨packet, none⟩]) (hdown : s.down i = [])
    (hit : s.broker.spinIteration net.text brokerSendto (net.address i) packet = .ok it)
    (hstopped : it.stopped = false) (hattempts : it.attempts = [⟨net.address i, reply, true⟩]) :
    s.step net (.broker i) = some { s with
      broker := it.broker
      up := Function.update s.up i []
      down := Function.update s.down i [⟨reply, none⟩]
      ledger := Function.update s.ledger i
        ((s.ledger i).judge packet it.disposal.passedCounter) } := by
  have hdowns : (fun j => s.down j ++ arrivals net it none j) =
      Function.update s.down i [⟨reply, none⟩] := by
    funext j
    by_cases hj : j = i
    · subst hj
      simp [arrivals, hattempts, hdown]
    · have hne : net.address i ≠ net.address j := fun he => hj (net.address_injective he.symm)
      simp [arrivals, hattempts, hne, hj]
  simp only [step, brokerStep, hrunning, hup, hit, hstopped, hdowns, Bool.not_false]

theorem step_returns {s : System ι} {reply : Bytes} {n : Node} {response : Json}
    {resume : Node → Json → Session Node Json Json Fault Bool}
    (hphase : s.phase i = .waiting resume) (hdown : s.down i = [⟨reply, none⟩])
    (hresponse : (s.node i).rpcResponse net.text (.datagram reply) = .ok (n, response)) :
    s.step net (.rpcReturn i) = some (({ s with down := Function.update s.down i [] } :
      System ι).continueConnect net i n (resume n response)) := by
  simp only [step, hphase, hdown, hresponse]

/-- What node `i` has asked so far has been answered, and the next request will be accepted. -/
structure Idle (net : Deployment ι) (i : ι) (s : System ι) (n : Node) : Prop where
  running : s.brokerRunning = true
  up : s.up i = []
  down : s.down i = []
  expects : s.broker.clientCounters (net.address i) = none ∨
    s.broker.clientCounters (net.address i) = some n.bpCounter

/-- The state in which node `i` waits for the answer to its request. -/
def asking (s : System ι) (i : ι) (n : Node)
    (resume : Node → Json → Session Node Json Json Fault Bool) (packet : Bytes) : System ι :=
  { s with
    node := Function.update s.node i n.nextBpCounter.2
    phase := Function.update s.phase i (.waiting resume)
    up := Function.update s.up i [⟨packet, none⟩]
    ledger := Function.update s.ledger i ((s.ledger i).transmit [packet]) }

theorem brokerSendto_controlPacket {text : JsonText} {j : Json} (k : ℕ) (address : String)
    (counter : BpCounter) (hj : 9 + (text.dump j).length ≤ maxDatagramSize) :
    brokerSendto k address (bpControlJsonToPacketBuffer text j counter) = true := by
  unfold brokerSendto
  rw [length_controlPacket]
  exact decide_eq_true hj

theorem length_sendControl {text : JsonText} (n : Node) (j : Json) :
    (n.sendControl text j).1.length = 9 + (text.dump j).length :=
  length_controlPacket text j _

/-- A request goes out, its answer comes back, and `connect` goes on. -/
theorem run_call {s : System ι} {n : Node} {c : ControlRequest} {a : ControlAnswer}
    (resume : Node → Json → Session Node Json Json Fault Bool) (h : s.Idle net i n)
    (hresult : (s.broker.tables.handle (net.address i) c).result = some a)
    (hrequest : 9 + (net.text.dump (Node.requestJson n.rpcId c)).length ≤ maxDatagramSize)
    (hresponse : 9 + (net.text.dump (a.response (.ofUInt32 n.rpcId))).length ≤ maxDatagramSize) :
    ∃ buffer s', Converses net i s s' ∧
      s'.broker.tables = (s.broker.tables.handle (net.address i) c).tables ∧
      s'.broker.clientCounters (net.address i) = some (n.bpCounter + 1) ∧
      ∀ as, (s.continueConnect net i n (.call n (Node.requestJson n.rpcId c) resume)).run net
          (.broker i :: .rpcReturn i :: as) =
        (s'.continueConnect net i { n with bpCounter := n.bpCounter + 1, buffer }
          (resume { n with bpCounter := n.bpCounter + 1, buffer }
            (a.response (.ofUInt32 n.rpcId)))).run net as := by
  have hpass : (verifyAndUpdateClientCounter s.broker.clientCounters (net.address i)
      (n.bpCounter + 1)).1 = true ∧
      (verifyAndUpdateClientCounter s.broker.clientCounters (net.address i)
        (n.bpCounter + 1)).2 =
      Function.update s.broker.clientCounters (net.address i) (some (n.bpCounter + 1)) := by
    rcases h.expects with hfirst | hlast
    · simp [verifyAndUpdateClientCounter, hfirst]
    · simp [verifyAndUpdateClientCounter, hlast]
  obtain ⟨it, answered, hit, htables, hcounters, hstopped, hattempts⟩ :=
    spinIteration_granted brokerSendto hpass.1 hresult hrequest fun answered =>
      brokerSendto_controlPacket 0 _ answered hresponse
  have hfits : 9 + (net.text.dump (a.response (.ofUInt32 n.rpcId))).length < 2 ^ 32 :=
    hresponse.trans_lt (by decide)
  have hreceived := fun m : Node => Node.rpcResponse_control net.text m
    (Node.response_plain a n.rpcId) answered hfits
  have hlength : (n.sendControl net.text (Node.requestJson n.rpcId c)).1.length ≤
      maxDatagramSize := (length_sendControl n _).trans_le hrequest
  have hpacket : (n.sendControl net.text (Node.requestJson n.rpcId c)).1 =
      bpControlJsonToPacketBuffer net.text (Node.requestJson n.rpcId c) (n.bpCounter + 1) := rfl
  rw [← hpacket] at hit
  generalize bpControlJsonToPacketBuffer net.text (a.response (.ofUInt32 n.rpcId)) answered =
    reply at hattempts hreceived
  have hasks : advance net.text n (.call n (Node.requestJson n.rpcId c) resume) =
      (n.nextBpCounter.2, .waiting resume,
        [(n.sendControl net.text (Node.requestJson n.rpcId c)).1]) := by
    simp only [advance, if_pos hlength]
    rfl
  generalize (n.sendControl net.text (Node.requestJson n.rpcId c)).1 = packet at hit hasks
  have hlinks : Function.update (Function.update s.up i [⟨packet, none⟩]) i [] = s.up := by
    rw [Function.update_idem, ← h.up, Function.update_eq_self]
  have hdowns : Function.update (Function.update s.down i [⟨reply, none⟩]) i [] = s.down := by
    rw [Function.update_idem, ← h.down, Function.update_eq_self]
  refine ⟨Memory.load reply n.buffer, { s with
    broker := it.broker
    ledger := Function.update s.ledger i
      (((s.ledger i).transmit [packet]).judge packet it.disposal.passedCounter) },
    ⟨h.running, rfl, rfl, fun _ _ => rfl, fun _ _ => rfl, fun address hne => ?_⟩, htables, ?_,
    fun as => ?_⟩
  · rw [hcounters, hpass.2, Function.update_of_ne hne]
  · rw [hcounters, hpass.2, Function.update_self]
  · have hasked : s.continueConnect net i n (.call n (Node.requestJson n.rpcId c) resume) =
        s.asking i n resume packet := by
      simp only [continueConnect, hasks, h.up, List.nil_append, List.map_cons, List.map_nil]
      rfl
    have hserves := step_answers (s := s.asking i n resume packet) h.running
      (Function.update_self ..) h.down hit hstopped hattempts
    have hreturned : n.nextBpCounter.2.rpcResponse net.text (.datagram reply) =
        .ok ({ n with bpCounter := n.bpCounter + 1, buffer := Memory.load reply n.buffer },
          a.response (.ofUInt32 n.rpcId)) := hreceived _
    generalize ({ n with bpCounter := n.bpCounter + 1, buffer := Memory.load reply n.buffer } :
      Node) = n' at hreturned ⊢
    rw [hasked, run, hserves, Option.bind_some, run, step_returns (Function.update_self ..)
      (Function.update_self ..) ((congrArg (fun m => Node.rpcResponse m net.text _)
        (Function.update_self ..)).trans hreturned), Option.bind_some]
    simp only [asking, hlinks, hdowns, Function.update_self, Function.update_idem, h.up,
      continueConnect]

/-- A session that is safe alone has a schedule to its end. -/
theorem run_solo {m : Session Node Json Json Fault Bool}
    {Q : Node → Bool → Tables × Option BpCounter → Prop} (n₀ : Node) {s : System ι}
    (hrunning : s.brokerRunning = true) (hup : s.up i = []) (hdown : s.down i = [])
    (h : m.Safe (Node.soloSetting net.text (net.address i)) Q
      (s.broker.tables, s.broker.clientCounters (net.address i))) :
    ∃ as s' ok, (s.continueConnect net i n₀ m).run net as = some s' ∧
      (∀ a ∈ as, a.IsHandshake) ∧ Converses net i s s' ∧
      s'.phase i = (if ok then .connected else .failed) ∧
      Q (s'.node i) ok (s'.broker.tables, s'.broker.clientCounters (net.address i)) := by
  induction m generalizing n₀ s with
  | ret n ok =>
    have hends : advance net.text n₀ (.ret n ok) = (n, if ok then .connected else .failed, []) := by
      cases ok <;> rfl
    refine ⟨[], _, ok, rfl, by simp,
      ⟨hrunning, ?_, rfl, fun j hj => ?_, fun j hj => ?_, fun _ _ => rfl⟩, ?_, ?_⟩
    · simp only [continueConnect, hends, List.map_nil, List.append_nil, Function.update_eq_self]
    · exact Function.update_of_ne hj _ _
    · exact Function.update_of_ne hj _ _
    · simp only [continueConnect, hends, Function.update_self]
    · simp only [continueConnect, hends, Function.update_self]
      exact h.post
  | throw e => exact h.elim
  | call n request resume ih =>
    obtain ⟨c, a, rfl, hresult, hcounter, hsize, hanswer, hnext⟩ := Node.solo_guarantees h
    obtain ⟨buffer, s₁, hconverses, htables, hcounter₁, hrun⟩ :=
      run_call resume ⟨hrunning, hup, hdown, hcounter⟩ hresult hsize hanswer
    obtain ⟨as, s', ok, hrest, hactions, hconverses', hphase, hq⟩ :=
      ih _ _ { n with bpCounter := n.bpCounter + 1, buffer } hconverses.running
        ((congrFun hconverses.up i).trans hup) ((congrFun hconverses.down i).trans hdown)
        (by rw [htables, hcounter₁]; exact hnext buffer)
    refine ⟨_, s', ok, (hrun as).trans hrest, ?_, hconverses.trans hconverses', hphase, hq⟩
    exact List.forall_mem_cons.mpr ⟨trivial, List.forall_mem_cons.mpr ⟨trivial, hactions⟩⟩

/-- Nothing is in flight to or from node `i`, which has not been heard of. -/
structure Unheard (net : Deployment ι) (i : ι) (s : System ι) : Prop where
  running : s.brokerRunning = true
  up : s.up i = []
  down : s.down i = []
  phase : s.phase i = .created
  counter : s.broker.clientCounters (net.address i) = none

omit [DecidableEq ι] in
theorem unheard_initial (nodes : ι → Node) : (initial nodes).Unheard net i :=
  ⟨rfl, rfl, rfl, rfl, rfl⟩

omit [DecidableEq ι] in
theorem Unheard.converses {s s' : System ι} {j : ι} (h : s.Unheard net j) (hji : j ≠ i)
    (hs : Converses net i s s') : s'.Unheard net j where
  running := hs.running
  up := (congrFun hs.up j).trans h.up
  down := (congrFun hs.down j).trans h.down
  phase := (hs.phase j hji).trans h.phase
  counter := (hs.counters _ fun he => hji (net.address_injective he)).trans h.counter

theorem exists_connected {s : System ι} {t' : Tables} (htext : net.text = compactJson)
    (h : s.Unheard net i) (hnames : Node.ShortNames (s.node i))
    (htables : s.broker.tables.registerAll (net.address i) (s.node i) = some t') :
    ∃ as s', s.run net as = some s' ∧ (∀ a ∈ as, a.IsHandshake) ∧ Converses net i s s' ∧
      s'.phase i = .connected ∧ s'.broker.tables = t' := by
  have hsafe := Node.solo_connect hnames (.inl h.counter) htables
  rw [← htext] at hsafe
  obtain ⟨as, s', ok, hrun, hactions, hconverses, hphase, rfl, hend⟩ :=
    run_solo (s.node i) h.running h.up h.down hsafe
  refine ⟨.connect i :: as, s', ?_, List.forall_mem_cons.mpr ⟨trivial, hactions⟩, hconverses,
    hphase, congrArg Prod.fst hend⟩
  rw [run]
  simp only [step, h.phase, Option.bind_some]
  exact hrun

end System
end Crps
