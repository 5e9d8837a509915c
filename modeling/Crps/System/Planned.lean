import Crps.Broker.Plan
import Crps.System.Solo

/-!
# `connect` of a node that keeps to a plan

As long as all clients keep to the plan, the broker grants whatever a node asks
in `connect`, no matter who else is being served in between. The node relies on
its own entries being left alone and on the counter of its last packet.
-/

namespace Crps

/-- What a client of a planned deployment meets: planned tables, and the counter of its last
packet. -/
structure PlannedDesk (plan : Plan) where
  registry : Registry
  covers : plan.Covers registry.tables
  last : Option BpCounter

namespace PlannedDesk

variable {plan : Plan}

theorem small (x : PlannedDesk plan) : x.registry.tables.Small := x.covers.small x.registry.names

/-- The desk once a foreseen request has been served. -/
def serve (x : PlannedDesk plan) {client : String} {c : ControlRequest}
    (h : plan.Foresees x.registry.tables client c) (counter : BpCounter) : PlannedDesk plan where
  registry := x.registry.handle client c
  covers := x.covers.handled h (x.registry.tables.handle_handled client c)
  last := some counter

end PlannedDesk

/-- Requests with short names, and the responses to requests, fit into a datagram. -/
structure JsonText.DumpsShort (text : JsonText) : Prop where
  requests : ∀ (rpcId : UInt32) (c : ControlRequest), Node.ShortName (Node.requestName c) →
    9 + (text.dump (Node.requestJson rpcId c)).length ≤ maxDatagramSize
  responses : text.DumpsResponses

theorem compactJson_dumpsShort : compactJson.DumpsShort := by
  refine ⟨fun rpcId c hname => ?_, compactJson_dumpsResponses⟩
  have hrequest := Node.length_dump_requestJson_le c rpcId
  unfold Node.ShortName at hname
  simp only [maxDatagramSize]
  omega

namespace Node

/-- A node of the plan, with endpoints of planned topics only. -/
structure Follows (plan : Plan) (client : String) (n : Node) : Prop where
  node : ⟨n.name, client⟩ ∈ plan.nodes
  publishers : ∀ p ∈ n.publishers, ⟨p.messageTypeName, p.messageSize⟩ ∈ plan.messageTypes ∧
    ⟨p.topicName, p.messageTypeName, p.topicPriority⟩ ∈ plan.topics
  subscribers : ∀ s ∈ n.subscribers, ⟨s.messageTypeName, s.messageSize⟩ ∈ plan.messageTypes ∧
    ⟨s.topicName, s.messageTypeName, s.topicPriority⟩ ∈ plan.topics
  shortNames : n.ShortNames

/-- One client of a planned deployment. Its requests are foreseen, follow one another without a
gap, and fit a datagram like their answers; a foreseen request is granted. -/
def plannedSetting (plan : Plan) (text : JsonText) (client : String) :
    Interference Node (PlannedDesk plan) Json Json where
  rely x y := x.registry.Relies client y.registry ∧ x.last = y.last
  guarantee n x request _ := ∃ c, request = requestJson n.rpcId c ∧
    plan.Foresees x.registry.tables client c ∧ (x.last = none ∨ x.last = some n.bpCounter) ∧
    9 + (text.dump request).length ≤ maxDatagramSize ∧
    ∀ a : ControlAnswer, 9 + (text.dump (a.response (.ofUInt32 n.rpcId))).length ≤ maxDatagramSize
  serve n x request n' y response := n.Counted n' ∧
    ∀ c a, request = requestJson n.rpcId c → plan.Foresees x.registry.tables client c →
      (x.registry.tables.handle client c).result = some a →
        response = a.response (.ofUInt32 n.rpcId) ∧ y.registry = x.registry.handle client c ∧
          y.last = some n'.bpCounter
  rely_refl _ := ⟨.refl client _, rfl⟩
  rely_trans h h' := ⟨h.1.trans h'.1, h.2.trans h'.2⟩

section Planned

variable {plan : Plan} {text : JsonText} {client : String} {n : Node} {x : PlannedDesk plan}
variable {c : ControlRequest}

theorem exists_answer (h : plan.Foresees x.registry.tables client c) :
    ∃ a, (x.registry.tables.handle client c).result = some a :=
  Option.isSome_iff_exists.mp ((x.registry.tables.handle_isSome_iff client c).mpr
    (x.covers.admits x.registry.names h))

theorem eq_of_requestJson {rpcId : UInt32} {c c' : ControlRequest}
    (h : requestJson rpcId c = requestJson rpcId c') : c = c' := by
  have hread := ofJson_requestJson rpcId c
  rw [h, ofJson_requestJson, Except.ok.injEq, Option.some.injEq] at hread
  exact hread.symm

theorem planned_serves {n' : Node} {a : ControlAnswer} (hn : n.Counted n')
    (h : plan.Foresees x.registry.tables client c)
    (hresult : (x.registry.tables.handle client c).result = some a) :
    (plannedSetting plan text client).serve n x (requestJson n.rpcId c) n'
      (x.serve h n'.bpCounter) (a.response (.ofUInt32 n.rpcId)) := by
  refine ⟨hn, ?_⟩
  intro c' a' hrequest _ hresult'
  obtain rfl := eq_of_requestJson hrequest
  rw [hresult] at hresult'
  injection hresult' with hresult'
  exact ⟨by rw [hresult'], rfl, rfl⟩

theorem planned_guarantees {α : Type} {request : Json} {Q : Node → α → PlannedDesk plan → Prop}
    {resume : Node → Json → Session Node Json Json Fault α}
    (h : (Session.call n request resume).Safe (plannedSetting plan text client) Q x) :
    ∃ c a, ∃ hc : plan.Foresees x.registry.tables client c, request = requestJson n.rpcId c ∧
      (x.registry.tables.handle client c).result = some a ∧
      (x.last = none ∨ x.last = some n.bpCounter) ∧
      9 + (text.dump request).length ≤ maxDatagramSize ∧
      9 + (text.dump (a.response (.ofUInt32 n.rpcId))).length ≤ maxDatagramSize ∧
      ∀ n', n.Counted n' → (resume n' (a.response (.ofUInt32 n.rpcId))).Safe
        (plannedSetting plan text client) Q (x.serve hc n'.bpCounter) := by
  have hrely := (plannedSetting plan text client).rely_refl x
  have hself : n.Counted { n with bpCounter := n.bpCounter + 1 } := ⟨n.buffer, rfl⟩
  by_cases hforeseen : ∃ c, request = requestJson n.rpcId c ∧
      plan.Foresees x.registry.tables client c
  · obtain ⟨c, rfl, hc⟩ := hforeseen
    obtain ⟨a, hresult⟩ := exists_answer hc
    have hserved := fun n' (hn : n.Counted n') =>
      h x hrely _ _ _ (planned_serves hn hc hresult)
    obtain ⟨c', hrequest, _, hlast, hsize, hanswer⟩ := (hserved _ hself).1
    exact ⟨c, a, hc, rfl, hresult, hlast, hsize, hanswer a, fun n' hn => (hserved n' hn).2⟩
  · have hserve : (plannedSetting plan text client).serve n x request
        { n with bpCounter := n.bpCounter + 1 } x .null := by
      refine ⟨hself, ?_⟩
      intro c a hrequest hc
      exact absurd ⟨c, hrequest, hc⟩ hforeseen
    obtain ⟨c, hrequest, hc, _⟩ := (h x hrely _ _ _ hserve).1
    exact absurd ⟨c, hrequest, hc⟩ hforeseen

/-- A foreseen request with a short name is granted, with an answer of its kind. -/
theorem callMeets_planned (htext : text.DumpsShort) (hc : plan.Foresees x.registry.tables client c)
    (hlast : x.last = none ∨ x.last = some n.bpCounter) (hname : ShortName (requestName c)) :
    CallMeets (plannedSetting plan text client) n x c fun n' r z =>
      n.Counted n' ∧ z.last = some n'.bpCounter ∧
        ∃ a, r = some a ∧ x.registry.Grants client c a z.registry := by
  intro y hxy n' z d hserve
  have hc' : plan.Foresees y.registry.tables client c := hc.stable hxy.1.1 (hxy.1.2 y.small)
  obtain ⟨a, hresult⟩ := exists_answer hc'
  obtain ⟨hn, hserved⟩ := hserve
  obtain ⟨rfl, hregistry, hz⟩ := hserved c a rfl hc' hresult
  constructor
  · exact ⟨c, rfl, hc', hxy.2 ▸ hlast, htext.requests n.rpcId c hname,
      fun a' => htext.responses.granted a' n.rpcId⟩
  · have hhandled := y.registry.tables.handle_handled client c
    rw [hresult] at hhandled
    have hfits : a.Fits c := by
      generalize (y.registry.tables.handle client c).tables = t at hhandled
      cases hhandled <;> trivial
    refine ⟨some a, .granted _ hfits, ?_⟩
    intro w hw
    refine ⟨hn, hw.2.symm.trans hz, a, rfl, y.registry, z.registry, hxy.1, ?_, hw.1⟩
    rw [hregistry]
    exact hhandled

/-- So far everything has been granted. -/
def Joined (client : String) (nodeId : BpNodeId) (n : Node) (ok : Bool) (x : PlannedDesk plan) :
    Prop :=
  ok = true ∧ n.nodeId = nodeId ∧ x.last = some n.bpCounter ∧ x.registry.tables.Owns client nodeId

theorem Joined.stable {nodeId : BpNodeId} {ok : Bool} {y : PlannedDesk plan}
    (h : Joined client nodeId n ok x) (hxy : (plannedSetting plan text client).rely x y) :
    Joined client nodeId n ok y :=
  ⟨h.1, h.2.1, hxy.2 ▸ h.2.2.1, h.2.2.2.grows hxy.1.1⟩

variable {nodeId : BpNodeId}

theorem foresees_topic {y : PlannedDesk plan} {topicName typeName : String}
    {messageSize : MessageSize} {priority : TopicPriority} {messageTypeId : MessageTypeId}
    (htopic : ⟨topicName, typeName, priority⟩ ∈ plan.topics)
    (htyped : x.registry.Grants client (.registerMessageType typeName messageSize)
      (.messageType messageTypeId) y.registry) :
    plan.Foresees y.registry.tables client (.registerTopic topicName messageTypeId priority) :=
  ⟨_, htyped.records y.small, htopic⟩

theorem foresees_endpoint {y : PlannedDesk plan} {topicName : String}
    {priority actual : TopicPriority} {messageTypeId : MessageTypeId} {topicId : TopicId}
    (howns : x.registry.tables.Owns client nodeId)
    (hnamed : x.registry.Grants client (.registerTopic topicName messageTypeId priority)
      (.topic topicId actual) y.registry) :
    y.registry.tables.Owns client nodeId ∧ ∃ topic,
      y.registry.tables.topics[topicId.toNat]? = some topic ∧
        topic.messageTypeId = messageTypeId := by
  obtain ⟨topic, hget, _, htype, _⟩ := hnamed.records y.small
  exact ⟨howns.grows hnamed.grows, topic, hget, htype⟩

theorem planned_registerPublisher {k : ℕ} {p : Publisher} (htext : text.DumpsShort)
    (h : Joined client nodeId n true x)
    (hp : ⟨p.messageTypeName, p.messageSize⟩ ∈ plan.messageTypes ∧
      ⟨p.topicName, p.messageTypeName, p.topicPriority⟩ ∈ plan.topics)
    (hnames : ShortName p.topicName ∧ ShortName p.messageTypeName) :
    (registerPublisher k p n).Safe (plannedSetting plan text client)
      (Joined client nodeId) x := by
  obtain ⟨_, rfl, hlast, howns⟩ := h
  refine Program.safe_bind ((safe_registerMessageType
    (callMeets_planned htext hp.1 (.inr hlast) hnames.2)).mono ?_)
  rintro n₁ m z₁ ⟨⟨buffer₁, rfl⟩, hlast₁, a₁, hm, hgrant₁⟩
  obtain ⟨m, rfl, rfl⟩ := Option.map_eq_some_iff.mp hm
  simp only [Program.bind_apply, Program.modify_apply, Session.ret_bind]
  refine Session.Safe.bind ((safe_registerTopic (callMeets_planned htext
    (foresees_topic hp.2 hgrant₁) (.inr (by exact hlast₁)) hnames.1)).mono ?_)
  rintro n₂ (_ | ⟨topicId, priority⟩) z₂ h₂
  · obtain ⟨_, _, a₂, hnone, _⟩ := h₂
    cases hnone
  obtain ⟨actual, ⟨⟨buffer₂, rfl⟩, hlast₂, a₂, hid, hgrant₂⟩, _⟩ := h₂
  cases hid
  simp only [Program.bind_apply, Program.modify_apply, Session.ret_bind]
  have hadd := foresees_endpoint (howns.grows hgrant₁.grows) hgrant₂
  refine Session.Safe.bind (Session.Safe.mono ?_ (safe_addPublisher (callMeets_planned htext
    (c := .addPublisher n.nodeId topicId m) hadd (.inr (by exact hlast₂))
    (show ShortName "" by decide))))
  rintro n₃ (_ | _) z₃ ⟨⟨buffer₃, rfl⟩, hlast₃, a₃, hok, hgrant₃⟩
  · cases hok
  · intro w hw
    exact Joined.stable ⟨rfl, rfl, hlast₃, hadd.1.grows hgrant₃.grows⟩ hw

theorem planned_registerSubscriber {k : ℕ} {s : Subscriber} (htext : text.DumpsShort)
    (h : Joined client nodeId n true x)
    (hs : ⟨s.messageTypeName, s.messageSize⟩ ∈ plan.messageTypes ∧
      ⟨s.topicName, s.messageTypeName, s.topicPriority⟩ ∈ plan.topics)
    (hnames : ShortName s.topicName ∧ ShortName s.messageTypeName) :
    (registerSubscriber k s n).Safe (plannedSetting plan text client)
      (Joined client nodeId) x := by
  obtain ⟨_, rfl, hlast, howns⟩ := h
  refine Program.safe_bind ((safe_registerMessageType
    (callMeets_planned htext hs.1 (.inr hlast) hnames.2)).mono ?_)
  rintro n₁ m z₁ ⟨⟨buffer₁, rfl⟩, hlast₁, a₁, hm, hgrant₁⟩
  obtain ⟨m, rfl, rfl⟩ := Option.map_eq_some_iff.mp hm
  simp only [Program.bind_apply, Program.modify_apply, Session.ret_bind]
  refine Session.Safe.bind ((safe_registerTopic (callMeets_planned htext
    (foresees_topic hs.2 hgrant₁) (.inr (by exact hlast₁)) hnames.1)).mono ?_)
  rintro n₂ (_ | ⟨topicId, priority⟩) z₂ h₂
  · obtain ⟨_, _, a₂, hnone, _⟩ := h₂
    cases hnone
  obtain ⟨actual, ⟨⟨buffer₂, rfl⟩, hlast₂, a₂, hid, hgrant₂⟩, _⟩ := h₂
  cases hid
  simp only [Program.bind_apply, Program.modify_apply, Session.ret_bind]
  have hadd := foresees_endpoint (howns.grows hgrant₁.grows) hgrant₂
  refine Session.Safe.bind (Session.Safe.mono ?_ (safe_addSubscriber (callMeets_planned htext
    (c := .addSubscriber n.nodeId topicId m) hadd (.inr (by exact hlast₂))
    (show ShortName "" by decide))))
  rintro n₃ (_ | _) z₃ ⟨⟨buffer₃, rfl⟩, hlast₃, a₃, hok, hgrant₃⟩
  · cases hok
  · intro w hw
    exact Joined.stable ⟨rfl, rfl, hlast₃, hadd.1.grows hgrant₃.grows⟩ hw

theorem planned_registerEach {α : Type} {register : ℕ → α → NodeM Bool} {es : List α}
    (hstep : ∀ e ∈ es, ∀ k n x, Joined client nodeId n true x →
      (register k e n).Safe (plannedSetting plan text client) (Joined client nodeId) x)
    (k : ℕ) (h : Joined client nodeId n true x) :
    (registerEach register k es n).Safe (plannedSetting plan text client)
      (Joined client nodeId) x := by
  induction es generalizing k n x with
  | nil => exact fun y hy => h.stable hy
  | cons e es ih =>
    refine Program.safe_bind ((hstep e List.mem_cons_self k n x h).mono ?_)
    rintro n₁ ok z₁ h₁
    obtain rfl := h₁.1
    exact ih (fun e' he' => hstep e' (List.mem_cons_of_mem e he')) (k + 1) h₁

/-- Nothing keeps a node of the plan from connecting. -/
theorem planned_connect (htext : text.DumpsShort) (h : n.Follows plan client)
    (hlast : x.last = none ∨ x.last = some n.bpCounter)
    (hfresh : ∀ id, ¬ x.registry.tables.Owns client id) :
    (connect n).Safe (plannedSetting plan text client) (fun _ ok _ => ok = true) x := by
  refine Program.safe_bind ((safe_registerNode (callMeets_planned htext ⟨h.node, hfresh⟩
    hlast h.shortNames.name)).mono ?_)
  rintro n₁ (_ | _) z₁ h₁
  · obtain ⟨_, _, a, hnone, _⟩ := h₁
    cases hnone
  obtain ⟨_, id, rfl, ⟨buffer, rfl⟩, hlast₁, a, hid, y, w, hxy, hyw, hwz⟩ := h₁
  cases hid
  have hw : w.tables.Small := z₁.small.of_grows hwz.1
  have hy : y.tables.Small := hw.of_grows hyw.grows
  have howns : w.tables.Owns client id := (Tables.standing_of_newNode hyw rfl
    (fun id' hid' => hfresh id' ((hxy.2 hy).owns id' hid')) y.known hw).owns
  have hjoined : Joined client id { n with bpCounter := n.bpCounter + 1, buffer, nodeId := id }
      true z₁ := ⟨rfl, rfl, hlast₁, howns.grows hwz.1⟩
  have hpublishers : ∀ p ∈ n.publishers, ∀ k m y, Joined client id m true y →
      (registerPublisher k p m).Safe (plannedSetting plan text client)
        (Joined client id) y :=
    fun p hp k m y hy =>
      planned_registerPublisher htext hy (h.publishers p hp) (h.shortNames.publishers p hp)
  have hsubscribers : ∀ s ∈ n.subscribers, ∀ k m y, Joined client id m true y →
      (registerSubscriber k s m).Safe (plannedSetting plan text client)
        (Joined client id) y :=
    fun s hs k m y hy =>
      planned_registerSubscriber htext hy (h.subscribers s hs) (h.shortNames.subscribers s hs)
  simp only [Bool.not_true, Bool.false_eq_true, if_false, Program.bind_apply, Program.get_apply,
    Session.ret_bind]
  refine Session.Safe.bind ((planned_registerEach hpublishers 0 hjoined).mono ?_)
  rintro n₂ ok z₂ h₂
  obtain rfl := h₂.1
  apply (planned_registerEach hsubscribers 0 h₂).mono
  exact fun _ _ _ h₃ => h₃.1

end Planned
end Node
end Crps
