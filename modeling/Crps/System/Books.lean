import Crps.Broker.ClientCounters
import Crps.Foundation.Attempts
import Crps.Node.Priority
import Crps.System.Steps

/-!
# A node's events, added up

What a list of events amounts to for the packet counter and for the queue of
each publisher: how many stamps were drawn and which of them went out, and that
a publisher has sent or still holds exactly what it has accepted, in that order.
-/

namespace Crps

/-- Results of the `sendto` calls, in order. -/
def sendResults (events : List SpinEvent) : List Bool :=
  events.filterMap fun
    | .sendto _ _ sent => some sent
    | _ => none

/-- The packets that went out. -/
def sentPackets (events : List SpinEvent) : List Bytes :=
  events.filterMap fun
    | .sendto _ packet true => some packet
    | _ => none

/-- Payloads of one publisher that went out. -/
def payloadsSent (events : List SpinEvent) (k : ℕ) : List Bytes :=
  events.filterMap fun
    | .sendto j packet true =>
      if j = k then some (packet.drop (bpHeaderSize + bpDataHeaderSize)) else none
    | _ => none

section Append

variable (es fs : List SpinEvent) (k : ℕ)

theorem sendResults_append : sendResults (es ++ fs) = sendResults es ++ sendResults fs :=
  List.filterMap_append

theorem sentPackets_append : sentPackets (es ++ fs) = sentPackets es ++ sentPackets fs :=
  List.filterMap_append

theorem payloadsSent_append :
    payloadsSent (es ++ fs) k = payloadsSent es k ++ payloadsSent fs k := List.filterMap_append

theorem acceptedPayloads_append :
    acceptedPayloads (es ++ fs) k = acceptedPayloads es k ++ acceptedPayloads fs k :=
  List.filterMap_append

theorem transmitted_append : transmitted (es ++ fs) k = transmitted es k + transmitted fs k :=
  List.countP_append

end Append

theorem length_payloadsSent (events : List SpinEvent) (k : ℕ) :
    (payloadsSent events k).length = transmitted events k := by
  induction events with
  | nil => rfl
  | cons e events ih =>
    have happend := payloadsSent_append [e] events k
    have hcount := transmitted_append [e] events k
    rw [List.singleton_append] at happend hcount
    rw [happend, List.length_append, ih, hcount, Nat.add_right_cancel_iff]
    cases e with
    | sendto j packet sent =>
      cases sent with
      | false => rfl
      | true => by_cases hjk : j = k <;> simp [payloadsSent, transmitted, hjk]
    | _ => rfl

/-! ## The counter -/

namespace Node

variable {n n' : Node} {e : SpinEvent} {es : List SpinEvent}

theorem iterate_add_one (c : BpCounter) (k : ℕ) : (· + 1)^[k] c = c + UInt32.ofNat k := by
  induction k with
  | zero => simp
  | succ k ih => rw [Function.iterate_succ_apply', ih, add_ofNat_succ]

theorem iterate_eq_self_iff (c : BpCounter) (k : ℕ) : (· + 1)^[k] c = c ↔ 2 ^ 32 ∣ k := by
  rw [iterate_add_one]
  have hzero : c + UInt32.ofNat k = c ↔ UInt32.ofNat k = 0 := by
    constructor
    · intro h
      have hsub := congrArg (· - c) h
      rwa [UInt32.add_comm, UInt32.add_sub_cancel, UInt32.sub_self] at hsub
    · intro h
      rw [h, UInt32.add_zero]
  rw [hzero, ← UInt32.toNat_inj, UInt32.toNat_ofNat', Nat.dvd_iff_mod_eq_zero]
  rfl

/-- An event draws a stamp exactly if it is a call of `sendto`. -/
theorem Does.bpCounter (h : n.Does e n') :
    n'.bpCounter = (· + 1)^[(sendResults [e]).length] n.bpCounter := by
  cases h with
  | publish k data =>
    unfold Node.publish
    split <;> rfl
  | queueMessage k data =>
    unfold Node.queueMessage
    split <;> rfl
  | callback left hs hm => rfl
  | sendFailed hp hm hpacket => rfl
  | sent hp hm hpacket => rfl

theorem Does.stamps (h : n.Does e n') (hlong : ∀ packet ∈ sentPackets [e], 5 ≤ packet.length) :
    (sentPackets [e]).map packetCounter =
      CounterGate.successStamps (· + 1) n.bpCounter (sendResults [e]) := by
  cases h with
  | publish k data =>
    unfold Node.publish
    split <;> rfl
  | queueMessage k data =>
    unfold Node.queueMessage
    split <;> rfl
  | callback left hs hm => rfl
  | sendFailed hp hm hpacket => rfl
  | @sent k p message packet hp hm hpacket =>
    have hlen : 5 ≤ packet.length := hlong packet (by simp [sentPackets])
    have hcounter : packetCounter packet = n.bpCounter + 1 := by
      rw [hpacket]
      apply packetCounter_fillDataHeader
      simpa [hpacket, sendData, bpFillDataHeader] using hlen
    simp [sentPackets, sendResults, CounterGate.successStamps, hcounter]

theorem Performs.stamps (h : n.Performs es n')
    (hlong : ∀ packet ∈ sentPackets es, 5 ≤ packet.length) :
    (sentPackets es).map packetCounter =
      CounterGate.successStamps (· + 1) n.bpCounter (sendResults es) := by
  induction h with
  | nil n buffer => rfl
  | @cons n n₁ n₂ e es buffer hdoes _ ih =>
    have hpackets := sentPackets_append [e] es
    have hresults := sendResults_append [e] es
    rw [List.singleton_append] at hpackets hresults
    rw [hpackets] at hlong
    have hfirst := hdoes.stamps fun packet hp => hlong packet (List.mem_append_left _ hp)
    have hrest := ih fun packet hp => hlong packet (List.mem_append_right _ hp)
    rw [hpackets, hresults, List.map_append, CounterGate.successStamps_append, hfirst, hrest,
      hdoes.bpCounter]

/-! ## The queues -/

theorem Does.sent_length (h : n.Does e n') {k : ℕ} {packet : Bytes} {sent : Bool}
    (he : e = .sendto k packet sent) : ∃ info, n.config.publishers[k]? = some info ∧
      packet.length = (UInt32.ofNat (info.packetHeaderSize + info.messageSize.toNat)).toNat := by
  have hfilled : ∀ {p : Publisher} {message : Bytes}, n.publishers[k]? = some p →
      p.getMessage = some message →
      packet = (n.sendData p.topicId p.messageTypeId message p.packetSize).1 →
      ∃ info, n.config.publishers[k]? = some info ∧
        packet.length = (UInt32.ofNat (info.packetHeaderSize + info.messageSize.toNat)).toNat := by
    intro p message hp hm hpacket
    refine ⟨p.info, by simp [Node.config, hp], ?_⟩
    have hmem : message ∈ p.messageQueue.contents := by
      rw [p.getMessage_eq] at hm
      exact List.mem_of_head? hm
    have hlength := p.messageQueue.length_of_mem_contents hmem
    rw [p.queue_size] at hlength
    simpa [hpacket, sendData, bpFillDataHeader, Publisher.info] using hlength
  cases h with
  | publish j data =>
    unfold Node.publish at he
    split at he <;> cases he
  | queueMessage j data =>
    unfold Node.queueMessage at he
    split at he <;> cases he
  | callback => cases he
  | sendFailed hp hm hpacket =>
    cases he
    exact hfilled hp hm hpacket
  | sent hp hm hpacket =>
    cases he
    exact hfilled hp hm hpacket

theorem Performs.sent_length (h : n.Performs es n') {k : ℕ} {packet : Bytes} {sent : Bool}
    (hmem : .sendto k packet sent ∈ es) : ∃ info, n.config.publishers[k]? = some info ∧
      packet.length = (UInt32.ofNat (info.packetHeaderSize + info.messageSize.toNat)).toNat := by
  induction h with
  | nil => cases hmem
  | @cons n n₁ n₂ e es buffer hdoes _ ih =>
    rcases List.mem_cons.mp hmem with hhead | hmem
    · exact hdoes.sent_length hhead.symm
    · rw [show n.config = n₁.config from hdoes.config.symm]
      exact ih hmem

theorem Does.outgoing_ne (h : n.Does e n') {k : ℕ} (hk : e.publisher? ≠ some k) :
    n'.outgoing k = n.outgoing k := by
  have hset : ∀ {j : ℕ} {p p' : Publisher}, n.publishers[j]? = some p → some j ≠ some k →
      Node.outgoing { n with publishers := n.publishers.set j p' } k = n.outgoing k := by
    intro j p p' hp hj
    have hne : k ≠ j := fun he => hj (congrArg some he.symm)
    rw [outgoing_set hp, Function.update_of_ne hne]
  cases h with
  | publish j data =>
    rw [publisher?_publish] at hk
    cases hp : n.publishers[j]? with
    | none => simp only [Node.publish, hp]
    | some p =>
      rw [publish_of_some hp]
      exact hset hp hk
  | queueMessage j data =>
    unfold Node.queueMessage
    split <;> rfl
  | callback => rfl
  | sendFailed hp => exact hset hp hk
  | sent hp => exact hset hp hk

/-- A publisher has sent or still holds what it has accepted. -/
theorem Does.outgoing (h : n.Does e n') {k : ℕ} (hfits : n.config.FitsAt k) :
    n.outgoing k ++ acceptedPayloads [e] k = payloadsSent [e] k ++ n'.outgoing k := by
  by_cases hk : e.publisher? = some k
  · have hadvances := h.advances fun j hj => by
      rw [hk] at hj
      injection hj with hj
      exact hj ▸ hfits
    have hqueue : n'.outgoing k = (n.queues.apply e).outgoing k :=
      congrArg (fun q => NodeQueues.outgoing q k) hadvances.queues
    have hallows : NodeQueues.Allows n.config n.queues e := hadvances.runs.1
    have hown : n.queues.outgoing = n.outgoing := rfl
    cases e with
    | publish j payload taken =>
      injection hk with hk
      subst hk
      cases taken with
      | false => simp [acceptedPayloads, payloadsSent, hqueue, NodeQueues.apply, hown]
      | true => simp [acceptedPayloads, payloadsSent, hqueue, NodeQueues.apply, hown]
    | sendto j packet sent =>
      injection hk with hk
      subst hk
      cases sent with
      | false => simp [acceptedPayloads, payloadsSent, hqueue, NodeQueues.apply, hown]
      | true =>
        obtain ⟨p, payload, _, hhead, _, rfl⟩ := hallows
        obtain ⟨rest, hrest⟩ := List.head?_eq_some_iff.mp hhead
        rw [hown] at hrest
        have hdrop : List.drop 17 (dataHeaderBytes (n.queues.counter + 1) p.topicId p.messageTypeId
            p.messageSize ++ payload) = payload :=
          List.drop_left' (length_dataHeaderBytes _ _ _ _)
        simp [acceptedPayloads, payloadsSent, hqueue, NodeQueues.apply, hown, hrest, bpHeaderSize,
          bpDataHeaderSize, hdrop]
    | _ => cases hk
  · rw [h.outgoing_ne hk]
    cases e with
    | publish j payload taken =>
      have hj : j ≠ k := fun he => hk (congrArg some he)
      cases taken <;> simp [acceptedPayloads, payloadsSent, hj]
    | sendto j packet sent =>
      have hj : j ≠ k := fun he => hk (congrArg some he)
      cases sent <;> simp [acceptedPayloads, payloadsSent, hj]
    | _ => simp [acceptedPayloads, payloadsSent]

theorem Performs.outgoing (h : n.Performs es n') {k : ℕ} (hfits : n.config.FitsAt k) :
    n.outgoing k ++ acceptedPayloads es k = payloadsSent es k ++ n'.outgoing k := by
  induction h with
  | nil n buffer => simp [acceptedPayloads, payloadsSent, Node.outgoing]
  | @cons n n₁ n₂ e es buffer hdoes _ ih =>
    have haccepted := acceptedPayloads_append [e] es k
    have hsent := payloadsSent_append [e] es k
    rw [List.singleton_append] at haccepted hsent
    have hfirst := hdoes.outgoing (k := k) hfits
    have hrest := ih (hdoes.config ▸ hfits)
    rw [haccepted, hsent, ← List.append_assoc, List.append_assoc (payloadsSent [e] k), ← hrest,
      ← List.append_assoc]
    exact congrArg (· ++ acceptedPayloads es k) hfirst

theorem length_acceptedPayloads (events : List SpinEvent) (k : ℕ) :
    (acceptedPayloads events k).length = publishedTo events (.publisher k) := by
  induction events with
  | nil => rfl
  | cons e events ih =>
    have happend := acceptedPayloads_append [e] events k
    rw [List.singleton_append] at happend
    rw [happend, List.length_append, ih, publishedTo_cons e events, Nat.add_right_cancel_iff]
    cases e with
    | publish j payload taken =>
      cases taken with
      | false => rfl
      | true => by_cases hjk : j = k <;> simp [acceptedPayloads, publishedTo, hjk]
    | _ => rfl

theorem Does.queued (h : n.Does e n') (k : ℕ) :
    n.queued (.publisher k) + publishedTo [e] (.publisher k) =
      transmitted [e] k + n'.queued (.publisher k) := by
  have hset : ∀ {j : ℕ} {p : Publisher}, n.publishers[j]? = some p → ∀ (p' : Publisher) (c : ℕ),
      c + Node.queued { n with publishers := n.publishers.set j p' } (.publisher k) =
        c + if j = k then p'.messagesQueued else n.queued (.publisher k) := by
    intro j p hp p' c
    have hlt := (List.getElem?_eq_some_iff.mp hp).1
    by_cases hj : j = k
    · subst hj
      simp [Node.queued, hlt]
    · simp [Node.queued, hj]
  cases h with
  | publish j data =>
    rw [queued_publish]
    have hnothing : transmitted [(n.publish j data).2] k = 0 := by
      unfold Node.publish
      split <;> rfl
    rw [hnothing, Nat.zero_add]
  | queueMessage j data =>
    unfold Node.queueMessage
    split <;> simp [publishedTo, transmitted, Node.queued]
  | callback => simp [publishedTo, transmitted, Node.queued]
  | @sendFailed j p message packet hp =>
    refine Eq.trans ?_ (hset hp (p.writeMessage 0 packet) _).symm
    rw [p.writeMessage_messagesQueued]
    by_cases hj : j = k
    · subst hj
      simp [publishedTo, transmitted, Node.queued, hp]
    · simp [publishedTo, transmitted, hj]
  | @sent j p message packet hp hm =>
    refine Eq.trans ?_ (hset hp (p.writeMessage 0 packet).popMessage.2 _).symm
    rw [Publisher.popMessage_messagesQueued, p.writeMessage_messagesQueued]
    by_cases hj : j = k
    · subst hj
      have hsome : p.messagesQueued ≠ 0 := by
        rw [p.messagesQueued_eq]
        rw [p.getMessage_eq] at hm
        intro hzero
        rw [List.length_eq_zero_iff.mp hzero] at hm
        cases hm
      simp [publishedTo, transmitted, Node.queued, hp]
      omega
    · simp [publishedTo, transmitted, hj]

theorem Performs.queued (h : n.Performs es n') (k : ℕ) :
    n.queued (.publisher k) + publishedTo es (.publisher k) =
      transmitted es k + n'.queued (.publisher k) := by
  induction h with
  | nil n buffer => simp [publishedTo, transmitted, Node.queued]
  | @cons n n₁ n₂ e es buffer hdoes _ ih =>
    have hpublished := publishedTo_cons e es (.publisher k)
    have hcount := transmitted_append [e] es k
    rw [List.singleton_append] at hcount
    have hfirst : n.queued (.publisher k) + publishedTo [e] (.publisher k) =
        transmitted [e] k + n₁.queued (.publisher k) := hdoes.queued k
    omega

/-! ## The requests of `connect` -/

section Steady

open Program

variable {τ : Type} {f : Node → τ}

theorem steady_succeeded (result : Json) : (succeeded result).Steady f := by
  unfold succeeded
  split
  · exact steady_pure false
  · exact steady_bind (steady_ofExcept _) fun _ => steady_ofExcept _

theorem steady_fieldUInt32 (result : Json) (key : String) : (fieldUInt32 result key).Steady f :=
  steady_bind (steady_ofExcept _) fun _ => steady_ofExcept _

theorem steady_registerMessageType (name : String) (size : MessageSize) :
    (registerMessageType name size).Steady f := by
  refine steady_bind steady_get fun n => steady_bind (steady_call _) fun result =>
    steady_bind (steady_succeeded result) fun ok => ?_
  split
  · exact steady_pure none
  · exact steady_bind (steady_fieldUInt32 _ _) fun _ => steady_pure _

theorem steady_registerTopic (name : String) (messageTypeId : MessageTypeId)
    (priority : TopicPriority) (wantPriority : Bool) :
    (registerTopic name messageTypeId priority wantPriority).Steady f := by
  refine steady_bind steady_get fun n => steady_bind (steady_call _) fun result =>
    steady_bind (steady_succeeded result) fun ok => ?_
  split
  · exact steady_pure none
  · refine steady_bind (steady_fieldUInt32 _ _) fun topicId => ?_
    split
    · exact steady_bind (steady_ofExcept _) fun _ => steady_bind (steady_ofExcept _) fun _ =>
        steady_pure _
    · exact steady_pure _

theorem steady_addEndpoint (action : String) (topicId : TopicId) (messageTypeId : MessageTypeId) :
    (addEndpoint action topicId messageTypeId).Steady f :=
  steady_bind steady_get fun _ => steady_bind (steady_call _) fun _ => steady_succeeded _

theorem steady_registerEach {α : Type} {register : ℕ → α → NodeM Bool}
    (h : ∀ k e, (register k e).Steady f) (k : ℕ) (es : List α) :
    (registerEach register k es).Steady f := by
  induction es generalizing k with
  | nil => exact steady_pure true
  | cons e es ih =>
    refine steady_bind (h k e) fun ok => ?_
    split
    · exact steady_pure false
    · exact ih (k + 1)

theorem steady_registerPublisher (k : ℕ) (p : Publisher) :
    (registerPublisher k p).Steady Node.bpCounter := by
  refine steady_bind (steady_registerMessageType _ _) fun type => ?_
  split
  · refine steady_bind (steady_modify fun _ => rfl) fun _ =>
      steady_bind (steady_registerTopic _ _ _ _) fun topic => ?_
    split
    · refine steady_bind (steady_modify fun _ => rfl) fun _ =>
        steady_bind (steady_addEndpoint _ _ _) fun ok => ?_
      split
      · exact steady_pure false
      · exact steady_bind (steady_modify fun _ => rfl) fun _ =>
          steady_bind (steady_modify fun _ => rfl) fun _ => steady_pure true
    · exact steady_pure false
  · exact steady_pure false

theorem steady_registerSubscriber (k : ℕ) (s : Subscriber) :
    (registerSubscriber k s).Steady Node.bpCounter := by
  refine steady_bind (steady_registerMessageType _ _) fun type => ?_
  split
  · refine steady_bind (steady_modify fun _ => rfl) fun _ =>
      steady_bind (steady_registerTopic _ _ _ _) fun topic => ?_
    split
    · refine steady_bind (steady_modify fun _ => rfl) fun _ =>
        steady_bind (steady_addEndpoint _ _ _) fun ok => ?_
      split
      · exact steady_pure false
      · exact steady_bind (steady_modify fun _ => rfl) fun _ =>
          steady_bind (steady_modify fun _ => rfl) fun _ => steady_pure true
    · exact steady_pure false
  · exact steady_pure false

theorem steady_registerNode : registerNode.Steady Node.bpCounter := by
  refine steady_bind steady_get fun n => steady_bind (steady_call _) fun result =>
    steady_bind (steady_succeeded result) fun ok => ?_
  split
  · exact steady_pure false
  · exact steady_bind (steady_fieldUInt32 _ _) fun _ =>
      steady_bind (steady_modify fun _ => rfl) fun _ => steady_pure true

theorem steady_connect : connect.Steady Node.bpCounter := by
  refine steady_bind steady_registerNode fun ok => ?_
  split
  · exact steady_pure false
  · refine steady_bind steady_get fun n =>
      steady_bind (steady_registerEach steady_registerPublisher 0 n.publishers) fun ok => ?_
    split
    · exact steady_pure false
    · exact steady_registerEach steady_registerSubscriber 0 n.subscribers

end Steady

end Node
end Crps
