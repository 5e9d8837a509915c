import Crps.Foundation.Bus
import Crps.System.EndToEnd

/-!
# Nodes and broker as one message bus

What the applications see of a run are the results of their calls of `publish`
and the messages their callbacks get. All of it, in the order in which it
happens in the whole system, could also be seen of a bus that knows nothing of
packets, ids, counters, queues at the subscribers or a broker.
-/

namespace Crps

namespace Node

variable {n n' start : Node} {e : SpinEvent}

theorem capacityOf_of_blueprint (h : n.blueprint = start.blueprint) (k : ℕ) :
    n.capacityOf k = start.capacityOf k := by
  have hget := congrArg (fun c => (c.1[k]?).getD 0) (capacities_of_blueprint h)
  simp only [capacities, List.getElem?_map] at hget
  unfold capacityOf
  cases hn : n.publishers[k]? <;> cases hstart : start.publishers[k]? <;> simp_all

theorem Does.publish_taken {k : ℕ} {payload : Bytes} {taken : Bool}
    (h : n.Does (.publish k payload taken) n') :
    taken = decide (n.queued (.publisher k) < n.capacityOf k) := by
  generalize hevent : SpinEvent.publish k payload taken = e at h
  cases h with
  | publish j data =>
    cases hp : n.publishers[j]? with
    | none =>
      simp only [Node.publish, hp, SpinEvent.publish.injEq] at hevent
      obtain ⟨rfl, _, rfl⟩ := hevent
      simp [capacityOf, hp]
    | some p =>
      rw [publish_of_some hp, SpinEvent.publish.injEq] at hevent
      obtain ⟨rfl, _, rfl⟩ := hevent
      rw [Bool.eq_iff_iff, p.publish_iff]
      simp [Node.queued, capacityOf, hp]
  | queueMessage j data =>
    unfold Node.queueMessage at hevent
    split at hevent <;> cases hevent
  | _ => cases hevent

theorem Does.queued_of_sent {k : ℕ} {packet : Bytes} (h : n.Does (.sendto k packet true) n') :
    n.queued (.publisher k) ≠ 0 := by
  have hqueued := h.performs.queued k
  have hout : transmitted [SpinEvent.sendto k packet true] k = 1 := by simp [transmitted]
  rw [hout] at hqueued
  simp only [publishedTo, List.countP_cons, List.countP_nil] at hqueued
  simp at hqueued
  omega

end Node

namespace System

variable {ι : Type} {net : Deployment ι} {nodes : ι → Node} {s s' : System ι} {i j : ι}
variable {r : Registry}

/-! ## What can be seen -/

/-- Publishers and subscribers as they are created: subscribers listen to the publishers of their
topic and message type. -/
def busShape (nodes : ι → Node) : BusShape (ι × ℕ) (ι × ℕ) where
  capacity p := (nodes p.1).capacityOf p.2
  Hears q p := ∃ pub sub, (nodes p.1).publishers[p.2]? = some pub ∧
    (nodes q.1).subscribers[q.2]? = some sub ∧ pub.topicName = sub.topicName ∧
      pub.messageTypeName = sub.messageTypeName

def observe (i : ι) : SpinEvent → Option (BusEvent (ι × ℕ) (ι × ℕ) Bytes)
  | .publish k payload taken => some (.publish (i, k) payload taken)
  | .callback k message => some (.callback (i, k) message)
  | _ => none

theorem exists_of_observed {events : List SpinEvent} {t : ℕ}
    {seen : BusEvent (ι × ℕ) (ι × ℕ) Bytes}
    (hat : (events.filterMap (observe i))[t]? = some seen) :
    ∃ u e, events[u]? = some e ∧ observe i e = some seen ∧
      (events.take u).filterMap (observe i) = (events.filterMap (observe i)).take t ∧
      (events.drop (u + 1)).filterMap (observe i) =
        (events.filterMap (observe i)).drop (t + 1) := by
  obtain ⟨hlt, hseen⟩ := List.getElem?_eq_some_iff.mp hat
  have hsplit : events.filterMap (observe i) = (events.filterMap (observe i)).take t ++
      seen :: (events.filterMap (observe i)).drop (t + 1) := by
    rw [← hseen, List.getElem_cons_drop, List.take_append_drop]
  obtain ⟨es, fs, hevents, hbefore, hrest⟩ := List.filterMap_eq_append_iff.mp hsplit
  obtain ⟨quiet, e, later, hfs, hquiet, he, hlater⟩ := List.filterMap_eq_cons_iff.mp hrest
  have hall : events = (es ++ quiet) ++ e :: later := by rw [hevents, hfs, List.append_assoc]
  refine ⟨(es ++ quiet).length, e, ?_, he, ?_, ?_⟩
  · rw [hall, List.getElem?_append_right (Nat.le_refl _), Nat.sub_self]
    rfl
  · rw [hall, List.take_left, List.filterMap_append, hbefore,
      List.filterMap_eq_nil_iff.mpr hquiet, List.append_nil, ← hall]
  · rw [hall, List.drop_length_add_append, ← hall, ← hlater]
    rfl

end System

/-- The node that an action is about. -/
def Action.node {ι : Type} : Action ι → ι
  | .connect i => i
  | .rpcReturn i => i
  | .broker i => i
  | .publish i _ _ => i
  | .spin i _ _ => i
  | .loseUp i _ => i
  | .loseDown i _ => i

namespace System

variable {ι : Type} {net : Deployment ι} {nodes : ι → Node} {s s' : System ι} {i j : ι}
variable {r : Registry}

/-- What a step from `s` to `s'` lets node `i`'s application see. -/
def seen (s s' : System ι) (i : ι) : List (BusEvent (ι × ℕ) (ι × ℕ) Bytes) :=
  ((s'.ledger i).trace.drop (s.ledger i).trace.length).filterMap (observe i)

/-- What a schedule lets the applications see. -/
def observations [DecidableEq ι] (net : Deployment ι) :
    System ι → List (Action ι) → List (BusEvent (ι × ℕ) (ι × ℕ) Bytes)
  | _, [] => []
  | s, a :: as =>
    match s.step net a with
    | none => []
    | some s' => s.seen s' a.node ++ observations net s' as

/-! ## The bus in the books -/

def handing (m : Option (MessageId ι) × Bytes) : Option ((ι × ℕ) × ℕ) :=
  m.1.map fun id => ((id.node, id.publisher), id.index)

/-- The bus that the ledgers describe. -/
def bus (ledger : ι → Ledger ι) : Bus (ι × ℕ) (ι × ℕ) Bytes where
  accepted p := acceptedPayloads (ledger p.1).trace p.2
  sent p := transmitted (ledger p.1).trace p.2
  handed q := ((ledger q.1).delivered q.2).filterMap handing

section Events

variable [DecidableEq ι] {ledger : ι → Ledger ι} {x : ι} {n n' : Node} {e : SpinEvent}
variable {received : Option (MessageId ι)} {l' : Ledger ι}

theorem bus_update (htrace : l'.trace = (ledger x).trace ++ [e]) :
    bus (Function.update ledger x l') =
      { accepted := fun p => (bus ledger).accepted p ++
          if p.1 = x then acceptedPayloads [e] p.2 else []
        sent := fun p => (bus ledger).sent p + if p.1 = x then transmitted [e] p.2 else 0
        handed := fun q => if q.1 = x then (l'.delivered q.2).filterMap handing
          else (bus ledger).handed q } := by
  have hsame : ∀ i, i = x → Function.update ledger x l' i = l' := by
    rintro i rfl
    exact Function.update_self ..
  have hother : ∀ i, i ≠ x → Function.update ledger x l' i = ledger i :=
    fun i hix => Function.update_of_ne hix _ _
  simp only [bus, Bus.mk.injEq]
  refine ⟨?_, ?_, ?_⟩
  · funext p
    by_cases hp : p.1 = x
    · rw [hsame _ hp, htrace, acceptedPayloads_append, if_pos hp, hp]
    · rw [hother _ hp, if_neg hp, List.append_nil]
  · funext p
    by_cases hp : p.1 = x
    · rw [hsame _ hp, htrace, transmitted_append, if_pos hp, hp]
    · rw [hother _ hp, if_neg hp, Nat.add_zero]
  · funext q
    by_cases hq : q.1 = x
    · rw [hsame _ hq, if_pos hq]
    · rw [hother _ hq, if_neg hq]

theorem handed_self (hdelivered : l'.delivered = (ledger x).delivered) :
    (fun q : ι × ℕ => if q.1 = x then (l'.delivered q.2).filterMap handing
      else (bus ledger).handed q) = (bus ledger).handed := by
  funext q
  by_cases hq : q.1 = x
  · rw [if_pos hq, hdelivered, ← hq]
    rfl
  · exact if_neg hq

theorem bus_update_idle (htrace : l'.trace = (ledger x).trace ++ [e])
    (hdelivered : l'.delivered = (ledger x).delivered)
    (haccepted : ∀ k, acceptedPayloads [e] k = []) (htransmitted : ∀ k, transmitted [e] k = 0) :
    bus (Function.update ledger x l') = bus ledger := by
  rw [bus_update htrace, handed_self hdelivered]
  simp only [haccepted, htransmitted, ite_self, List.append_nil, Nat.add_zero]

theorem bus_update_accept {k : ℕ} {payload : Bytes}
    (htrace : l'.trace = (ledger x).trace ++ [.publish k payload true])
    (hdelivered : l'.delivered = (ledger x).delivered) :
    bus (Function.update ledger x l') = (bus ledger).accept (x, k) payload := by
  rw [bus_update htrace, handed_self hdelivered]
  simp only [Bus.accept, Bus.mk.injEq, and_true]
  constructor
  · funext p
    by_cases hp : p = (x, k)
    · subst hp
      simp [acceptedPayloads]
    · rw [Function.update_of_ne hp]
      by_cases hpx : p.1 = x
      · have hk : k ≠ p.2 := by
          rintro rfl
          exact hp (by rw [← hpx])
        simp [acceptedPayloads, hk]
      · simp [hpx]
  · funext p
    simp [transmitted]

theorem bus_update_letGo {k : ℕ} {packet : Bytes}
    (htrace : l'.trace = (ledger x).trace ++ [.sendto k packet true])
    (hdelivered : l'.delivered = (ledger x).delivered) :
    bus (Function.update ledger x l') = (bus ledger).letGo (x, k) := by
  rw [bus_update htrace, handed_self hdelivered]
  simp only [Bus.letGo, Bus.mk.injEq, and_true]
  constructor
  · funext p
    simp [acceptedPayloads]
  · funext p
    by_cases hp : p = (x, k)
    · subst hp
      simp [transmitted]
    · rw [Function.update_of_ne hp]
      by_cases hpx : p.1 = x
      · have hk : k ≠ p.2 := by
          rintro rfl
          exact hp (by rw [← hpx])
        simp [transmitted, hk]
      · simp [hpx]

theorem bus_update_hand {k : ℕ} {message : Bytes} {id : MessageId ι}
    (htrace : l'.trace = (ledger x).trace ++ [.callback k message])
    (hdelivered : l'.delivered = Function.update (ledger x).delivered k
      ((ledger x).delivered k ++ [(some id, message)])) :
    bus (Function.update ledger x l') =
      (bus ledger).hand (x, k) (id.node, id.publisher) id.index := by
  rw [bus_update htrace]
  simp only [Bus.hand, Bus.mk.injEq]
  refine ⟨?_, ?_, ?_⟩
  · funext p
    simp [acceptedPayloads]
  · funext p
    simp [transmitted]
  · funext q
    by_cases hq : q = (x, k)
    · subst hq
      simp [hdelivered, bus, handing]
    · rw [Function.update_of_ne hq]
      by_cases hqx : q.1 = x
      · have hk : q.2 ≠ k := by
          rintro rfl
          exact hq (by rw [← hqx])
        rw [if_pos hqx, hdelivered, Function.update_of_ne hk, ← hqx]
        rfl
      · exact if_neg hqx

theorem mem_numbers_of_handing {handed : List (Option (MessageId ι) × Bytes)} {k index : ℕ}
    (h : ((i, k), index) ∈ handed.filterMap handing) :
    index ∈ numbers i k (handed.map Prod.fst) := by
  obtain ⟨m, hm, hsome⟩ := List.mem_filterMap.mp h
  obtain ⟨id, hid, hindex⟩ := Option.map_eq_some_iff.mp hsome
  rw [Prod.mk.injEq, Prod.mk.injEq] at hindex
  obtain ⟨⟨rfl, rfl⟩, rfl⟩ := hindex
  exact List.mem_filterMap.mpr
    ⟨m.1, List.mem_map_of_mem hm, by simp [hid, numberFrom]⟩

/-- A message that can be handed to subscriber `k` of node `j`. -/
def Due (nodes : ι → Node) (ledger : ι → Ledger ι) (j : ι) (k : ℕ)
    (m : Option (MessageId ι) × Bytes) : Prop :=
  ∃ id, m.1 = some id ∧ (busShape nodes).Hears (j, k) (id.node, id.publisher) ∧
    id.index < transmitted (ledger id.node).trace id.publisher ∧
    (acceptedPayloads (ledger id.node).trace id.publisher)[id.index]? = some m.2

/-- What one event of a node is on the bus. -/
theorem does_observed (hdoes : n.Does e n')
    (hbooks : ∀ k, (acceptedPayloads (ledger x).trace k).length =
      transmitted (ledger x).trace k + n.queued (.publisher k))
    (hcapacity : ∀ k, n.capacityOf k = (nodes x).capacityOf k)
    (hdue : ∀ k message, e = .callback k message →
      Due nodes ledger x k (((ledger x).inbox k).head?.join, message))
    (hsorted : ∀ k i l, (numbers i l
      ((((ledger x).record received e).delivered k).map Prod.fst)).Pairwise (· ≤ ·)) :
    Bus.Runs (busShape nodes) (bus ledger) (observe x e).toList
      (bus (Function.update ledger x ((ledger x).record received e))) := by
  have htrace : ((ledger x).record received e).trace = (ledger x).trace ++ [e] := by
    rw [Ledger.record_trace]
  cases e with
  | publish k payload taken =>
    have htaken := hdoes.publish_taken
    have hlength := hbooks k
    rw [hcapacity] at htaken
    cases taken with
    | true =>
      have hroom := of_decide_eq_true htaken.symm
      rw [bus_update_accept htrace rfl]
      apply Bus.Step.runs
      apply Bus.Step.accept
      simp only [bus, busShape]
      omega
    | false =>
      have hfull := of_decide_eq_false htaken.symm
      rw [bus_update_idle htrace rfl (fun _ => rfl) fun _ => rfl]
      apply Bus.Step.runs
      apply Bus.Step.refuse
      simp only [bus, busShape]
      omega
  | callback k message =>
    obtain ⟨id, hid, hhears, hsent, hmessage⟩ := hdue k message rfl
    have hdelivered : ((ledger x).record received (.callback k message)).delivered =
        Function.update (ledger x).delivered k
          ((ledger x).delivered k ++ [(some id, message)]) := by
      simp only at hid
      simp only [Ledger.record, hid]
    rw [bus_update_hand htrace hdelivered]
    apply Bus.Step.runs
    refine Bus.Step.hand (x, k) _ id.index message hhears hsent hmessage fun earlier hearlier => ?_
    have horder := hsorted k id.node id.publisher
    rw [hdelivered, Function.update_self, List.map_append, numbers_append] at horder
    apply (List.pairwise_append.mp horder).2.2 earlier (mem_numbers_of_handing hearlier)
    simp [numbers, numberFrom]
  | queueMessage k message taken =>
    rw [bus_update_idle htrace (by cases taken <;> rfl) (fun _ => rfl) fun _ => rfl]
    exact .nil _
  | sendto k packet sent =>
    cases sent with
    | true =>
      have hqueued := hdoes.queued_of_sent
      have hlength := hbooks k
      rw [bus_update_letGo htrace rfl]
      apply Bus.Step.runs
      apply Bus.Step.letGo
      simp only [bus]
      omega
    | false =>
      rw [bus_update_idle htrace rfl (fun _ => rfl) fun _ => rfl]
      exact .nil _

omit [DecidableEq ι] in
theorem Due.grown {ledger' : ι → Ledger ι} {k : ℕ} {m : Option (MessageId ι) × Bytes}
    (h : Due nodes ledger j k m)
    (hgrown : ∀ i, ∃ es, (ledger' i).trace = (ledger i).trace ++ es) : Due nodes ledger' j k m := by
  obtain ⟨id, hid, hhears, hsent, hmessage⟩ := h
  obtain ⟨es, hes⟩ := hgrown id.node
  refine ⟨id, hid, hhears, ?_, ?_⟩
  · rw [hes, transmitted_append]
    exact hsent.trans_le (Nat.le_add_right _ _)
  · have hlt := (List.getElem?_eq_some_iff.mp hmessage).1
    rw [hes, acceptedPayloads_append, List.getElem?_append_left hlt]
    exact hmessage

omit [DecidableEq ι] in
theorem record_extends (l : Ledger ι) (e : SpinEvent) (k : ℕ) :
    l.delivered k <+: (l.record received e).delivered k := by
  unfold Ledger.record
  split
  · exact List.prefix_refl _
  · rename_i j message
    by_cases hjk : k = j
    · subst hjk
      simp
    · simp [hjk]
  · exact List.prefix_refl _
  · exact List.prefix_refl _

omit [DecidableEq ι] in
theorem recordAll_extends (l : Ledger ι) (es : List SpinEvent) (k : ℕ) :
    l.delivered k <+: (l.recordAll received es).delivered k := by
  induction es generalizing l with
  | nil => exact List.prefix_refl _
  | cons e es ih => exact (record_extends l e k).trans (ih (l.record received e))

theorem performs_observed {es : List SpinEvent} (hperforms : n.Performs es n')
    (hbooks : ∀ k, (acceptedPayloads (ledger x).trace k).length =
      transmitted (ledger x).trace k + n.queued (.publisher k))
    (hcapacity : ∀ k, n.capacityOf k = (nodes x).capacityOf k)
    (hdue : ∀ k, ∀ m ∈ ((ledger x).recordAll received es).delivered k, Due nodes ledger x k m)
    (hsorted : ∀ k i l, (numbers i l
      ((((ledger x).recordAll received es).delivered k).map Prod.fst)).Pairwise (· ≤ ·)) :
    Bus.Runs (busShape nodes) (bus ledger) (es.filterMap (observe x))
      (bus (Function.update ledger x ((ledger x).recordAll received es))) := by
  induction hperforms generalizing ledger with
  | nil n buffer =>
    have hsame : Function.update ledger x ((ledger x).recordAll received []) = ledger :=
      Function.update_eq_self x ledger
    rw [hsame]
    exact .nil _
  | @cons n n₁ n₂ e es buffer hdoes hrest ih =>
    obtain ⟨l₁, hl₁⟩ : ∃ l₁, l₁ = (ledger x).record received e := ⟨_, rfl⟩
    have hall : (ledger x).recordAll received (e :: es) = l₁.recordAll received es := by
      rw [hl₁]
      rfl
    rw [hall] at hdue hsorted ⊢
    have hextends : ∀ k, l₁.delivered k <+: (l₁.recordAll received es).delivered k :=
      recordAll_extends l₁ es
    have hfirst : Bus.Runs (busShape nodes) (bus ledger) (observe x e).toList
        (bus (Function.update ledger x l₁)) := by
      rw [hl₁]
      apply does_observed hdoes hbooks hcapacity
      · intro k message he
        apply hdue k
        apply (hextends k).subset
        rw [hl₁, he]
        simp [Ledger.record]
      · intro k i l
        rw [← hl₁]
        exact (hsorted k i l).sublist (((hextends k).sublist.map _).filterMap _)
    have htrace : l₁.trace = (ledger x).trace ++ [e] := by
      rw [hl₁, Ledger.record_trace]
    have hself : Function.update ledger x l₁ x = l₁ := Function.update_self ..
    have hgrown : ∀ i, ∃ es, (Function.update ledger x l₁ i).trace = (ledger i).trace ++ es := by
      intro i
      by_cases hix : i = x
      · subst hix
        exact ⟨[e], by rw [Function.update_self]; exact htrace⟩
      · exact ⟨[], by rw [Function.update_of_ne hix, List.append_nil]⟩
    have hobserved : (e :: es).filterMap (observe x) =
        (observe x e).toList ++ es.filterMap (observe x) := by
      rw [List.filterMap_cons]
      cases observe x e <;> rfl
    rw [hobserved]
    apply hfirst.trans
    have hlater := @ih (Function.update ledger x l₁)
    rw [hself, Function.update_idem] at hlater
    apply hlater
    · intro k
      have hqueued := hdoes.performs.queued k
      have hlength := hbooks k
      have hsame : ({ n with buffer } : Node).queued (.publisher k) = n.queued (.publisher k) := rfl
      have haccepted := Node.length_acceptedPayloads [e] k
      rw [htrace, acceptedPayloads_append, transmitted_append, List.length_append, haccepted]
      omega
    · intro k
      rw [hdoes.performs.capacityOf]
      exact hcapacity k
    · exact fun k m hm => (hdue k m hm).grown hgrown
    · exact hsorted

end Events

/-! ## Steps -/

section Steps

variable {n₀ : Node} {requests : List Bytes} {k : ℕ}

theorem Active.publisherAt (h : Active net nodes s r i n₀ requests) {p : PublisherInfo}
    (hp : (s.node i).config.publishers[k]? = some p) :
    ∃ pub, (nodes i).publishers[k]? = some pub ∧ pub.topicName = p.topicName ∧
      pub.messageTypeName = p.messageTypeName := by
  rw [h.performs.config, Node.config, List.getElem?_map] at hp
  obtain ⟨q, hq, rfl⟩ := Option.map_eq_some_iff.mp hp
  obtain ⟨pub, hpub, hsame⟩ := Node.publisherAt_of_blueprint h.registered.blueprint.symm hq
  have htopic := congrArg Publisher.topicName hsame
  have htype := congrArg Publisher.messageTypeName hsame
  exact ⟨pub, hpub, htopic, htype⟩

theorem Active.subscriberAt (h : Active net nodes s r i n₀ requests) {sub : SubscriberInfo}
    (hsub : (s.node i).config.subscribers[k]? = some sub) :
    ∃ sub', (nodes i).subscribers[k]? = some sub' ∧ sub'.topicName = sub.topicName ∧
      sub'.messageTypeName = sub.messageTypeName := by
  rw [h.performs.config, Node.config, List.getElem?_map] at hsub
  obtain ⟨q, hq, rfl⟩ := Option.map_eq_some_iff.mp hsub
  obtain ⟨sub', hsub', hsame⟩ := Node.subscriberAt_of_blueprint h.registered.blueprint.symm hq
  have htopic := congrArg Subscriber.topicName hsame
  have htype := congrArg Subscriber.messageTypeName hsame
  exact ⟨sub', hsub', htopic, htype⟩

theorem Active.capacityOf (h : Active net nodes s r i n₀ requests) (k : ℕ) :
    (s.node i).capacityOf k = (nodes i).capacityOf k :=
  (h.performs.capacityOf k).trans (Node.capacityOf_of_blueprint h.registered.blueprint k)

theorem due_of_received {r' : Registry} (hnodes : ∀ i, Node.Created (nodes i))
    (h : Chronicle net nodes s r) (h' : Chronicle net nodes s' r') (hlater : Later s s')
    (hphase : s'.phase j = .connected) {m : Option (MessageId ι) × Bytes}
    (hreceived : s'.Received j k m.1 m.2)
    (hgiven : ∀ id, m.1 = some id → id.index < transmitted (s.ledger id.node).trace id.publisher) :
    Due nodes s.ledger j k m := by
  obtain ⟨id, p, sub, hid, hp, hsub, htopic, htype, _, haccepted⟩ := hreceived
  have hsent := hgiven id hid
  have hsome : (s.ledger id.node).trace ≠ [] := by
    intro hnone
    rw [hnone] at hsent
    exact absurd hsent (Nat.not_lt_zero _)
  obtain ⟨es, hes⟩ := hlater.trace (x := id.node)
  obtain ⟨_, _, hbefore⟩ := (h.history id.node).active_of_trace hsome
  obtain ⟨_, _, hsender⟩ := (h'.history id.node).active_of_trace
    (by rw [hes]; exact List.append_ne_nil_of_left_ne_nil hsome _)
  obtain ⟨_, _, hreceiver⟩ := (h'.history j).active hphase
  obtain ⟨pub, hpub, htopic', htype'⟩ := hsender.publisherAt hp
  obtain ⟨sub', hsub', htopic'', htype''⟩ := hreceiver.subscriberAt hsub
  refine ⟨id, hid, ⟨pub, sub', hpub, hsub', ?_, ?_⟩, hsent, ?_⟩
  · rw [htopic', htopic'', htopic]
  · rw [htype', htype'', htype]
  · have hbooks := hbefore.books hnodes id.publisher
    rw [hes, acceptedPayloads_append, List.getElem?_append_left (by omega)] at haccepted
    exact haccepted

theorem seen_of_trace {es : List SpinEvent}
    (htrace : (s'.ledger i).trace = (s.ledger i).trace ++ es) :
    s.seen s' i = es.filterMap (observe i) := by
  rw [seen, htrace, List.drop_left]

/-- The events of an action, if it is a call to a connected node. -/
inductive Calls (text : JsonText) (s : System ι) : Action ι → List SpinEvent → Prop
  | nothing (a : Action ι) : Calls text s a []
  | publish (i : ι) (k : ℕ) (data : Memory) : s.phase i = .connected →
      Calls text s (.publish i k data) [((s.node i).publish k data).2]
  | spin (i : ι) (receive : Bool) (env : SpinEnvironment) {reception : Reception}
      {out : Node.SpinOutcome} : s.phase i = .connected →
      (s.node i).spinOnce text reception env = .ok out →
      Calls text s (.spin i receive env) out.events

variable [DecidableEq ι]

theorem step_calls {a : Action ι} (hstep : s.step net a = some s') : ∃ es,
    Calls net.text s a es ∧ (s'.ledger a.node).trace = (s.ledger a.node).trace ++ es ∧
      ∀ x ≠ a.node, (s'.ledger x).trace = (s.ledger x).trace := by
  have hquiet : (∀ x, (s'.ledger x).trace = (s.ledger x).trace) → ∃ es,
      Calls net.text s a es ∧ (s'.ledger a.node).trace = (s.ledger a.node).trace ++ es ∧
        ∀ x ≠ a.node, (s'.ledger x).trace = (s.ledger x).trace := by
    intro htrace
    exact ⟨[], .nothing a, by rw [htrace, List.append_nil], fun x _ => htrace x⟩
  cases a with
  | connect x =>
    obtain ⟨_, rfl⟩ := step_connect hstep
    exact hquiet fun y => (continueConnect_ledger s x _ _ y).1
  | rpcReturn x =>
    obtain ⟨resume, d, rest, _, _, hcases⟩ := step_rpcReturn hstep
    rcases hcases with ⟨fault, _, rfl⟩ | ⟨n, response, _, rfl⟩
    · exact hquiet fun _ => rfl
    · exact hquiet fun y => (continueConnect_ledger _ x _ _ y).1
  | broker x =>
    obtain ⟨_, d, rest, _, hcases⟩ := step_broker hstep
    rcases hcases with ⟨fault, _, rfl⟩ | ⟨it, _, rfl⟩
    · exact hquiet fun _ => rfl
    · apply hquiet
      intro y
      by_cases hyx : y = x
      · subst hyx
        simp [Ledger.judge]
      · simp [hyx]
  | publish x k data =>
    obtain ⟨hphase, rfl⟩ := step_publish hstep
    refine ⟨_, .publish x k data hphase, ?_, fun y hy => ?_⟩
    · simp only [Action.node, Function.update_self, Ledger.record_trace]
    · have hyx : y ≠ x := hy
      simp only [Function.update_of_ne hyx]
  | spin x receive env =>
    obtain ⟨hphase, reception, origin, rest, _, hcases⟩ := step_spin hstep
    rcases hcases with ⟨fault, _, rfl⟩ | ⟨out, hout, rfl⟩
    · exact hquiet fun _ => rfl
    · refine ⟨_, .spin x receive env hphase hout, ?_, fun y hy => ?_⟩
      · simp only [Action.node, Function.update_self, Ledger.recordAll_trace]
      · have hyx : y ≠ x := hy
        simp only [Function.update_of_ne hyx]
  | loseUp x position =>
    injection hstep with hstep
    exact hquiet fun _ => by rw [← hstep]
  | loseDown x position =>
    injection hstep with hstep
    exact hquiet fun _ => by rw [← hstep]

theorem quiet_observed (hledger : ∀ x, (s'.ledger x).trace = (s.ledger x).trace ∧
    (s'.ledger x).delivered = (s.ledger x).delivered) (x : ι) :
    Bus.Runs (busShape nodes) (bus s.ledger) (s.seen s' x) (bus s'.ledger) := by
  have hsame : bus s'.ledger = bus s.ledger := by
    simp only [bus, Bus.mk.injEq]
    refine ⟨?_, ?_, ?_⟩
    · funext p
      rw [(hledger p.1).1]
    · funext p
      rw [(hledger p.1).1]
    · funext q
      rw [(hledger q.1).2]
  have hnothing : s.seen s' x = [] :=
    seen_of_trace ((hledger x).1.trans (List.append_nil _).symm)
  rw [hsame, hnothing]
  exact .nil _

theorem call_observed {r' : Registry} (hnodes : ∀ i, Node.Created (nodes i))
    (h : Chronicle net nodes s r) (h' : Chronicle net nodes s' r') (hlater : Later s s')
    (hphase : s.phase j = .connected) (hphase' : s'.phase j = .connected)
    (hconveys' : Conveys s') {events : List SpinEvent} {origin : Option (MessageId ι)} {n' : Node}
    (hperforms : (s.node j).Performs events n')
    (hledger : s'.ledger = Function.update s.ledger j ((s.ledger j).recordAll origin events))
    (hgiven : ∀ k, ∀ m ∈ (s'.ledger j).delivered k, ∀ id, m.1 = some id →
      id.index < transmitted (s.ledger id.node).trace id.publisher) :
    Bus.Runs (busShape nodes) (bus s.ledger) (s.seen s' j) (bus s'.ledger) := by
  obtain ⟨_, _, hactive⟩ := (h.history j).active hphase
  have hself : s'.ledger j = (s.ledger j).recordAll origin events := by
    rw [hledger, Function.update_self]
  have hseen : s.seen s' j = events.filterMap (observe j) :=
    seen_of_trace (by rw [hself, Ledger.recordAll_trace])
  rw [hseen, hledger]
  apply performs_observed hperforms (hactive.books hnodes) hactive.capacityOf
  · intro k m hm
    rw [← hself] at hm
    have hreceived : s'.Received j k m.1 m.2 := by
      by_cases htrace : (s'.ledger j).trace = []
      · rw [((hconveys'.recorded j).silent htrace k).2] at hm
        cases hm
      · exact ((hconveys'.recorded j).tallies htrace).handed k m hm
    exact due_of_received hnodes h h' hlater hphase' hreceived (hgiven k m hm)
  · intro k i l
    rw [← hself]
    have hsorted := (hconveys'.inOrder i l j k).sorted
    simp only [passage, Ledger.origins, numbers_append, List.append_assoc] at hsorted
    exact (List.pairwise_append.mp hsorted).1

/-- What a step lets the applications see could be seen of a bus. -/
theorem step_observed {r' : Registry} (hnodes : ∀ i, Node.Created (nodes i))
    (h : Chronicle net nodes s r) (h' : Chronicle net nodes s' r') (hsmall : r.tables.Small)
    (hconveys : Conveys s) (hconveys' : Conveys s') {a : Action ι}
    (hstep : s.step net a = some s') :
    Bus.Runs (busShape nodes) (bus s.ledger) (s.seen s' a.node) (bus s'.ledger) := by
  have hlater := h.later hstep
  -- what was on its way to `x` had gone out before
  have hknown : ∀ x k id, some id ∈ (s.ledger x).origins k ++ (s.down x).map Datagram.origin →
      id.index < transmitted (s.ledger id.node).trace id.publisher := by
    intro x k id hmem
    apply (hconveys.inOrder id.node id.publisher x k).given
    apply List.mem_append_left
    rw [← numbers_append]
    exact List.mem_filterMap.mpr ⟨some id, hmem, by simp [numberFrom]⟩
  cases a with
  | connect x =>
    obtain ⟨_, rfl⟩ := step_connect hstep
    exact quiet_observed (fun y => ⟨(continueConnect_ledger s x _ _ y).1,
      (continueConnect_ledger s x _ _ y).2.2⟩) _
  | rpcReturn x =>
    obtain ⟨resume, d, rest, _, _, hcases⟩ := step_rpcReturn hstep
    rcases hcases with ⟨fault, _, rfl⟩ | ⟨n, response, _, rfl⟩
    · exact quiet_observed (fun _ => ⟨rfl, rfl⟩) _
    · have hledger := @continueConnect_ledger _ net _
        { s with down := Function.update s.down x rest } x n (resume n response)
      exact quiet_observed (fun y => ⟨(hledger y).1, (hledger y).2.2⟩) _
  | broker x =>
    obtain ⟨_, d, rest, _, hcases⟩ := step_broker hstep
    rcases hcases with ⟨fault, _, rfl⟩ | ⟨it, _, rfl⟩
    · exact quiet_observed (fun _ => ⟨rfl, rfl⟩) _
    · apply quiet_observed
      intro y
      by_cases hyx : y = x
      · subst hyx
        simp [Ledger.judge]
      · simp [hyx]
  | publish x p data =>
    obtain ⟨hphase, rfl⟩ := step_publish hstep
    have hperforms := (Node.Does.publish (n := s.node x) p data).performs
    have hdelivered : ((s.ledger x).record none ((s.node x).publish p data).2).delivered =
        (s.ledger x).delivered := by
      unfold Node.publish
      split
      · rfl
      · rfl
    apply call_observed hnodes h h' hlater hphase hphase hconveys' hperforms
      (show _ = Function.update s.ledger x ((s.ledger x).recordAll none [_]) from rfl)
    intro k m hm id hid
    apply hknown x k id
    apply List.mem_append_left
    apply List.mem_append_left
    simp only [Function.update_self] at hm
    rw [hdelivered] at hm
    exact hid ▸ List.mem_map_of_mem hm
  | spin x receive env =>
    obtain ⟨hphase, reception, origin, rest, hreceipt, hcases⟩ := step_spin hstep
    rcases hcases with ⟨fault, _, rfl⟩ | ⟨out, hout, hs'⟩
    · exact quiet_observed (fun _ => ⟨rfl, rfl⟩) _
    · have hself : s'.ledger x = (s.ledger x).recordAll origin out.events := by
        rw [hs']
        exact Function.update_self ..
      obtain ⟨_, horigins⟩ := spin_records hnodes h hsmall hconveys.wired hconveys.recorded hphase
        hreceipt hout hlater (by rw [hs']; exact Function.update_self ..) hself
      apply call_observed hnodes h h' hlater hphase (by rw [hs']; exact hphase) hconveys'
        (Node.spinOnce_performs hout)
      · rw [hs']
      · intro k m hm id hid
        apply hknown x k id
        have hmem : some id ∈ (s'.ledger x).origins k :=
          List.mem_append_left _ (hid ▸ List.mem_map_of_mem hm)
        rw [horigins] at hmem
        rcases List.mem_append.mp hmem with hmem | hmem
        · exact List.mem_append_left _ hmem
        · apply List.mem_append_right
          cases hreceipt with
          | nothing =>
            rw [queuedAt_of_wouldBlock hout] at hmem
            cases hmem
          | datagram hwaiting =>
            rw [hwaiting, List.eq_of_mem_replicate hmem]
            exact List.mem_map_of_mem List.mem_cons_self
  | loseUp x position =>
    injection hstep with hstep
    subst hstep
    exact quiet_observed (fun _ => ⟨rfl, rfl⟩) _
  | loseDown x position =>
    injection hstep with hstep
    subst hstep
    exact quiet_observed (fun _ => ⟨rfl, rfl⟩) _

theorem fits_of_run (hnodes : ∀ i, Node.Created (nodes i)) (h : Chronicle net nodes s r)
    {as : List (Action ι)} (hrun : s.run net as = some s')
    (hfit : ∀ x, DatagramsFit (nodes x) (s'.ledger x).trace) :
    ∀ x, DatagramsFit (nodes x) (s.ledger x).trace := by
  induction as generalizing s r with
  | nil =>
    injection hrun with hrun
    exact hrun ▸ hfit
  | cons a as ih =>
    obtain ⟨s₁, hstep, hrest⟩ := Option.bind_eq_some_iff.mp hrun
    obtain ⟨r₁, horderly, _, hhistory⟩ := step_history hnodes h.orderly h.history hstep
    exact DatagramsFit.of_later (h.later hstep) (ih ⟨horderly, hhistory⟩ hrest)

theorem run_observed (hnodes : ∀ i, Node.Created (nodes i)) (h : Chronicle net nodes s r)
    (hconveys : Conveys s) {as : List (Action ι)} (hrun : s.run net as = some s')
    (hfit : ∀ x, DatagramsFit (nodes x) (s'.ledger x).trace) (hsmall : s'.broker.tables.Small) :
    Bus.Runs (busShape nodes) (bus s.ledger) (observations net s as) (bus s'.ledger) := by
  induction as generalizing s r with
  | nil =>
    injection hrun with hrun
    subst hrun
    exact .nil _
  | cons a as ih =>
    obtain ⟨s₁, hstep, hrest⟩ := Option.bind_eq_some_iff.mp hrun
    obtain ⟨r₁, horderly₁, hkeeps, hhistory₁⟩ := step_history hnodes h.orderly h.history hstep
    have h₁ : Chronicle net nodes s₁ r₁ := ⟨horderly₁, hhistory₁⟩
    obtain ⟨r', horderly', hkeeps', _⟩ := run_history hnodes horderly₁ hhistory₁ hrest
    have hsmall' : r'.tables.Small := horderly'.tables ▸ hsmall
    have hsmall₁ := (hsmall'.of_grows hkeeps'.grows).of_grows hkeeps.grows
    have hconveys₁ := hconveys.step hnodes h hsmall₁ hstep (fits_of_run hnodes h₁ hrest hfit)
    have hfirst := step_observed hnodes h h₁ hsmall₁ hconveys hconveys₁ hstep
    simp only [observations, hstep]
    exact hfirst.trans (ih h₁ hconveys₁ hrest)

end Steps

end System
end Crps
