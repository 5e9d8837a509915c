import Crps.Node.TypeSafety

/-!
# Priorities within one `spin_once`

The loop passes every endpoint once, highest priority first, and takes one
message from each. So a backlog at one endpoint is overtaken by whatever waits
further down. The nodes at which nothing can be overtaken are told by the
lengths of their queues.
-/

namespace Crps

/-- The endpoint whose message an event handles. -/
def SpinEvent.handles : SpinEvent → Option Endpoint
  | .callback k _ => some (.subscriber k)
  | .sendto k _ true => some (.publisher k)
  | _ => none

/-- How many messages have been published to an endpoint. -/
def publishedTo (events : List SpinEvent) : Endpoint → ℕ
  | .subscriber _ => 0
  | .publisher k => events.countP fun
    | .publish j _ true => j = k
    | _ => false

namespace Node

/-- `messages_queued` of an endpoint. -/
def queued (n : Node) : Endpoint → ℕ
  | .subscriber k => (n.subscribers[k]?).elim 0 Subscriber.messagesQueued
  | .publisher k => (n.publishers[k]?).elim 0 Publisher.messagesQueued

/-- The endpoint is registered in `m_topics_by_prio` under the priority. -/
def RegisteredAt (n : Node) (e : Endpoint) (priority : TopicPriority) : Prop :=
  ∃ entry ∈ n.topicsByPrio, entry.1 = priority ∧
    e ∈ entry.2.subscribers.map Endpoint.subscriber ++ entry.2.publishers.map Endpoint.publisher

/-- The visit of an endpoint runs its callback or transmits a message of it. -/
def Serves (env : SpinEnvironment) (s : SpinState) (e : Endpoint) : Prop :=
  ∃ event rest, (visit env s e).2.events = s.events ++ event :: rest ∧ event.handles = some e

/-- What was there before the call: queued, but not published in it. -/
def carried (s : SpinState) (e : Endpoint) : ℤ := s.node.queued e - publishedTo s.events e

variable {n : Node} {env : SpinEnvironment} {s : SpinState}

theorem queued_eq_zero_subscriber {k : ℕ} :
    n.queued (.subscriber k) = 0 ↔
      (n.subscribers[k]?).bind (fun sub => sub.messageQueue.get) = none := by
  cases hs : n.subscribers[k]? with
  | none => simp [queued, hs]
  | some sub =>
    simp [queued, hs, Subscriber.messagesQueued, MessageQueue.size, MessageQueue.get]

theorem queued_eq_zero_publisher {k : ℕ} :
    n.queued (.publisher k) = 0 ↔
      (n.publishers[k]?).bind Publisher.getMessage = none := by
  cases hp : n.publishers[k]? with
  | none => simp [queued, hp]
  | some p =>
    simp [queued, hp, Publisher.messagesQueued, MessageQueue.size, Publisher.getMessage,
      MessageQueue.get]

theorem visit_idle {e : Endpoint} (h : s.node.queued e = 0) : visit env s e = (true, s) := by
  cases e with
  | subscriber k =>
    have hget := queued_eq_zero_subscriber.mp h
    cases hs : s.node.subscribers[k]? with
    | none => simp only [visit, visitSubscriber, hs]
    | some sub =>
      rw [hs, Option.bind_some] at hget
      simp only [visit, visitSubscriber, hs, hget]
  | publisher k =>
    have hget := queued_eq_zero_publisher.mp h
    cases hp : s.node.publishers[k]? with
    | none => simp only [visit, visitPublisher, hp]
    | some p =>
      rw [hp, Option.bind_some] at hget
      simp only [visit, visitPublisher, hp, hget]

theorem publishedTo_append (es fs : List SpinEvent) (e : Endpoint) :
    publishedTo (es ++ fs) e = publishedTo es e + publishedTo fs e := by
  cases e with
  | subscriber k => rfl
  | publisher k => exact List.countP_append

theorem publishedTo_cons (event : SpinEvent) (events : List SpinEvent) (e : Endpoint) :
    publishedTo (event :: events) e = publishedTo [event] e + publishedTo events e :=
  publishedTo_append [event] events e

theorem queued_publish (k : ℕ) (data : Memory) (e : Endpoint) :
    (n.publish k data).1.queued e = n.queued e + publishedTo [(n.publish k data).2] e := by
  cases hp : n.publishers[k]? with
  | none =>
    simp only [publish, hp]
    cases e <;> rfl
  | some p =>
    have hlt := (List.getElem?_eq_some_iff.mp hp).1
    rw [publish_of_some hp]
    cases e with
    | subscriber j => rfl
    | publisher j =>
      by_cases hj : k = j
      · subst hj
        simp only [queued, List.getElem?_set_self hlt, hp, Option.elim_some,
          p.publish_messagesQueued]
        cases (p.publish data).1 <;> simp [publishedTo]
      · simp only [queued, List.getElem?_set_ne hj]
        cases (p.publish data).1 <;> simp [publishedTo, hj]

theorem queued_publishAll (calls : List (ℕ × Memory)) (e : Endpoint) :
    (n.publishAll calls).1.queued e = n.queued e + publishedTo (n.publishAll calls).2 e := by
  induction calls generalizing n with
  | nil => cases e <;> rfl
  | cons call calls ih =>
    have hfirst := queued_publish (n := n) call.1 call.2 e
    have hrest := publishedTo_cons (n.publish call.1 call.2).2
      ((n.publish call.1 call.2).1.publishAll calls).2 e
    simp only [publishAll, ih, hfirst, hrest]
    omega

theorem visit_busy {e : Endpoint} (h : s.node.queued e ≠ 0) (hgoes : (visit env s e).1 = true) :
    Serves env s e ∧ ∀ f, carried (visit env s e).2 f = carried s f - if f = e then 1 else 0 := by
  cases e with
  | subscriber k =>
    rw [ne_eq, queued_eq_zero_subscriber] at h
    cases hs : s.node.subscribers[k]? with
    | none => simp [hs] at h
    | some sub =>
      cases hm : sub.messageQueue.get with
      | none => simp [hs, hm] at h
      | some message =>
        obtain ⟨rest, hrest⟩ : ∃ rest, sub.messages = message :: rest := by
          rw [MessageQueue.get_eq_head?] at hm
          exact List.head?_eq_some_iff.mp hm
        have hlt := (List.getElem?_eq_some_iff.mp hs).1
        have hpop := (sub.runCallback_cons hrest (env.callback s.events k message).left).2
        have hvisit : visit env s (.subscriber k) = visitSubscriber env s k := rfl
        simp only [Serves, hvisit, visitSubscriber, hs, hm]
        refine ⟨⟨_, _, rfl, rfl⟩, fun f => ?_⟩
        have hpublished := queued_publishAll (n := s.node)
          (env.callback s.events k message).publishes f
        have hsubscribers := publishAll_subscribers (n := s.node)
          (env.callback s.events k message).publishes
        have hcallback := publishedTo_cons (.callback k message)
          (s.node.publishAll (env.callback s.events k message).publishes).2 f
        simp only [carried, publishedTo_append, hcallback]
        cases f with
        | publisher j =>
          have hnone : publishedTo [.callback k message] (.publisher j) = 0 := rfl
          simp only [queued] at hpublished ⊢
          simp only [hpublished, hnone, reduceCtorEq, if_false]
          omega
        | subscriber j =>
          simp only [publishedTo, queued, hsubscribers, Endpoint.subscriber.injEq]
          by_cases hj : j = k
          · subst hj
            simp only [List.getElem?_set_self hlt, hs, Option.elim_some,
              Subscriber.messagesQueued_eq, hpop, hrest, List.length_cons, if_true]
            omega
          · simp only [List.getElem?_set_ne (Ne.symm hj), if_neg hj]
            omega
  | publisher k =>
    rw [ne_eq, queued_eq_zero_publisher] at h
    cases hp : s.node.publishers[k]? with
    | none => simp [hp] at h
    | some p =>
      cases hm : p.getMessage with
      | none => simp [hp, hm] at h
      | some message =>
        have hlt := (List.getElem?_eq_some_iff.mp hp).1
        have hsize : p.messagesQueued ≠ 0 := by
          intro hzero
          have hnone : s.node.queued (.publisher k) = 0 := by
            simp only [queued, hp, Option.elim_some, hzero]
          have hidle := queued_eq_zero_publisher.mp hnone
          rw [hp, Option.bind_some, hm] at hidle
          cases hidle
        have hvisit : visit env s (.publisher k) = visitPublisher env s k := rfl
        simp only [Serves, hvisit, visitPublisher, hp, hm] at hgoes ⊢
        split at hgoes
        · cases hgoes
        · rename_i hsent
          simp only [Bool.not_eq_true, Bool.not_eq_false'] at hsent
          simp only [hsent, Bool.not_true, Bool.false_eq_true, if_false]
          refine ⟨⟨_, [], rfl, rfl⟩, fun f => ?_⟩
          simp only [carried, publishedTo_append]
          cases f with
          | subscriber j => simp [publishedTo, queued, sendData, nextBpCounter]
          | publisher j =>
            simp only [publishedTo, queued, sendData, nextBpCounter, Endpoint.publisher.injEq]
            by_cases hj : j = k
            · subst hj
              simp only [List.getElem?_set_self hlt, hp, Option.elim_some,
                Publisher.popMessage_messagesQueued, Publisher.writeMessage_messagesQueued,
                if_true]
              simp
              omega
            · simp [List.getElem?_set_ne (Ne.symm hj), hj]

theorem visit_publishes {e f : Endpoint}
    (h : publishedTo (visit env s e).2.events f ≠ publishedTo s.events f) :
    s.node.queued e ≠ 0 ∧ ∃ j, e = .subscriber j := by
  constructor
  · intro hidle
    rw [visit_idle hidle] at h
    exact h rfl
  · cases e with
    | subscriber j => exact ⟨j, rfl⟩
    | publisher k =>
      refine absurd ?_ h
      have hvisit : visit env s (.publisher k) = visitPublisher env s k := rfl
      simp only [hvisit, visitPublisher]
      split
      · rfl
      · split
        · rfl
        · split_ifs
          · rw [publishedTo_append]
            cases f <;> rfl
          · rw [publishedTo_append]
            cases f <;> rfl

/-! ## The loop -/

theorem visitAll_cons {s' : SpinState} {e : Endpoint} {es : List Endpoint}
    (h : visitAll env s (e :: es) = (true, s')) :
    (visit env s e).1 = true ∧ visitAll env (visit env s e).2 es = (true, s') := by
  unfold visitAll at h
  cases hgoes : (visit env s e).1 with
  | true =>
    simp only [hgoes, if_true] at h
    exact ⟨rfl, h⟩
  | false =>
    simp only [hgoes, Bool.false_eq_true, if_false] at h
    rw [h] at hgoes
    cases hgoes

theorem carried_visit {e : Endpoint} (hgoes : (visit env s e).1 = true) :
    (∀ f ≠ e, carried (visit env s e).2 f = carried s f) ∧
      carried (visit env s e).2 e ≤ max (carried s e - 1) 0 ∧
      carried s e - 1 ≤ carried (visit env s e).2 e := by
  by_cases hidle : s.node.queued e = 0
  · have hsame : (visit env s e).2 = s := by rw [visit_idle hidle]
    have hnone : carried s e ≤ 0 := by
      simp only [carried, hidle]
      omega
    rw [hsame]
    exact ⟨fun _ _ => rfl, by omega, by omega⟩
  · have hbusy := (visit_busy hidle hgoes).2
    refine ⟨fun f hf => ?_, ?_, ?_⟩
    · rw [hbusy, if_neg hf, sub_zero]
    · rw [hbusy, if_pos rfl]
      exact le_max_left _ _
    · rw [hbusy, if_pos rfl]

theorem carried_visitAll {es : List Endpoint} (hnodup : es.Nodup) {s' : SpinState}
    (h : visitAll env s es = (true, s')) :
    (∀ f ∉ es, carried s' f = carried s f) ∧
      ∀ f ∈ es, carried s' f ≤ max (carried s f - 1) 0 ∧ carried s f - 1 ≤ carried s' f := by
  induction es generalizing s with
  | nil =>
    cases h
    exact ⟨fun _ _ => rfl, by simp⟩
  | cons e es ih =>
    obtain ⟨hgoes, hrest⟩ := visitAll_cons h
    obtain ⟨he, hes⟩ := List.nodup_cons.mp hnodup
    obtain ⟨hothers, hone⟩ := carried_visit hgoes
    obtain ⟨hout, hin⟩ := ih hes hrest
    constructor
    · intro f hf
      rw [List.mem_cons, not_or] at hf
      rw [hout f hf.2, hothers f hf.1]
    · intro f hf
      rcases List.mem_cons.mp hf with rfl | hf
      · rw [hout f he]
        exact hone
      · have hne : f ≠ e := fun heq => he (heq ▸ hf)
        rw [← hothers f hne]
        exact hin f hf

/-- The endpoints of the loop, each with the priority it is registered under. -/
def ranked (n : Node) : List (TopicPriority × Endpoint) :=
  n.topicsByPrio.flatMap fun entry =>
    (entry.2.subscribers.map Endpoint.subscriber ++
      entry.2.publishers.map Endpoint.publisher).map (entry.1, ·)

theorem map_snd_ranked (n : Node) : n.ranked.map Prod.snd = n.visitOrder := by
  simp only [ranked, visitOrder, List.map_flatMap, List.map_map]
  congr 1
  funext entry
  simp [Function.comp_def]

theorem mem_ranked {e : Endpoint} {p : TopicPriority} :
    (p, e) ∈ n.ranked ↔ n.RegisteredAt e p := by
  simp only [ranked, RegisteredAt, List.mem_flatMap, List.mem_map, Prod.mk.injEq]
  constructor
  · rintro ⟨entry, hentry, f, hf, rfl, rfl⟩
    exact ⟨entry, hentry, rfl, hf⟩
  · rintro ⟨entry, hentry, rfl, he⟩
    exact ⟨entry, hentry, e, he, rfl, rfl⟩

theorem ranked_pairwise (h : n.topicsByPrio.Pairwise fun a b => b.1 < a.1) :
    n.ranked.Pairwise fun a b => b.1 < a.1 ∨
      (b.1 = a.1 ∧ ∀ k j, ¬ (a.2 = .publisher k ∧ b.2 = .subscriber j)) := by
  apply List.pairwise_flatMap.mpr
  constructor
  · intro entry _
    rw [List.pairwise_map, List.pairwise_append]
    refine ⟨?_, ?_, ?_⟩
    · rw [List.pairwise_map]
      exact List.pairwise_of_forall fun _ _ => .inr ⟨rfl, by simp⟩
    · rw [List.pairwise_map]
      exact List.pairwise_of_forall fun _ _ => .inr ⟨rfl, by simp⟩
    · intro a ha b hb
      obtain ⟨k, _, rfl⟩ := List.mem_map.mp ha
      exact .inr ⟨rfl, by simp⟩
  · refine h.imp fun hlt x hx y hy => ?_
    obtain ⟨_, _, rfl⟩ := List.mem_map.mp hx
    obtain ⟨_, _, rfl⟩ := List.mem_map.mp hy
    exact .inl hlt

theorem visitOrder_nodup {np ns : ℕ} (h : n.Indexed np ns) : n.visitOrder.Nodup := by
  apply h.order.nodup_iff.mpr
  rw [List.nodup_append]
  refine ⟨List.nodup_range.map fun _ _ heq => by injection heq,
    List.nodup_range.map fun _ _ heq => by injection heq, fun a ha b hb => ?_⟩
  obtain ⟨_, _, rfl⟩ := List.mem_map.mp ha
  obtain ⟨_, _, rfl⟩ := List.mem_map.mp hb
  simp

theorem mem_visitOrder {e : Endpoint} : e ∈ n.visitOrder ↔ ∃ p, n.RegisteredAt e p := by
  rw [← map_snd_ranked, List.mem_map]
  constructor
  · rintro ⟨⟨p, _⟩, hmem, rfl⟩
    exact ⟨p, mem_ranked.mp hmem⟩
  · rintro ⟨p, he⟩
    exact ⟨(p, e), mem_ranked.mpr he, rfl⟩

section Call

variable {np ns : ℕ} {events : List SpinEvent} {workDone : Bool}

end Call

/-! ## Where something can be overtaken -/

/-- The capacity of a publisher's queue. -/
def capacityOf (n : Node) (k : ℕ) : ℕ :=
  (n.publishers[k]?).elim 0 fun p => p.messageQueue.queueCapacity

theorem Performs.capacityOf {n' : Node} {es : List SpinEvent} (h : n.Performs es n') (k : ℕ) :
    n'.capacityOf k = n.capacityOf k := by
  have hget := congrArg (fun c => (c.1[k]?).getD 0) h.capacities
  simp only [Node.capacities, List.getElem?_map] at hget
  unfold Node.capacityOf
  cases h₁ : n'.publishers[k]? <;> cases h₂ : n.publishers[k]? <;>
    simp_all

/-- The application that publishes to one endpoint whenever it is called, on a network that
takes everything. -/
def feeding (e : Endpoint) : SpinEnvironment where
  callback _ _ _ := { publishes := match e with
    | .publisher k => [(k, fun _ => 0)]
    | .subscriber _ => [] }
  sendto _ _ := true

theorem visit_sends (hsends : ∀ events packet, env.sendto events packet = true) (e : Endpoint) :
    (visit env s e).1 = true := by
  cases e with
  | subscriber k =>
    have hvisit : visit env s (.subscriber k) = visitSubscriber env s k := rfl
    rw [hvisit]
    unfold visitSubscriber
    split
    · rfl
    · rename_i sub hs
      split
      · rfl
      · rename_i message hm
        rw [MessageQueue.get_eq_head?] at hm
        obtain ⟨rest, hrest⟩ := List.head?_eq_some_iff.mp hm
        exact (sub.runCallback_cons hrest _).1
  | publisher k =>
    have hvisit : visit env s (.publisher k) = visitPublisher env s k := rfl
    rw [hvisit]
    unfold visitPublisher
    split
    · rfl
    · split
      · rfl
      · simp only [hsends]
        rfl

theorem visitAll_sends (hsends : ∀ events packet, env.sendto events packet = true)
    (es : List Endpoint) : ∃ s', visitAll env s es = (true, s') := by
  induction es generalizing s with
  | nil => exact ⟨s, rfl⟩
  | cons e es ih =>
    unfold visitAll
    rw [if_pos (visit_sends hsends e)]
    exact ih

theorem queued_publisher_congr {n' : Node} (h : n'.publishers = n.publishers) (k : ℕ) :
    n'.queued (.publisher k) = n.queued (.publisher k) := by simp only [queued, h]

theorem queued_publish_ne_zero {k : ℕ} (data : Memory) (hcapacity : 0 < n.capacityOf k) :
    (n.publish k data).1.queued (.publisher k) ≠ 0 := by
  cases hp : n.publishers[k]? with
  | none =>
    rw [capacityOf, hp] at hcapacity
    exact absurd hcapacity (Nat.lt_irrefl 0)
  | some p =>
    have hlt := (List.getElem?_eq_some_iff.mp hp).1
    rw [capacityOf, hp, Option.elim_some] at hcapacity
    rw [publish_of_some hp]
    simp only [queued, List.getElem?_set_self hlt, Option.elim_some, p.publish_messagesQueued]
    cases haccepted : (p.publish data).1 with
    | true => simp
    | false =>
      have hfull := mt (p.publish_iff data).mpr (by rw [haccepted]; simp)
      omega

theorem publishedTo_queueAll (data : Memory) (ks : List ℕ) (e : Endpoint) :
    publishedTo (n.queueAll data ks).2 e = 0 := by
  induction ks generalizing n with
  | nil => cases e <;> rfl
  | cons k ks ih =>
    have hfirst : publishedTo [(n.queueMessage k data).2] e = 0 := by
      cases e with
      | subscriber j => rfl
      | publisher j =>
        unfold queueMessage
        split <;> rfl
    simp only [queueAll]
    rw [publishedTo_cons, hfirst, ih]

theorem Processes.publishedTo {text : JsonText} {reception : Reception} {n' : Node}
    {events : List SpinEvent} (h : Processes text n reception n' events) (e : Endpoint) :
    publishedTo events e = 0 := by
  cases h with
  | dropped _ buffer => cases e <;> rfl
  | queued hd htype htopic hout =>
    rw [hout]
    exact publishedTo_queueAll _ _ e

section Call

variable {np ns : ℕ} {events : List SpinEvent} {workDone : Bool}

end Call

theorem queued_subscriber (k : ℕ) : n.queued (.subscriber k) = (n.incoming k).length := by
  cases hs : n.subscribers[k]? with
  | none => simp [queued, incoming, hs]
  | some s => simp [queued, incoming, hs, s.messagesQueued_eq]

theorem queued_of_blueprint {start : Node} (hblueprint : n.blueprint = start.blueprint)
    (e : Endpoint) : n.queued e = start.queued e := by
  cases e with
  | publisher k =>
    have hsizes := congrArg (fun b => b.2.1[k]?.elim 0 Publisher.messagesQueued) hblueprint
    simp only [Node.blueprint, List.getElem?_map] at hsizes
    unfold queued
    cases h₁ : n.publishers[k]? <;> cases h₂ : start.publishers[k]? <;>
      simp only [h₁, h₂, Option.map_some, Option.map_none, Option.elim_some, Option.elim_none]
        at hsizes ⊢ <;> exact hsizes
  | subscriber k =>
    have hsizes := congrArg (fun b => b.2.2[k]?.elim 0 Subscriber.messagesQueued) hblueprint
    simp only [Node.blueprint, List.getElem?_map] at hsizes
    unfold queued
    cases h₁ : n.subscribers[k]? <;> cases h₂ : start.subscribers[k]? <;>
      simp only [h₁, h₂, Option.map_some, Option.map_none, Option.elim_some, Option.elim_none]
        at hsizes ⊢ <;> exact hsizes

theorem queued_of_created {start : Node} (h : Created start) (e : Endpoint) :
    start.queued e = 0 := by
  have happend : ∀ {α : Type} {size : α → ℕ} {xs : List α} {x : α} (k : ℕ), size x = 0 →
      (xs[k]?).elim 0 size = 0 → ((xs ++ [x])[k]?).elim 0 size = 0 := by
    intro α size xs x k hx hxs
    rcases Nat.lt_trichotomy k xs.length with hk | rfl | hk
    · rwa [List.getElem?_append_left hk]
    · simpa using hx
    · rw [List.getElem?_eq_none (by simpa using hk)]
      rfl
  induction h with
  | create => cases e <;> rfl
  | publisher topicName typeName messageSize topicPriority _ ih =>
    cases e with
    | publisher k => exact happend k rfl ih
    | subscriber k => exact ih
  | subscriber topicName typeName messageSize topicPriority _ ih =>
    cases e with
    | publisher k => exact ih
    | subscriber k => exact happend k rfl ih

end Node
end Crps
