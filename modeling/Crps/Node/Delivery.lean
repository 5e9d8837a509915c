import Crps.Node.Priority
import Crps.Node.TypeSafety

/-!
# Delivery inside a node

The result of `queue_message` is ignored, so a datagram reaches the callbacks
only because the queues it is put in are empty: one call queues at most one
message for a subscriber and takes it out again before it returns.
-/

namespace Crps

/-- What an event list hands to the callback of a subscriber. -/
def deliveredTo (k : ℕ) (events : List SpinEvent) : List Bytes :=
  events.filterMap fun
    | .callback j message => if j = k then some message else none
    | _ => none

namespace Node

/-- Topic and payload of the datagram, if `process_incoming_message` returns 1 for it. -/
def accepted (text : JsonText) (n : Node) : Reception → Option (TopicId × Memory)
  | .datagram bytes =>
    match decodePacketBuffer text (Memory.load bytes n.buffer) bytes.length,
      n.processIncomingMessage text (.datagram bytes) with
    | .ok decoded, .ok (_, _, 1) =>
      some (decoded.dataHeader.topicId, payloadOf (Memory.load bytes n.buffer))
    | _, _ => none
  | _ => none

/-- The message that an accepted datagram is to a subscriber of its topic. -/
def messageFor (text : JsonText) (n : Node) (reception : Reception) (s : SubscriberInfo) :
    Option Bytes :=
  (n.accepted text reception).bind fun (topicId, payload) =>
    if topicId = s.topicId then some (payload.slice 0 s.messageSize.toNat) else none

variable {text : JsonText} {n n' : Node} {env : SpinEnvironment} {s : SpinState}

/-- A node whose maps list each of its endpoints, with queues as they were created. -/
structure Equipped (n : Node) : Prop where
  indexed : n.Indexed n.publishers.length n.subscribers.length
  capacity : ∀ s ∈ n.subscribers, s.messageQueue.queueCapacity = messageQueueCapacity

theorem deliveredTo_append (k : ℕ) (es fs : List SpinEvent) :
    deliveredTo k (es ++ fs) = deliveredTo k es ++ deliveredTo k fs := List.filterMap_append

theorem queueAll_accepted (data : Memory) {ks : List ℕ} (hnodup : ks.Nodup)
    (hroom : ∀ k ∈ ks, ∃ s, n.subscribers[k]? = some s ∧ 0 < s.room) :
    ∀ e ∈ (n.queueAll data ks).2, ∃ k payload, e = .queueMessage k payload true := by
  induction ks generalizing n with
  | nil =>
    intro e he
    cases he
  | cons k ks ih =>
    obtain ⟨hk, hks⟩ := List.nodup_cons.mp hnodup
    obtain ⟨s, hs, hfree⟩ := hroom k List.mem_cons_self
    have haccepted : (s.queueMessage data).1 = true := by
      rw [s.queueMessage_fst, decide_eq_true hfree]
    intro e he
    simp only [queueAll, queueMessage_of_some hs, haccepted] at he
    rcases List.mem_cons.mp he with rfl | he
    · exact ⟨k, _, rfl⟩
    · refine ih hks (fun j hj => ?_) e he
      have hne : k ≠ j := fun heq => hk (heq ▸ hj)
      rw [List.getElem?_set_ne hne]
      exact hroom j (List.mem_cons_of_mem _ hj)

theorem Equipped.room_of_empty (h : n.Equipped) {k : ℕ} {s : Subscriber}
    (hs : n.subscribers[k]? = some s) (hempty : n.incoming k = []) :
    s.room = messageQueueCapacity := by
  have hsize := s.messageQueue.size_add_free
  rw [h.capacity s (List.mem_of_getElem? hs)] at hsize
  have hmessages : s.messagesQueued = 0 := by
    rw [s.messagesQueued_eq, ← incoming_of_getElem? hs, hempty]
    rfl
  simp only [Subscriber.messagesQueued] at hmessages
  simp only [Subscriber.room]
  omega

theorem incoming_queueAll_once (data : Memory) {ks : List ℕ} (hnodup : ks.Nodup) {k : ℕ}
    (hempty : n.incoming k = []) (hroom : ∀ s, n.subscribers[k]? = some s → 0 < s.room) :
    (n.queueAll data ks).1.incoming k = ((n.subscribers[k]?).bind fun s =>
      if k ∈ ks then some (data.slice 0 s.messageSize.toNat) else none).toList := by
  cases hs : n.subscribers[k]? with
  | none =>
    have hmessages := queueAll_messages (n := n) data ks k
    rw [hs, Option.map_none] at hmessages
    rw [incoming, hmessages]
    rfl
  | some s =>
    have hfree := hroom s hs
    rw [incoming_queueAll data ks hs, hempty, List.nil_append, Option.bind_some]
    by_cases hk : k ∈ ks
    · rw [List.count_eq_one_of_mem hnodup hk, if_pos hk, min_eq_left hfree]
      rfl
    · rw [List.count_eq_zero_of_not_mem hk, if_neg hk, Nat.zero_min]
      rfl

theorem accepted_of_processed {bytes : Bytes} {decoded : Decoded} {events : List SpinEvent}
    {result : ℤ}
    (hd : decodePacketBuffer text (Memory.load bytes n.buffer) bytes.length = .ok decoded)
    (hprocessed : n.processIncomingMessage text (.datagram bytes) = .ok (n', events, result)) :
    n.accepted text (.datagram bytes) =
      if result = 1 then some (decoded.dataHeader.topicId, payloadOf (Memory.load bytes n.buffer))
      else none := by
  simp only [accepted, hd, hprocessed]
  split <;> simp_all

/-- From empty queues, `process_incoming_message` queues what it accepts and is refused nowhere. -/
theorem Equipped.queued_of_processed (h : n.Equipped) (hempty : ∀ k, n.incoming k = [])
    {reception : Reception} {events : List SpinEvent} {result : ℤ}
    (hprocessed : n.processIncomingMessage text reception = .ok (n', events, result)) :
    (∀ e ∈ events, ∃ k payload, e = .queueMessage k payload true) ∧
      ∀ k, n'.incoming k =
        ((n.config.subscribers[k]?).bind (n.messageFor text reception)).toList := by
  have hnothing : n.accepted text reception = none → events = [] →
      (∃ buffer, n' = { n with buffer }) →
      (∀ e ∈ events, ∃ k payload, e = .queueMessage k payload true) ∧
        ∀ k, n'.incoming k =
          ((n.config.subscribers[k]?).bind (n.messageFor text reception)).toList := by
    rintro hnone rfl ⟨buffer, rfl⟩
    refine ⟨fun e he => absurd he List.not_mem_nil, fun k => ?_⟩
    have hmessage : n.messageFor text reception = fun _ => none := by
      funext s
      simp [messageFor, hnone]
    rw [hmessage, Option.bind_fun_none]
    exact hempty k
  cases reception with
  | wouldBlock =>
    cases hprocessed
    exact hnothing rfl rfl ⟨n.buffer, rfl⟩
  | failed =>
    cases hprocessed
    exact hnothing rfl rfl ⟨n.buffer, rfl⟩
  | datagram bytes =>
    cases hd : decodePacketBuffer text (Memory.load bytes n.buffer) bytes.length with
    | error fault =>
      simp only [processIncomingMessage, receiveMessage, hd, bind, Except.bind] at hprocessed
      cases hprocessed
    | ok decoded =>
      have haccepted := accepted_of_processed hd hprocessed
      rw [processIncomingMessage_of_decode hd] at hprocessed
      set listening := (n.topics decoded.dataHeader.topicId).elim [] TopicInfo.subscribers
        with hlistening
      by_cases htaken : decoded.type = .data ∧ listening ≠ []
      · simp only [if_pos htaken, Except.ok.injEq, Prod.mk.injEq] at hprocessed
        obtain ⟨rfl, rfl, rfl⟩ := hprocessed
        rw [if_pos rfl] at haccepted
        have hindexed := h.indexed
        have hmem := mem_listening hindexed decoded.dataHeader.topicId
        have hnodup := nodup_listening hindexed decoded.dataHeader.topicId
        rw [← hlistening] at hmem hnodup
        have hroom : ∀ k ∈ listening, ∃ s, n.subscribers[k]? = some s ∧ 0 < s.room := by
          intro k hk
          obtain ⟨s, hs, _⟩ := (hmem k).mp hk
          exact ⟨s, hs, by rw [h.room_of_empty hs (hempty k)]; decide⟩
        refine ⟨queueAll_accepted _ hnodup hroom, fun k => ?_⟩
        have honce := @incoming_queueAll_once { n with buffer := Memory.load bytes n.buffer }
          (payloadOf (Memory.load bytes n.buffer)) listening hnodup k (hempty k)
          fun s hs => by rw [h.room_of_empty hs (hempty k)]; decide
        refine honce.trans ?_
        simp only [config, List.getElem?_map]
        cases hs : n.subscribers[k]? with
        | none => rfl
        | some s =>
          have hlisted : k ∈ listening ↔ decoded.dataHeader.topicId = s.topicId := by
            rw [hmem]
            constructor
            · rintro ⟨s', hs', htopic⟩
              rw [hs] at hs'
              injection hs' with hs'
              rw [hs', htopic]
            · exact fun htopic => ⟨s, hs, htopic.symm⟩
          simp only [hlisted, Option.bind_some, Option.map_some, messageFor, haccepted]
          rfl
      · simp only [if_neg htaken, Except.ok.injEq, Prod.mk.injEq] at hprocessed
        obtain ⟨rfl, rfl, rfl⟩ := hprocessed
        exact hnothing haccepted rfl ⟨_, rfl⟩

/-! ## Callbacks -/

theorem mem_publishAll {calls : List (ℕ × Memory)} :
    ∀ e ∈ (n.publishAll calls).2, ∃ k payload taken, e = .publish k payload taken := by
  induction calls generalizing n with
  | nil =>
    intro e he
    cases he
  | cons call calls ih =>
    intro e he
    rcases List.mem_cons.mp he with rfl | he
    · unfold publish
      split
      · exact ⟨_, _, _, rfl⟩
      · exact ⟨_, _, _, rfl⟩
    · exact ih e he

theorem deliveredTo_publishAll (calls : List (ℕ × Memory)) (k : ℕ) :
    deliveredTo k (n.publishAll calls).2 = [] := by
  apply List.filterMap_eq_nil_iff.mpr
  intro e he
  obtain ⟨j, payload, taken, rfl⟩ := mem_publishAll e he
  rfl

theorem visit_delivers (e : Endpoint) (k : ℕ) :
    deliveredTo k (visit env s e).2.events = deliveredTo k s.events ++
        (if e = .subscriber k then (s.node.incoming k).head?.toList else []) ∧
      (visit env s e).2.node.incoming k =
        if e = .subscriber k then (s.node.incoming k).tail else s.node.incoming k := by
  cases e with
  | publisher j =>
    have hvisit : visit env s (.publisher j) = visitPublisher env s j := rfl
    simp only [hvisit, visitPublisher, reduceCtorEq, if_false, List.append_nil]
    split
    · exact ⟨rfl, rfl⟩
    · split
      · exact ⟨rfl, rfl⟩
      · split
        · rw [deliveredTo_append]
          exact ⟨List.append_nil _, rfl⟩
        · rw [deliveredTo_append]
          exact ⟨List.append_nil _, rfl⟩
  | subscriber j =>
    by_cases hidle : s.node.queued (.subscriber j) = 0
    · rw [visit_idle hidle]
      rw [queued_subscriber, List.length_eq_zero_iff] at hidle
      by_cases hjk : j = k
      · subst hjk
        simp [hidle]
      · simp [hjk]
    · have hget := mt queued_eq_zero_subscriber.mpr hidle
      cases hs : s.node.subscribers[j]? with
      | none => simp [hs] at hget
      | some sub =>
        cases hm : sub.messageQueue.get with
        | none => simp [hs, hm] at hget
        | some message =>
          have hvisit : visit env s (.subscriber j) = visitSubscriber env s j := rfl
          simp only [hvisit, visitSubscriber, hs, hm, Endpoint.subscriber.injEq]
          set effect := env.callback s.events j message
          obtain ⟨rest, hrest⟩ : ∃ rest, sub.messages = message :: rest := by
            rw [MessageQueue.get_eq_head?] at hm
            exact List.head?_eq_some_iff.mp hm
          have hincoming : s.node.incoming j = message :: rest := by
            rw [incoming_of_getElem? hs, hrest]
          have hsubscribers := publishAll_subscribers (n := s.node) effect.publishes
          have hpublished : (s.node.publishAll effect.publishes).1.incoming = s.node.incoming := by
            funext i
            simp only [incoming, hsubscribers]
          have hset := @incoming_set (s.node.publishAll effect.publishes).1 j sub
            (sub.runCallback effect.left).2 (by rw [hsubscribers, hs])
          rw [hset, hpublished, (sub.runCallback_cons hrest effect.left).2, deliveredTo_append,
            ← List.singleton_append, deliveredTo_append, deliveredTo_publishAll, List.append_nil]
          by_cases hjk : j = k
          · subst hjk
            simp [deliveredTo, hincoming]
          · simp [deliveredTo, hjk, Ne.symm hjk]

theorem visit_queues {e : Endpoint} {k : ℕ} {payload : Bytes} {taken : Bool}
    (h : .queueMessage k payload taken ∈ (visit env s e).2.events) :
    .queueMessage k payload taken ∈ s.events := by
  cases e with
  | publisher j =>
    have hvisit : visit env s (.publisher j) = visitPublisher env s j := rfl
    simp only [hvisit, visitPublisher] at h
    split at h
    · exact h
    · split at h
      · exact h
      · split at h
        · simpa using h
        · simpa using h
  | subscriber j =>
    have hvisit : visit env s (.subscriber j) = visitSubscriber env s j := rfl
    simp only [hvisit, visitSubscriber] at h
    split at h
    · exact h
    · split at h
      · exact h
      · simp only [List.mem_append, List.mem_cons, reduceCtorEq, false_or] at h
        rcases h with h | h
        · exact h
        · obtain ⟨_, _, _, heq⟩ := mem_publishAll _ h
          cases heq

theorem visitAll_delivers {es : List Endpoint} (hnodup : es.Nodup) {s' : SpinState}
    (h : visitAll env s es = (true, s')) (k : ℕ) :
    deliveredTo k s'.events = deliveredTo k s.events ++
        (if .subscriber k ∈ es then (s.node.incoming k).head?.toList else []) ∧
      s'.node.incoming k =
        if .subscriber k ∈ es then (s.node.incoming k).tail else s.node.incoming k := by
  induction es generalizing s with
  | nil =>
    cases h
    simp
  | cons e es ih =>
    obtain ⟨_, hrest⟩ := visitAll_cons h
    obtain ⟨he, hes⟩ := List.nodup_cons.mp hnodup
    obtain ⟨hdelivered, hincoming⟩ := ih hes hrest
    obtain ⟨hfirst, hleft⟩ := @visit_delivers env s e k
    rw [hfirst, hleft] at hdelivered
    rw [hleft] at hincoming
    by_cases hek : e = .subscriber k
    · subst hek
      simp only [if_pos, he, if_false, List.mem_cons_self, List.append_nil]
        at hdelivered hincoming ⊢
      exact ⟨hdelivered, hincoming⟩
    · simp only [hek, if_false, List.append_nil] at hdelivered hincoming
      simp only [List.mem_cons, Ne.symm hek, false_or]
      exact ⟨hdelivered, hincoming⟩

theorem visitAll_queues {es : List Endpoint} {ok : Bool} {s' : SpinState}
    (h : visitAll env s es = (ok, s')) {k : ℕ} {payload : Bytes} {taken : Bool}
    (hmem : .queueMessage k payload taken ∈ s'.events) :
    .queueMessage k payload taken ∈ s.events := by
  induction es generalizing s with
  | nil =>
    cases h
    exact hmem
  | cons e es ih =>
    unfold visitAll at h
    cases hgoes : (visit env s e).1 with
    | true =>
      simp only [hgoes, if_true] at h
      exact visit_queues (ih h)
    | false =>
      simp only [hgoes, Bool.false_eq_true, if_false] at h
      apply @visit_queues env s e
      rw [h]
      exact hmem

/-! ## Runs -/

theorem Equipped.spinOnce_delivers (h : n.Equipped) (hempty : ∀ k, n.incoming k = [])
    {reception : Reception} {out : SpinOutcome} (hout : n.spinOnce text reception env = .ok out)
    (hok : out.result ≠ .error) :
    (∀ k s, n.config.subscribers[k]? = some s →
        deliveredTo k out.events = (n.messageFor text reception s).toList) ∧
      (∀ k payload, .queueMessage k payload false ∉ out.events) ∧
      ∀ k, out.node.incoming k = [] := by
  obtain ⟨n', events, processed, ok, s', hprocessed, hvisited, rfl⟩ := spinOnce_cases hout
  cases ok with
  | false => exact absurd rfl hok
  | true =>
    obtain ⟨hevents, hqueued⟩ := h.queued_of_processed hempty hprocessed
    have hconfig := (processIncomingMessage_processes hprocessed).performs.config
    have hindexed := indexed_of_config hconfig h.indexed
    have hvisits := visitAll_delivers (visitOrder_nodup hindexed) hvisited
    have hnothing : ∀ k, deliveredTo k events = [] := by
      intro k
      apply List.filterMap_eq_nil_iff.mpr
      intro e he
      obtain ⟨j, payload, rfl⟩ := hevents e he
      rfl
    have hlisted : ∀ k s, n.config.subscribers[k]? = some s → .subscriber k ∈ n'.visitOrder := by
      intro k s hs
      have hlt := (List.getElem?_eq_some_iff.mp hs).1
      simp only [config, List.length_map] at hlt
      exact (subscriber_mem_visitOrder hindexed).mpr hlt
    refine ⟨fun k s hs => ?_, fun k payload hmem => ?_, fun k => ?_⟩
    · rw [(hvisits k).1, if_pos (hlisted k s hs), hqueued, hs, hnothing, List.nil_append,
        Option.bind_some]
      cases n.messageFor text reception s <;> rfl
    · obtain ⟨_, _, heq⟩ := hevents _ (visitAll_queues hvisited hmem)
      cases heq
    · rw [(hvisits k).2, hqueued]
      cases hs : n.config.subscribers[k]? with
      | none => simp
      | some s =>
        rw [if_pos (hlisted k s hs), Option.bind_some]
        cases n.messageFor text reception s <;> rfl

theorem exists_spinOnce {reception : Reception} {events : List SpinEvent} {processed : ℤ}
    (hsends : ∀ events packet, env.sendto events packet = true)
    (hprocessed : n.processIncomingMessage text reception = .ok (n', events, processed)) :
    ∃ out, n.spinOnce text reception env = .ok out ∧ out.result ≠ .error := by
  obtain ⟨s, hvisited⟩ := visitAll_sends hsends n'.visitOrder
  refine ⟨_, spinOnce_of_processed hprocessed hvisited, ?_⟩
  cases s.workDone <;> simp

theorem exists_received {w : NodeSetup} (h : ConnectsTo compactJson w.node n) {s : Subscriber}
    (hs : n.subscribers[0]? = some s) :
    ∃ out rest, n.spinOnce compactJson (.datagram (posePacket s s.messageTypeId))
        (feeding (.subscriber 0)) = .ok out ∧ out.result ≠ .error ∧
      (∃ payload taken, out.events = .queueMessage 0 payload taken :: rest) ∧
      n.accepted compactJson (.datagram (posePacket s s.messageTypeId)) =
        some (s.topicId, payloadOf (Memory.load (posePacket s s.messageTypeId) n.buffer)) := by
  have hdecode := decode_posePacket s s.messageTypeId n.buffer
  generalize posePacket s s.messageTypeId = packet at hdecode
  have hindexed := (indexed_of_used (.connected h)).1
  have hlistening := listening_eq hindexed s.topicId
  obtain ⟨count, hcount⟩ : ∃ count, n.subscribers.length = count + 1 := by
    have hlt := (List.getElem?_eq_some_iff.mp hs).1
    exact ⟨n.subscribers.length - 1, by omega⟩
  obtain ⟨ks, hks⟩ : ∃ ks, n.subscriberPositions n.subscribers.length s.topicId = 0 :: ks := by
    rw [subscriberPositions, hcount, List.range_succ_eq_map, List.filter_cons_of_pos (by simp [hs])]
    exact ⟨_, rfl⟩
  have hprocess := processIncomingMessage_of_decode hdecode
  simp only [hlistening, hks, ne_eq, reduceCtorEq, not_false_eq_true, and_self, if_true]
    at hprocess
  obtain ⟨out, hout, hok⟩ := exists_spinOnce
    (show ∀ _ _, (feeding (.subscriber 0)).sendto _ _ = true from fun _ _ => rfl) hprocess
  have haccepted := accepted_of_processed hdecode hprocess
  rw [if_pos rfl] at haccepted
  obtain ⟨n', events, processed, ok, s', hprocessed, hvisited, rfl⟩ := spinOnce_cases hout
  rw [hprocess] at hprocessed
  simp only [Except.ok.injEq, Prod.mk.injEq] at hprocessed
  obtain ⟨_, hevents, _⟩ := hprocessed
  obtain ⟨es, hes, _⟩ :=
    visitAll_continues (feeding (.subscriber 0)) ⟨n', events, decide (0 < processed)⟩ n'.visitOrder
  rw [hvisited, ← hevents, queueAll, queueMessage_of_some (n := { n with
    buffer := Memory.load packet n.buffer }) hs] at hes
  exact ⟨_, _, hout, hok, ⟨_, _, hes⟩, haccepted⟩

end Node
end Crps
