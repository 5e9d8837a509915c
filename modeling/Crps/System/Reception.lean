import Crps.System.Carriage
import Crps.System.Connected

/-!
# What the ledgers say of messages received

The ledger of a node follows its subscribers' queues: an entry comes in with
each message queued, becomes the oldest, and goes out with the callback. So
whatever holds of every message as it is queued holds of it as it is handed
over, and entries keep their order.
-/

namespace Crps

/-- Messages that a subscriber's queue has taken in. -/
def queuedAt (k : ℕ) (events : List SpinEvent) : ℕ :=
  events.countP fun
    | .queueMessage j _ true => j = k
    | _ => false

theorem queuedAt_append (k : ℕ) (es fs : List SpinEvent) :
    queuedAt k (es ++ fs) = queuedAt k es + queuedAt k fs := List.countP_append

namespace Ledger

variable {ι : Type} {received : Option (MessageId ι)} {l : Ledger ι} {n n' : Node}
variable {G : ℕ → Option (MessageId ι) → Bytes → Prop} {e : SpinEvent} {es : List SpinEvent}

/-- The messages queued at `n` are those of the inbox, and all messages are as `G` has it. -/
structure Tallies (l : Ledger ι) (n : Node) (G : ℕ → Option (MessageId ι) → Bytes → Prop) :
    Prop where
  queued : ∀ k, List.Forall₂ (G k) (l.inbox k) (n.incoming k)
  handed : ∀ k, ∀ m ∈ l.delivered k, G k m.1 m.2

/-- Where the messages for a subscriber have come from, oldest first. -/
def origins (l : Ledger ι) (k : ℕ) : List (Option (MessageId ι)) :=
  (l.delivered k).map Prod.fst ++ l.inbox k

theorem Tallies.same {l' : Ledger ι} (h : l.Tallies n G) (hinbox : l'.inbox = l.inbox)
    (hdelivered : l'.delivered = l.delivered) (hincoming : n'.incoming = n.incoming) :
    l'.Tallies n' G := by
  constructor
  · rw [hinbox, hincoming]
    exact h.queued
  · rw [hdelivered]
    exact h.handed

theorem origins_same {l' : Ledger ι} (hinbox : l'.inbox = l.inbox)
    (hdelivered : l'.delivered = l.delivered) (k : ℕ) : l'.origins k = l.origins k := by
  rw [origins, origins, hinbox, hdelivered]

theorem Tallies.mono {G' : ℕ → Option (MessageId ι) → Bytes → Prop} (h : l.Tallies n G)
    (hG : ∀ k origin message, G k origin message → G' k origin message) : l.Tallies n G' where
  queued k := (h.queued k).imp fun origin message => hG k origin message
  handed k m hm := hG k m.1 m.2 (h.handed k m hm)

theorem Tallies.queue (h : l.Tallies n G) {k : ℕ} {message : Bytes} (hG : G k received message)
    (hincoming : n'.incoming = Function.update n.incoming k (n.incoming k ++ [message])) :
    (l.record received (.queueMessage k message true)).Tallies n' G ∧
      ∀ j, (l.record received (.queueMessage k message true)).origins j =
        l.origins j ++ List.replicate (queuedAt j [.queueMessage k message true]) received := by
  refine ⟨⟨fun j => ?_, h.handed⟩, fun j => ?_⟩
  · rw [hincoming]
    by_cases hjk : j = k
    · subst hjk
      simp only [record, Function.update_self]
      exact List.rel_append (h.queued j) (.cons hG .nil)
    · simp only [record, Function.update_of_ne hjk]
      exact h.queued j
  · by_cases hjk : j = k
    · subst hjk
      simp [record, origins, queuedAt]
    · simp [record, origins, queuedAt, hjk, Ne.symm hjk]

variable (received)

theorem Tallies.callback (h : l.Tallies n G) {k : ℕ} {message : Bytes} {rest : List Bytes}
    (hqueue : n.incoming k = message :: rest)
    (hincoming : n'.incoming = Function.update n.incoming k rest) :
    (l.record received (.callback k message)).Tallies n' G ∧
      ∀ j, (l.record received (.callback k message)).origins j = l.origins j := by
  have hhead := h.queued k
  rw [hqueue] at hhead
  cases hinbox : l.inbox k with
  | nil =>
    rw [hinbox] at hhead
    cases hhead
  | cons origin inbox =>
    rw [hinbox] at hhead
    obtain ⟨hfirst, hrest⟩ := List.forall₂_cons.mp hhead
    refine ⟨⟨fun j => ?_, fun j m hm => ?_⟩, fun j => ?_⟩
    · rw [hincoming]
      by_cases hjk : j = k
      · subst hjk
        simpa only [record, Function.update_self, hinbox, List.tail_cons] using hrest
      · simp only [record, Function.update_of_ne hjk]
        exact h.queued j
    · by_cases hjk : j = k
      · subst hjk
        simp only [record, Function.update_self, hinbox, List.head?_cons, Option.join_some] at hm
        rcases List.mem_append.mp hm with hm | hm
        · exact h.handed j m hm
        · rw [List.mem_singleton.mp hm]
          exact hfirst
      · simp only [record, Function.update_of_ne hjk] at hm
        exact h.handed j m hm
    · by_cases hjk : j = k
      · subst hjk
        simp [record, origins, hinbox]
      · simp [record, origins, hjk]

/-- One event of the node, entered in its ledger. -/
theorem Tallies.does (h : l.Tallies n G) (hdoes : n.Does e n')
    (hG : ∀ k message, e = .queueMessage k message true → G k received message) :
    (l.record received e).Tallies n' G ∧ ∀ k, (l.record received e).origins k =
      l.origins k ++ List.replicate (queuedAt k [e]) received := by
  have hnothing : (l.record received e).inbox = l.inbox →
      (l.record received e).delivered = l.delivered → n'.incoming = n.incoming →
      (∀ k, queuedAt k [e] = 0) → (l.record received e).Tallies n' G ∧
        ∀ k, (l.record received e).origins k =
          l.origins k ++ List.replicate (queuedAt k [e]) received := by
    intro hinbox hdelivered hincoming hnone
    refine ⟨h.same hinbox hdelivered hincoming, fun k => ?_⟩
    rw [hnone, List.replicate_zero, List.append_nil, origins_same hinbox hdelivered]
  cases hdoes with
  | publish j data =>
    have hincoming : (n.publish j data).1.incoming = n.incoming := by
      funext k
      simp only [Node.incoming, Node.publish_subscribers]
    unfold Node.publish at hincoming hnothing ⊢
    split at hincoming
    · rename_i hp
      simp only [hp] at hnothing ⊢
      exact hnothing rfl rfl trivial fun _ => rfl
    · rename_i p hp
      simp only [hp] at hnothing ⊢
      exact hnothing rfl rfl hincoming fun _ => rfl
  | queueMessage j data =>
    cases hs : n.subscribers[j]? with
    | none =>
      simp only [Node.queueMessage, hs] at hnothing ⊢
      exact hnothing rfl rfl trivial fun _ => rfl
    | some sub =>
      rw [Node.queueMessage_of_some hs] at hG hnothing ⊢
      cases htaken : (sub.queueMessage data).1 with
      | false =>
        rw [htaken, sub.queueMessage_refused htaken, Node.set_subscribers_self hs] at hnothing
        rw [sub.queueMessage_refused htaken, Node.set_subscribers_self hs]
        exact hnothing rfl rfl rfl fun _ => rfl
      | true =>
        rw [htaken] at hG
        refine h.queue (hG j _ rfl) ?_
        rw [Node.incoming_set hs, sub.queueMessage_accepted htaken, Node.incoming_of_getElem? hs]
  | @callback j sub message left hs hm =>
    have hhead : sub.messages.head? = some message := by
      rw [← hm, sub.messageQueue.get_eq_head?]
      rfl
    obtain ⟨rest, hrest⟩ := List.head?_eq_some_iff.mp hhead
    obtain ⟨htallies, horigins⟩ := h.callback received
      ((Node.incoming_of_getElem? hs).trans hrest)
      ((Node.incoming_set hs).trans (by rw [(sub.runCallback_cons hrest left).2]))
    refine ⟨htallies, fun k => ?_⟩
    rw [horigins]
    exact (List.append_nil _).symm
  | sendFailed => exact hnothing rfl rfl rfl fun _ => rfl
  | sent => exact hnothing rfl rfl rfl fun _ => rfl

theorem Tallies.performs (h : l.Tallies n G) (hperforms : n.Performs es n')
    (hG : ∀ k message, .queueMessage k message true ∈ es → G k received message) :
    (l.recordAll received es).Tallies n' G ∧ ∀ k, (l.recordAll received es).origins k =
      l.origins k ++ List.replicate (queuedAt k es) received := by
  induction hperforms generalizing l with
  | nil n buffer =>
    refine ⟨h.same rfl rfl rfl, fun k => ?_⟩
    exact (List.append_nil _).symm
  | @cons n n₁ n₂ e es buffer hdoes _ ih =>
    have hbuffer : l.Tallies { n with buffer } G := h.same rfl rfl rfl
    obtain ⟨hfirst, horigins⟩ := hbuffer.does received hdoes
      fun k message he => hG k message (he ▸ List.mem_cons_self)
    obtain ⟨hrest, horigins'⟩ := ih hfirst fun k message hmem =>
      hG k message (List.mem_cons_of_mem _ hmem)
    refine ⟨hrest, fun k => ?_⟩
    have hcount := queuedAt_append k [e] es
    rw [List.singleton_append] at hcount
    rw [recordAll, List.foldl_cons, ← recordAll, horigins', horigins, hcount, List.append_assoc,
      List.replicate_add]

theorem record_delivered (l : Ledger ι) (e : SpinEvent) (k : ℕ) :
    ((l.record received e).delivered k).map Prod.snd =
      (l.delivered k).map Prod.snd ++ deliveredTo k [e] := by
  unfold record
  split
  · exact (List.append_nil _).symm
  · rename_i j message
    by_cases hjk : j = k
    · subst hjk
      simp [deliveredTo]
    · simp [deliveredTo, hjk, Ne.symm hjk]
  · exact (List.append_nil _).symm
  · rename_i hother _
    cases e with
    | callback j message => exact absurd rfl (hother j message)
    | _ => exact (List.append_nil _).symm

theorem recordAll_delivered (l : Ledger ι) (es : List SpinEvent) (k : ℕ) :
    ((l.recordAll received es).delivered k).map Prod.snd =
      (l.delivered k).map Prod.snd ++ deliveredTo k es := by
  induction es generalizing l with
  | nil => exact (List.append_nil _).symm
  | cons e es ih =>
    have happend := Node.deliveredTo_append k [e] es
    rw [List.singleton_append] at happend
    rw [recordAll, List.foldl_cons, ← recordAll, ih, record_delivered, List.append_assoc, happend]

end Ledger

namespace Tables

theorem Binds.same_names {t : Tables} {e f : BoundTopic} (he : t.Binds e) (hf : t.Binds f)
    (hid : e.topicId = f.topicId) :
    e.topicName = f.topicName ∧ e.messageTypeName = f.messageTypeName := by
  have htype := (he.unique hf hid).1
  obtain ⟨⟨topic, htopic, hname, _⟩, hmessage⟩ := he
  obtain ⟨⟨topic', htopic', hname', _⟩, hmessage'⟩ := hf
  rw [hid, htopic', Option.some.injEq] at htopic
  subst htopic
  rw [htype, hmessage', Option.some.injEq, MessageTypeInfo.mk.injEq] at hmessage
  exact ⟨hname.symm.trans hname', hmessage.1.symm⟩

end Tables

namespace System

variable {ι : Type} {net : Deployment ι} {nodes : ι → Node} {s s' : System ι} {i j : ι}
variable {r : Registry}

/-- A message as it is queued for subscriber `k` of node `j`: accepted by the publisher its
origin names, which has the subscriber's topic and message type. -/
def Received (s : System ι) (j : ι) (k : ℕ) (origin : Option (MessageId ι)) (message : Bytes) :
    Prop :=
  ∃ m p sub, origin = some m ∧ (s.node m.node).config.publishers[m.publisher]? = some p ∧
    (s.node j).config.subscribers[k]? = some sub ∧ p.topicName = sub.topicName ∧
    p.messageTypeName = sub.messageTypeName ∧ message.length = sub.messageSize.toNat ∧
    (acceptedPayloads (s.ledger m.node).trace m.publisher)[m.index]? = some message

theorem Received.later {k : ℕ} {origin : Option (MessageId ι)} {message : Bytes}
    (h : s.Received j k origin message) (hlater : Later s s')
    (hj : (s'.node j).config = (s.node j).config) : s'.Received j k origin message := by
  obtain ⟨m, p, sub, horigin, hp, hsub, htopic, htype, hlength, haccepted⟩ := h
  rcases hlater m.node with hnone | ⟨hconfig, es, hes⟩
  · rw [hnone] at haccepted
    cases haccepted
  · refine ⟨m, p, sub, horigin, hconfig ▸ hp, hj ▸ hsub, htopic, htype, hlength, ?_⟩
    have hlt := (List.getElem?_eq_some_iff.mp haccepted).1
    rw [hes, acceptedPayloads_append, List.getElem?_append_left hlt]
    exact haccepted

theorem Active.confirms {n₀ : Node} {requests : List Bytes}
    (h : Active net nodes s r i n₀ requests) (hsmall : r.tables.Small) :
    r.tables.Confirms (net.address i) (s.node i) :=
  (Tables.confirms_of_registered h.registered hsmall).of_config h.performs.config

theorem History.active_of_trace (h : History net nodes s r i) (htrace : (s.ledger i).trace ≠ []) :
    ∃ n₀ requests, Active net nodes s r i n₀ requests := by
  rcases h with h | h
  · exact absurd h.trace htrace
  · exact h

theorem Active.indexed {n₀ : Node} {requests : List Bytes}
    (h : Active net nodes s r i n₀ requests) :
    (s.node i).Indexed (s.node i).publishers.length (s.node i).subscribers.length := by
  have hconfig := h.performs.config
  have hpublishers := congrArg (fun c => c.publishers.length) hconfig
  have hsubscribers := congrArg (fun c => c.subscribers.length) hconfig
  simp only [Node.config, List.length_map] at hpublishers hsubscribers
  rw [hpublishers, hsubscribers]
  exact Node.indexed_of_config hconfig h.registered.indexed

/-- What a connected node queues on receiving a sound datagram. -/
theorem Sound.received (hchronicle : Chronicle net nodes s r) (hsmall : r.tables.Small)
    (hphase : s.phase j = .connected) {d : Datagram ι} (h : s.Sound d) {n' : Node}
    {events : List SpinEvent}
    (hprocesses : Node.Processes net.text (s.node j) (.datagram d.bytes) n' events) {k : ℕ}
    {message : Bytes} (hmem : .queueMessage k message true ∈ events) :
    s.Received j k d.origin message := by
  rcases h with ⟨_, hcontrol⟩ | ⟨m, horigin, p, payload, counter, hp, hfits, haccepted, hlength,
    hbytes⟩
  · have hnone := hprocesses.eq_nil_of_notData (by rw [hcontrol]; decide)
    rw [hnone] at hmem
    cases hmem
  · obtain ⟨_, _, hreceiver⟩ := (hchronicle.history j).active hphase
    have hsome : (s.ledger m.node).trace ≠ [] := by
      intro hnone
      rw [hnone] at haccepted
      cases haccepted
    obtain ⟨_, _, hsender⟩ := (hchronicle.history m.node).active_of_trace hsome
    obtain ⟨hheader, hroom⟩ := hfits
    have hlen : 17 + payload.length < 2 ^ 32 := by
      rw [hheader] at hroom
      rw [hlength]
      exact hroom
    rw [hbytes] at hprocesses
    obtain ⟨sub, hsub, htopic, hmessage⟩ :=
      hprocesses.dataPacket hreceiver.indexed hlength.symm hlen hmem
    obtain ⟨publisher, hpublisher, rfl⟩ : ∃ publisher,
        (s.node m.node).publishers[m.publisher]? = some publisher ∧ publisher.info = p := by
      rw [Node.config, List.getElem?_map] at hp
      exact Option.map_eq_some_iff.mp hp
    obtain ⟨subscriber, hsubscriber, rfl⟩ : ∃ subscriber,
        (s.node j).subscribers[k]? = some subscriber ∧ subscriber.info = sub := by
      rw [Node.config, List.getElem?_map] at hsub
      exact Option.map_eq_some_iff.mp hsub
    have hbinds := (hsender.confirms hsmall).endpoints publisher.boundTopic
      (List.mem_append_left _ (List.mem_map_of_mem (List.mem_of_getElem? hpublisher)))
    have hbinds' := (hreceiver.confirms hsmall).endpoints subscriber.boundTopic
      (mem_boundTopics_subscriber hsubscriber)
    have hid : publisher.boundTopic.topicId = subscriber.boundTopic.topicId := htopic.symm
    obtain ⟨hname, htype⟩ := hbinds.same_names hbinds' hid
    have hsize : publisher.messageSize = subscriber.messageSize := (hbinds.unique hbinds' hid).2
    have hsame := hmessage hsize.symm
    subst hsame
    refine ⟨m, _, _, horigin, hp, hsub, hname, htype, ?_, haccepted⟩
    exact hlength.trans (congrArg UInt32.toNat hsize)

/-- What the ledger of node `j` holds about messages received. -/
structure Recorded (s : System ι) (j : ι) : Prop where
  silent : (s.ledger j).trace = [] → ∀ k, (s.ledger j).inbox k = [] ∧ (s.ledger j).delivered k = []
  tallies : (s.ledger j).trace ≠ [] → (s.ledger j).Tallies (s.node j) (s.Received j)
  callbacks : ∀ k, ((s.ledger j).delivered k).map Prod.snd = deliveredTo k (s.ledger j).trace

theorem recorded_initial (nodes : ι → Node) (j : ι) : Recorded (initial nodes) j :=
  ⟨fun _ _ => ⟨rfl, rfl⟩, fun h => absurd rfl h, fun _ => rfl⟩

theorem Recorded.kept (h : Recorded s j) (hlater : Later s s')
    (htrace : (s'.ledger j).trace = (s.ledger j).trace)
    (hinbox : (s'.ledger j).inbox = (s.ledger j).inbox)
    (hdelivered : (s'.ledger j).delivered = (s.ledger j).delivered)
    (hnode : (s.ledger j).trace = [] ∨ s'.node j = s.node j) : Recorded s' j := by
  refine ⟨?_, fun hsome => ?_, ?_⟩
  · rw [htrace, hinbox, hdelivered]
    exact h.silent
  · rw [htrace] at hsome
    have hsame := hnode.resolve_left hsome
    refine ((h.tallies hsome).same hinbox hdelivered (by rw [hsame])).mono
      fun k origin message hG => hG.later hlater (by rw [hsame])
  · rw [htrace, hdelivered]
    exact h.callbacks

theorem Active.incoming_connected {n₀ : Node} {requests : List Bytes}
    (h : Active net nodes s r j n₀ requests) (hnodes : ∀ i, Node.Created (nodes i)) (k : ℕ) :
    n₀.incoming k = [] := by
  have hqueued := (Node.queued_of_blueprint h.registered.blueprint
    (.subscriber k)).trans (Node.queued_of_created (hnodes j) _)
  rw [Node.queued_subscriber] at hqueued
  exact List.length_eq_zero_iff.mp hqueued

theorem Active.incoming_of_silent {n₀ : Node} {requests : List Bytes}
    (h : Active net nodes s r j n₀ requests) (hnodes : ∀ i, Node.Created (nodes i))
    (htrace : (s.ledger j).trace = []) (k : ℕ) : (s.node j).incoming k = [] := by
  have hperforms := h.performs
  rw [htrace] at hperforms
  have hincoming : (s.node j).incoming = n₀.incoming := by
    generalize s.node j = n at hperforms
    cases hperforms
    rfl
  rw [hincoming, h.incoming_connected hnodes]

theorem Recorded.tallies_active (h : Recorded s j) {n₀ : Node} {requests : List Bytes}
    (hactive : Active net nodes s r j n₀ requests) (hnodes : ∀ i, Node.Created (nodes i)) :
    (s.ledger j).Tallies (s.node j) (s.Received j) := by
  by_cases htrace : (s.ledger j).trace = []
  · refine ⟨fun k => ?_, fun k m hm => ?_⟩
    · rw [(h.silent htrace k).1, hactive.incoming_of_silent hnodes htrace]
      exact .nil
    · rw [(h.silent htrace k).2] at hm
      cases hm
  · exact h.tallies htrace

theorem Recorded.moves (h : Recorded s j) {n₀ : Node} {requests : List Bytes}
    (hactive : Active net nodes s r j n₀ requests) (hnodes : ∀ i, Node.Created (nodes i))
    (hlater : Later s s') {origin : Option (MessageId ι)} {events : List SpinEvent}
    (hperforms : (s.node j).Performs events (s'.node j))
    (hledger : s'.ledger j = (s.ledger j).recordAll origin events)
    (hreceived : ∀ k message, .queueMessage k message true ∈ events →
      s.Received j k origin message) :
    Recorded s' j ∧ ∀ k, (s'.ledger j).origins k =
      (s.ledger j).origins k ++ List.replicate (queuedAt k events) origin := by
  have hmono := fun k origin message (hG : s.Received j k origin message) =>
    hG.later hlater hperforms.config
  obtain ⟨htallies, horigins⟩ := ((h.tallies_active hactive hnodes).mono hmono).performs origin
    hperforms fun k message hmem => hmono k origin message (hreceived k message hmem)
  rw [← hledger] at htallies horigins
  refine ⟨⟨fun hnone => ?_, fun _ => htallies, fun k => ?_⟩, horigins⟩
  · have hevents : (s.ledger j).trace ++ events = [] := by
      rw [← Ledger.recordAll_trace origin, ← hledger]
      exact hnone
    obtain ⟨htrace, rfl⟩ := List.append_eq_nil_iff.mp hevents
    rw [hledger]
    exact h.silent htrace
  · rw [hledger, Ledger.recordAll_delivered, Ledger.recordAll_trace, h.callbacks,
      Node.deliveredTo_append]

end System
end Crps
