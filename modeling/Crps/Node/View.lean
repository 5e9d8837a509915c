import Crps.Node.Events

/-!
# The node as queues of payloads

Forgetting buffers and packets under construction, a node is a packet counter,
a queue of accepted payloads for each publisher and a queue of messages for
each subscriber. Every event of `spin_once` or `publish` is one operation on
these queues; the theorems at the end say that the model's loops do exactly the
operations they record.
-/

namespace Crps

/-- The part that events change. -/
structure NodeQueues where
  counter : BpCounter
  outgoing : ℕ → List Bytes
  incoming : ℕ → List Bytes

/-- Packets of this publisher have the 17 header bytes and a size of 32 bits. -/
def PublisherInfo.Fits (p : PublisherInfo) : Prop :=
  p.packetHeaderSize = bpHeaderSize + bpDataHeaderSize ∧
    p.packetHeaderSize + p.messageSize.toNat < 2 ^ 32

def NodeConfig.Fits (cfg : NodeConfig) : Prop := ∀ p ∈ cfg.publishers, p.Fits

/-- The same of the publisher at one position. -/
def NodeConfig.FitsAt (cfg : NodeConfig) (k : ℕ) : Prop := ∀ p, cfg.publishers[k]? = some p → p.Fits

theorem NodeConfig.Fits.at {cfg : NodeConfig} (h : cfg.Fits) (k : ℕ) : cfg.FitsAt k :=
  fun p hp => h p (List.mem_of_getElem? hp)

/-- The publisher an event is about. -/
def SpinEvent.publisher? : SpinEvent → Option ℕ
  | .publish k _ _ => some k
  | .sendto k _ _ => some k
  | _ => none

namespace NodeQueues

/-- The operation an event stands for. -/
def apply (q : NodeQueues) : SpinEvent → NodeQueues
  | .queueMessage k payload true =>
    { q with incoming := Function.update q.incoming k (q.incoming k ++ [payload]) }
  | .callback k _ => { q with incoming := Function.update q.incoming k (q.incoming k).tail }
  | .publish k payload true =>
    { q with outgoing := Function.update q.outgoing k (q.outgoing k ++ [payload]) }
  | .sendto k _ true =>
    { q with
      counter := q.counter + 1
      outgoing := Function.update q.outgoing k (q.outgoing k).tail }
  | .sendto _ _ false => { q with counter := q.counter + 1 }
  | _ => q

/-- When an event can happen: payloads have their endpoint's size, a callback gets
the oldest message, a packet holds the oldest payload and the next counter. -/
def Allows (cfg : NodeConfig) (q : NodeQueues) : SpinEvent → Prop
  | .queueMessage k payload true =>
    ∃ s, cfg.subscribers[k]? = some s ∧ payload.length = s.messageSize.toNat
  | .callback k message => (q.incoming k).head? = some message
  | .publish k payload true =>
    ∃ p, cfg.publishers[k]? = some p ∧ payload.length = p.messageSize.toNat
  | .sendto k packet _ => ∃ p payload, cfg.publishers[k]? = some p ∧
      (q.outgoing k).head? = some payload ∧ payload.length = p.messageSize.toNat ∧
      packet = dataHeaderBytes (q.counter + 1) p.topicId p.messageTypeId p.messageSize ++ payload
  | _ => True

def applyAll (q : NodeQueues) (events : List SpinEvent) : NodeQueues := events.foldl apply q

/-- A sequence of events each of which can happen where it happens. -/
def Runs (cfg : NodeConfig) : NodeQueues → List SpinEvent → Prop
  | _, [] => True
  | q, e :: es => Allows cfg q e ∧ Runs cfg (q.apply e) es

theorem applyAll_append (q : NodeQueues) (es fs : List SpinEvent) :
    q.applyAll (es ++ fs) = (q.applyAll es).applyAll fs := List.foldl_append

theorem runs_append {cfg : NodeConfig} {q : NodeQueues} {es fs : List SpinEvent} :
    Runs cfg q (es ++ fs) ↔ Runs cfg q es ∧ Runs cfg (q.applyAll es) fs := by
  induction es generalizing q with
  | nil => simp [Runs, applyAll]
  | cons e es ih =>
    simp only [List.cons_append, Runs, ih, and_assoc]
    rfl

end NodeQueues

namespace Node

variable (n : Node)

def outgoing (k : ℕ) : List Bytes :=
  ((n.publishers[k]?).map fun p => p.packets.map p.payload).getD []

def incoming (k : ℕ) : List Bytes := ((n.subscribers[k]?).map Subscriber.messages).getD []

def queues : NodeQueues := ⟨n.bpCounter, n.outgoing, n.incoming⟩

/-- From one node to another, a list of events and nothing else has happened. -/
structure Advances (n : Node) (events : List SpinEvent) (n' : Node) : Prop where
  config : n'.config = n.config
  runs : NodeQueues.Runs n.config n.queues events
  queues : n'.queues = n.queues.applyAll events

variable {n} {n' n'' : Node} {es fs : List SpinEvent}

theorem Advances.trans (h : Advances n es n') (h' : Advances n' fs n'') :
    Advances n (es ++ fs) n'' where
  config := h'.config.trans h.config
  runs := by
    rw [NodeQueues.runs_append, ← h.queues, ← h.config]
    exact ⟨h.config ▸ h.runs, h'.runs⟩
  queues := by rw [h'.queues, h.queues, NodeQueues.applyAll_append]

/-! ## Endpoints by position -/

theorem outgoing_of_getElem? {k : ℕ} {p : Publisher} (hp : n.publishers[k]? = some p) :
    n.outgoing k = p.packets.map p.payload := by simp [outgoing, hp]

theorem incoming_of_getElem? {k : ℕ} {s : Subscriber} (hs : n.subscribers[k]? = some s) :
    n.incoming k = s.messages := by simp [incoming, hs]

theorem outgoing_set {k : ℕ} {p p' : Publisher} (hp : n.publishers[k]? = some p) :
    outgoing { n with publishers := n.publishers.set k p' } =
      Function.update n.outgoing k (p'.packets.map p'.payload) := by
  have hlt := (List.getElem?_eq_some_iff.mp hp).1
  funext j
  by_cases hj : j = k
  · subst hj
    simp [outgoing, hlt]
  · simp [outgoing, hj, Ne.symm hj]

theorem incoming_set {k : ℕ} {s s' : Subscriber} (hs : n.subscribers[k]? = some s) :
    incoming { n with subscribers := n.subscribers.set k s' } =
      Function.update n.incoming k s'.messages := by
  have hlt := (List.getElem?_eq_some_iff.mp hs).1
  funext j
  by_cases hj : j = k
  · subst hj
    simp [incoming, hlt]
  · simp [incoming, hj, Ne.symm hj]

theorem set_eq_self {α : Type} {xs : List α} {k : ℕ} {x : α} (hx : xs[k]? = some x) :
    xs.set k x = xs := by
  obtain ⟨hlt, rfl⟩ := List.getElem?_eq_some_iff.mp hx
  exact List.set_getElem_self hlt

theorem publisher_fits {k : ℕ} (hfits : n.config.FitsAt k) {p : Publisher}
    (hp : n.publishers[k]? = some p) : p.Fits ∧ p.packetHeaderSize = 17 := by
  obtain ⟨hheader, hlt⟩ := hfits p.info (by simp [config, hp])
  exact ⟨hlt, hheader⟩

/-! ## The operation behind each event -/

theorem set_publishers_self {k : ℕ} {p : Publisher} (hp : n.publishers[k]? = some p) :
    ({ n with publishers := n.publishers.set k p } : Node) = n := by
  rw [set_eq_self hp]

theorem advances_publish {k : ℕ} (hfits : n.config.FitsAt k) (data : Memory) :
    n.Advances [(n.publish k data).2] (n.publish k data).1 := by
  cases hp : n.publishers[k]? with
  | none =>
    simp only [publish, hp]
    exact ⟨rfl, ⟨trivial, trivial⟩, rfl⟩
  | some p =>
    rw [publish_of_some hp]
    cases hq : (p.publish data).1 with
    | false =>
      rw [p.publish_refused hq, set_publishers_self hp]
      exact ⟨rfl, ⟨trivial, trivial⟩, rfl⟩
    | true =>
      obtain ⟨hpfits, -⟩ := publisher_fits hfits hp
      obtain ⟨old, hold, hpackets⟩ := Publisher.publish_accepted hpfits hq
      have hpayload : ((p.publish data).2.packets).map (p.publish data).2.payload =
          n.outgoing k ++ [data.slice 0 p.messageSize.toNat] := by
        have hsame : (p.publish data).2.payload = p.payload := rfl
        rw [hsame, hpackets, outgoing_of_getElem? hp, List.map_append, List.map_singleton]
        simp [Publisher.payload, ← hold]
      refine ⟨?_, ⟨⟨p.info, ?_, ?_⟩, trivial⟩, ?_⟩
      · simp only [config, map_set_of_eq hp (show (p.publish data).2.info = p.info from rfl)]
      · simp [config, hp]
      · simp [Publisher.info]
      · simp only [queues, outgoing_set hp, hpayload]
        rfl

theorem set_subscribers_self {k : ℕ} {s : Subscriber} (hs : n.subscribers[k]? = some s) :
    ({ n with subscribers := n.subscribers.set k s } : Node) = n := by
  rw [set_eq_self hs]

theorem advances_queueMessage (k : ℕ) (data : Memory) :
    n.Advances [(n.queueMessage k data).2] (n.queueMessage k data).1 := by
  cases hs : n.subscribers[k]? with
  | none =>
    simp only [queueMessage, hs]
    exact ⟨rfl, ⟨trivial, trivial⟩, rfl⟩
  | some s =>
    rw [queueMessage_of_some hs]
    cases hq : (s.queueMessage data).1 with
    | false =>
      rw [s.queueMessage_refused hq, set_subscribers_self hs]
      exact ⟨rfl, ⟨trivial, trivial⟩, rfl⟩
    | true =>
      have hmessages : (s.queueMessage data).2.messages =
          n.incoming k ++ [data.slice 0 s.messageSize.toNat] := by
        rw [s.queueMessage_accepted hq, incoming_of_getElem? hs]
      refine ⟨?_, ⟨⟨s.info, ?_, ?_⟩, trivial⟩, ?_⟩
      · simp only [config,
          map_set_of_eq hs (show (s.queueMessage data).2.info = s.info from rfl)]
      · simp [config, hs]
      · simp [Subscriber.info]
      · simp only [queues, incoming_set hs, hmessages]
        rfl

theorem advances_callback {k : ℕ} {sub : Subscriber} {message : Bytes}
    (hs : n.subscribers[k]? = some sub) (hm : sub.messageQueue.get = some message)
    (left : Bytes) :
    n.Advances [.callback k message]
      { n with subscribers := n.subscribers.set k (sub.runCallback left).2 } := by
  have hhead : sub.messages.head? = some message := by
    rw [← hm, sub.messageQueue.get_eq_head?]
    rfl
  obtain ⟨rest, hrest⟩ := List.head?_eq_some_iff.mp hhead
  have hincoming : n.incoming k = message :: rest := by rw [incoming_of_getElem? hs, hrest]
  have hinfo : (sub.runCallback left).2.info = sub.info := by
    unfold Subscriber.runCallback
    split <;> rfl
  refine ⟨?_, ⟨?_, trivial⟩, ?_⟩
  · simp only [config, map_set_of_eq hs hinfo]
  · simp only [NodeQueues.Allows, queues, hincoming, List.head?_cons]
  · simp only [queues, incoming_set hs, (sub.runCallback_cons hrest left).2]
    simp [NodeQueues.applyAll, NodeQueues.apply, hincoming]
    rfl

theorem sendData_messageSize {p : Publisher} (h : p.packetHeaderSize = 17) :
    (UInt64.ofNat p.packetSize - UInt64.ofNat (bpHeaderSize + bpDataHeaderSize)).toUInt32 =
      p.messageSize := by
  have hlt := p.messageSize.toNat_lt
  rw [← UInt32.toNat_inj]
  simp only [Publisher.packetSize, h, bpHeaderSize, bpDataHeaderSize, UInt64.toNat_toUInt32,
    UInt64.toNat_sub, UInt64.toNat_ofNat']
  omega

/-- The front packet of a publisher's queue and what the header fill makes of it. -/
theorem filled_packet {p : Publisher} {message : Bytes} (hheader : p.packetHeaderSize = 17)
    (hlen : message.length = p.packetSize) :
    (n.sendData p.topicId p.messageTypeId message p.packetSize).1 =
      dataHeaderBytes (n.bpCounter + 1) p.topicId p.messageTypeId p.messageSize ++
        p.payload message := by
  have hsize : 17 ≤ message.length := by
    rw [hlen, Publisher.packetSize, hheader]
    omega
  simp only [sendData, nextBpCounter, sendData_messageSize hheader, bpFillDataHeader]
  rw [overwrite_eq (by simpa using hsize)]
  simp [Publisher.payload, hheader]

theorem advances_sendto {k : ℕ} {p : Publisher} {message packet : Bytes}
    (hfits : n.config.FitsAt k) (hp : n.publishers[k]? = some p)
    (hm : p.getMessage = some message)
    (hpacket : packet = (n.sendData p.topicId p.messageTypeId message p.packetSize).1) :
    n.Advances [.sendto k packet false]
        { n.nextBpCounter.2 with publishers := n.publishers.set k (p.writeMessage 0 packet) } ∧
      n.Advances [.sendto k packet true]
        { n.nextBpCounter.2 with
          publishers := n.publishers.set k (p.writeMessage 0 packet).popMessage.2 } := by
  obtain ⟨hpfits, hheader⟩ := publisher_fits hfits hp
  rw [p.getMessage_eq] at hm
  obtain ⟨rest, hrest⟩ := List.head?_eq_some_iff.mp hm
  have hlen : message.length = p.packetSize :=
    Publisher.length_of_mem_packets hpfits (by simp [hrest])
  have hfilled := @filled_packet n p message hheader hlen
  rw [← hpacket] at hfilled
  have hpayload : (p.payload message).length = p.messageSize.toNat := by
    simp [Publisher.payload, hlen, Publisher.packetSize]
  have houtgoing : n.outgoing k = p.payload message :: rest.map p.payload := by
    rw [outgoing_of_getElem? hp, hrest, List.map_cons]
  have hoverwrite : overwrite message 0 packet = packet := by
    have hsame : packet.length = message.length := by
      rw [hfilled, List.length_append, hpayload, length_dataHeaderBytes, hlen,
        Publisher.packetSize, hheader]
    rw [overwrite_eq_append (by omega)]
    simp
  have hwritten : (p.writeMessage 0 packet).packets = packet :: rest := by
    rw [p.writeMessage_packets hrest, hoverwrite]
  have hdrop : p.payload packet = p.payload message := by
    rw [hfilled]
    simp only [Publisher.payload, hheader]
    exact List.drop_left' (length_dataHeaderBytes _ _ _ _)
  have hallows : ∀ sent, NodeQueues.Allows n.config n.queues (.sendto k packet sent) := by
    intro sent
    refine ⟨p.info, p.payload message, ?_, ?_, hpayload, hfilled⟩
    · simp [config, hp]
    · simp [queues, houtgoing]
  constructor
  · refine ⟨?_, ⟨hallows false, trivial⟩, ?_⟩
    · simp only [config, nextBpCounter,
        map_set_of_eq hp (show (p.writeMessage 0 packet).info = p.info from rfl)]
    · have hsame : (p.writeMessage 0 packet).payload = p.payload := rfl
      have hqueue := @outgoing_set n k p (p.writeMessage 0 packet) hp
      rw [hsame, hwritten, List.map_cons, hdrop, ← List.map_cons, ← hrest,
        ← outgoing_of_getElem? hp, Function.update_eq_self] at hqueue
      simp only [queues, NodeQueues.applyAll, NodeQueues.apply, List.foldl_cons, List.foldl_nil]
      exact congrArg (fun f => (⟨n.bpCounter + 1, f, n.incoming⟩ : NodeQueues)) hqueue
  · refine ⟨?_, ⟨hallows true, trivial⟩, ?_⟩
    · simp only [config, nextBpCounter,
        map_set_of_eq hp (show (p.writeMessage 0 packet).popMessage.2.info = p.info from rfl)]
    · have hsame : (p.writeMessage 0 packet).popMessage.2.payload = p.payload := rfl
      have hqueue := @outgoing_set n k p (p.writeMessage 0 packet).popMessage.2 hp
      rw [hsame, Publisher.popMessage_packets _ hwritten] at hqueue
      simp only [queues, NodeQueues.applyAll, NodeQueues.apply, List.foldl_cons, List.foldl_nil,
        houtgoing, List.tail_cons]
      exact congrArg (fun f => (⟨n.bpCounter + 1, f, n.incoming⟩ : NodeQueues)) hqueue

theorem publisher?_publish (k : ℕ) (data : Memory) : (n.publish k data).2.publisher? = some k := by
  unfold publish
  split <;> rfl

/-- Every event is the operation it stands for. -/
theorem Does.advances {e : SpinEvent} (h : n.Does e n')
    (hfits : ∀ k, e.publisher? = some k → n.config.FitsAt k) : n.Advances [e] n' := by
  cases h with
  | publish k data => exact advances_publish (hfits k (publisher?_publish k data)) data
  | queueMessage k data => exact advances_queueMessage k data
  | callback left hs hm => exact advances_callback hs hm left
  | sendFailed hp hm hpacket => exact (advances_sendto (hfits _ rfl) hp hm hpacket).1
  | sent hp hm hpacket => exact (advances_sendto (hfits _ rfl) hp hm hpacket).2

theorem advances_buffer (buffer : Memory) : n.Advances [] { n with buffer } :=
  ⟨rfl, trivial, rfl⟩

/-- Whatever a node performs is a run of its queues. -/
theorem Performs.advances (hfits : n.config.Fits) (h : n.Performs es n') : n.Advances es n' := by
  induction h with
  | nil n buffer => exact advances_buffer buffer
  | @cons n _ _ _ _ buffer hdoes _ ih =>
    have hbuffer : n.Advances [] { n with buffer } := advances_buffer buffer
    have hfirst := hdoes.advances fun k _ => hbuffer.config.symm ▸ hfits.at k
    exact (hbuffer.trans hfirst).trans (ih (hfirst.config.symm ▸ hbuffer.config.symm ▸ hfits))

end Node

end Crps
