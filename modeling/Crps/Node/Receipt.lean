import Crps.Node.Delivery
import Crps.Protocol.Framing

/-!
# Data packets at a node

A packet as a publisher has filled it in is queued for the subscribers of its
topic id and for nobody else, with exactly the payload behind the header if
their messages have its size.
-/

namespace Crps
namespace Node

variable {text : JsonText} {n n' : Node} {counter : BpCounter} {topicId : TopicId}
variable {messageTypeId : MessageTypeId} {size : MessageSize} {payload : Bytes}
variable {events : List SpinEvent} {reception : Reception} {env : SpinEnvironment}

theorem slice_dataPacket (counter : BpCounter) (topicId : TopicId) (messageTypeId : MessageTypeId)
    (size : MessageSize) (payload : Bytes) (old : Memory) :
    (payloadOf (Memory.load (dataHeaderBytes counter topicId messageTypeId size ++ payload)
      old)).slice 0 payload.length = payload := by
  have hlength := length_dataHeaderBytes counter topicId messageTypeId size
  generalize dataHeaderBytes counter topicId messageTypeId size = header at hlength ⊢
  have hshift : (payloadOf (Memory.load (header ++ payload) old)).slice 0 payload.length =
      (Memory.load (header ++ payload) old).slice 17 payload.length := by
    simp only [Memory.slice, payloadOf, bpHeaderSize, bpDataHeaderSize, Nat.zero_add]
  have hfits : 17 + payload.length ≤ (header ++ payload).length := by
    rw [List.length_append, hlength]
  rw [hshift, Memory.slice_load old hfits, ← hlength, List.drop_left, List.take_length]

theorem mem_queueAll {data : Memory} {ks : List ℕ} {k : ℕ} {message : Bytes}
    (h : .queueMessage k message true ∈ (n.queueAll data ks).2) :
    k ∈ ks ∧ ∃ s, n.config.subscribers[k]? = some s ∧
      message = data.slice 0 s.messageSize.toNat := by
  induction ks generalizing n with
  | nil => cases h
  | cons j ks ih =>
    rcases List.mem_cons.mp h with hfirst | hrest
    · cases hs : n.subscribers[j]? with
      | none =>
        simp only [queueMessage, hs] at hfirst
        cases hfirst
      | some s =>
        rw [queueMessage_of_some hs, SpinEvent.queueMessage.injEq] at hfirst
        obtain ⟨rfl, hmessage, _⟩ := hfirst
        exact ⟨List.mem_cons_self, s.info, by simp [config, hs], hmessage⟩
    · obtain ⟨hk, s, hs, hmessage⟩ := ih hrest
      rw [(Does.queueMessage (n := n) j data).config] at hs
      exact ⟨List.mem_cons_of_mem _ hk, s, hs, hmessage⟩

theorem Processes.publishers (h : Processes text n reception n' events) :
    n'.publishers = n.publishers := by
  cases h with
  | dropped => rfl
  | @queued _ _ info out _ _ _ hout =>
    subst hout
    exact queueAll_publishers _ _

theorem spinOnce_queues {out : SpinOutcome} (h : n.spinOnce text reception env = .ok out) :
    ∃ n' events, Processes text n reception n' events ∧ ∀ k message taken,
      .queueMessage k message taken ∈ out.events → .queueMessage k message taken ∈ events := by
  obtain ⟨n', events, processed, ok, s, hprocessed, hvisited, rfl⟩ := spinOnce_cases h
  exact ⟨n', events, processIncomingMessage_processes hprocessed,
    fun k message taken hmem => visitAll_queues hvisited hmem⟩

theorem Processes.eq_nil_of_notData {bytes : Bytes}
    (h : Processes text n (.datagram bytes) n' events) (hbytes : bytes.head? ≠ some 2) :
    events = [] := by
  cases h with
  | dropped => rfl
  | queued hd htype => exact absurd (head?_of_data text hd htype) hbytes

theorem Processes.eq_nil_of_wouldBlock (h : Processes text n .wouldBlock n' events) :
    events = [] := by
  cases h
  rfl

/-- A data packet is queued for the subscribers of its topic id. -/
theorem Processes.dataPacket {np : ℕ}
    (h : Processes text n
      (.datagram (dataHeaderBytes counter topicId messageTypeId size ++ payload)) n' events)
    (hindexed : n.Indexed np n.subscribers.length) (hsize : size.toNat = payload.length)
    (hlen : 17 + payload.length < 2 ^ 32) {k : ℕ} {message : Bytes}
    (hmem : .queueMessage k message true ∈ events) :
    ∃ s, n.config.subscribers[k]? = some s ∧ s.topicId = topicId ∧
      (s.messageSize = size → message = payload) := by
  have hdecode := decode_dataPacket text counter topicId messageTypeId n.buffer hsize hlen
  have hslice := slice_dataPacket counter topicId messageTypeId size payload n.buffer
  generalize dataHeaderBytes counter topicId messageTypeId size ++ payload = bytes at *
  cases h with
  | dropped => cases hmem
  | @queued _ decoded info out hd htype htopic hout =>
    subst hout
    rw [hdecode] at hd
    injection hd with hd
    subst hd
    obtain ⟨hlisted, s, hs, hmessage⟩ := mem_queueAll hmem
    have hlistening := (mem_listening hindexed topicId k).mp (by rw [htopic]; exact hlisted)
    obtain ⟨sub, hsub, hsubTopic⟩ := hlistening
    have hinfo : sub.info = s := by
      simp only [config, List.getElem?_map, hsub, Option.map_some] at hs
      exact Option.some.inj hs
    refine ⟨s, hs, ?_, fun hsame => ?_⟩
    · rw [← hinfo]
      exact hsubTopic
    · rw [hmessage, hsame, hsize]
      exact hslice

/-- Seen from a subscriber, a data packet is one message of its topic or nothing. -/
theorem messageFor_dataPacket {np : ℕ} (hindexed : n.Indexed np n.subscribers.length)
    (hsize : size.toNat = payload.length) (hlen : 17 + payload.length < 2 ^ 32) {k : ℕ}
    {s : SubscriberInfo} (hs : n.config.subscribers[k]? = some s) :
    (n.messageFor text (.datagram (dataHeaderBytes counter topicId messageTypeId size ++ payload))
      s).isSome ↔ s.topicId = topicId := by
  have hdecode := decode_dataPacket text counter topicId messageTypeId n.buffer hsize hlen
  generalize dataHeaderBytes counter topicId messageTypeId size ++ payload = bytes at *
  have hprocess := processIncomingMessage_of_decode hdecode
  obtain ⟨sub, hsub, rfl⟩ : ∃ sub, n.subscribers[k]? = some sub ∧ sub.info = s := by
    rw [config, List.getElem?_map] at hs
    exact Option.map_eq_some_iff.mp hs
  by_cases hlisted : (n.topics topicId).elim [] TopicInfo.subscribers = []
  · simp only [hlisted, ne_eq, not_true_eq_false, and_false, if_false] at hprocess
    have haccepted := accepted_of_processed hdecode hprocess
    simp only [messageFor, haccepted]
    constructor
    · intro h
      cases h
    · intro htopic
      have hmem := (mem_listening hindexed topicId k).mpr ⟨sub, hsub, htopic⟩
      rw [hlisted] at hmem
      cases hmem
  · simp only [hlisted, ne_eq, not_false_eq_true, and_self, if_true] at hprocess
    have haccepted := accepted_of_processed hdecode hprocess
    rw [if_pos rfl] at haccepted
    simp only [messageFor, haccepted, Option.bind_some]
    by_cases htopic : topicId = sub.info.topicId
    · simp [htopic]
    · simp [htopic, Ne.symm htopic]

end Node
end Crps
