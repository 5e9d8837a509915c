import Crps.Node.Pointers
import Crps.Node.View
import Crps.Protocol.Framing

/-!
# What a node takes in

`process_incoming_message` compares the message type of a packet with that of
one subscriber of its topic, and only to write it to the log. The datagrams for
which nothing depends on the comparison are told by their header and the node's
subscribers.
-/

namespace Crps
namespace Node

variable {text : JsonText} {n : Node}

theorem listening_eq {np ns : ℕ} (h : n.Indexed np ns) (topicId : TopicId) :
    (n.topics topicId).elim [] TopicInfo.subscribers = n.subscriberPositions ns topicId := by
  have hentry := congrArg TopicInfo.subscribers (h.topics topicId)
  cases htopic : n.topics topicId with
  | none =>
    rw [htopic] at hentry
    exact hentry
  | some info =>
    rw [htopic] at hentry
    exact hentry

theorem mem_listening {np : ℕ} (h : n.Indexed np n.subscribers.length) (topicId : TopicId)
    (k : ℕ) : k ∈ (n.topics topicId).elim [] TopicInfo.subscribers ↔
      ∃ s, n.subscribers[k]? = some s ∧ s.topicId = topicId := by
  rw [listening_eq h, subscriberPositions, List.mem_filter, List.mem_range, decide_eq_true_iff,
    Option.map_eq_some_iff]
  constructor
  · exact fun hk => hk.2
  · rintro ⟨s, hs, htopic⟩
    exact ⟨(List.getElem?_eq_some_iff.mp hs).1, s, hs, htopic⟩

theorem nodup_listening {np ns : ℕ} (h : n.Indexed np ns) (topicId : TopicId) :
    ((n.topics topicId).elim [] TopicInfo.subscribers).Nodup := by
  rw [listening_eq h]
  exact List.nodup_range.filter _

theorem incoming_queueAll (data : Memory) (ks : List ℕ) {k : ℕ} {s : Subscriber}
    (hs : n.subscribers[k]? = some s) :
    (n.queueAll data ks).1.incoming k = n.incoming k ++
      List.replicate (min (ks.count k) s.room) (data.slice 0 s.messageSize.toNat) := by
  have hmessages := queueAll_messages (n := n) data ks k
  rw [hs, Option.map_some] at hmessages
  rw [incoming, hmessages, incoming_of_getElem? hs]
  rfl

/-- One byte for the subscriber's topic, in a packet of the given type. -/
def posePacket (s : Subscriber) (messageTypeId : MessageTypeId) : Bytes :=
  dataHeaderBytes 1 s.topicId messageTypeId 1 ++ [42]

theorem decode_posePacket (s : Subscriber) (messageTypeId : MessageTypeId) (old : Memory) :
    decodePacketBuffer compactJson (Memory.load (posePacket s messageTypeId) old)
        (posePacket s messageTypeId).length =
      .ok { type := .data
            header := { type := .data, counter := 1 }
            dataHeader := { topicId := s.topicId, messageTypeId, size := 1 } } :=
  decode_dataPacket compactJson 1 s.topicId messageTypeId old rfl (by decide)

end Node
end Crps
