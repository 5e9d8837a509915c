import Crps.Broker.Routing
import Crps.Broker.Service
import Crps.Protocol.Framing

/-!
# Message sizes in the data branch

Three numbers claim to be the size of a message: the one registered with its
type, the one in the data header and the length of the datagram. The broker
compares the first with nothing when it forwards, so they agree exactly on the
packets whose sender has made them agree.
-/

namespace Crps
namespace Broker

variable {text : JsonText} {b : Broker} {client : String} {datagram : Bytes}

/-- The header a data packet is decoded with. -/
def dataHeader (b : Broker) (datagram : Bytes) : BpDataHeader :=
  let buffer := Memory.load datagram b.buffer
  { topicId := readBe32 buffer bpHeaderSize
    messageTypeId := readBe32 buffer (bpHeaderSize + 4)
    size := readBe32 buffer (bpHeaderSize + 8) }

/-- The checks a data packet passes on its way to the subscribers of a topic. -/
structure Forwards (b : Broker) (client : String) (datagram : Bytes) (topic : Topic) : Prop where
  type : datagram.head? = some 2
  header : 5 ≤ datagram.length
  framed : endOffset (b.dataHeader datagram).size.toNat ≤ datagram.length
  counter : b.Expects client (packetCounter datagram)
  topicAt : b.tables.topics[(b.dataHeader datagram).topicId.toNat]? = some topic
  known : (b.dataHeader datagram).messageTypeId.toNat < b.tables.messageTypes.length
  matching : topic.messageTypeId = (b.dataHeader datagram).messageTypeId

theorem decode_dataHeader (hb : datagram.head? = some 2) (hn : 5 ≤ datagram.length) :
    decodePacketBuffer text (Memory.load datagram b.buffer) datagram.length =
      .ok { type := if endOffset (b.dataHeader datagram).size.toNat > datagram.length
              then .invalid else .data
            header := packetHeader datagram
            dataHeader := b.dataHeader datagram } := by
  have htype : (packetHeader datagram).type = .data := packetHeader_type hb
  rw [decode_dataType text hb hn]
  unfold decodeData
  by_cases hend : endOffset (b.dataHeader datagram).size.toNat > datagram.length
  · rw [if_pos hend]
    exact congrArg Except.ok (if_pos hend)
  · rw [if_neg hend, ← htype]
    exact congrArg Except.ok (if_neg hend)

/-- Whatever is forwarded has passed the checks. -/
theorem forwards_of_forwarded {sendto : Sendto} {it : Iteration} {header : BpDataHeader}
    (h : b.spinIteration text sendto client datagram = .ok it)
    (hdisposal : it.disposal = .forwarded header) :
    ∃ topic, b.Forwards client datagram topic ∧ header = b.dataHeader datagram ∧
      it.attempts = forward b.tables sendto datagram topic.subscribers := by
  obtain ⟨d, hd, hit⟩ := spinIteration_iterates h
  cases hit with
  | refused => cases hdisposal
  | invalid => cases hdisposal
  | unknownType => cases hdisposal
  | control _ _ hcontrol =>
    obtain ⟨reply, _, packet, _, rfl⟩ := processControl_ok hcontrol
    cases hdisposal
  | data hpass htype =>
    have hb := head?_of_data text hd htype
    have hn : 5 ≤ datagram.length := by
      by_contra hn
      rw [decode_short text (by omega)] at hd
      injection hd with hd
      rw [← hd] at htype
      cases htype
    rw [decode_dataHeader hb hn] at hd
    injection hd with hd
    subst hd
    obtain ⟨rfl, topic, htopic, hmatch, hknown, hattempts⟩ := processData_forwarded hdisposal
    refine ⟨topic, ⟨hb, hn, ?_, ?_, htopic, hknown, hmatch⟩, rfl, hattempts⟩
    · by_contra hend
      simp only [if_pos (show endOffset (b.dataHeader datagram).size.toNat > datagram.length by
        omega)] at htype
      cases htype
    · exact (verify_iff _ _ _).mp hpass

theorem forwarded_of_forwards {topic : Topic} (h : b.Forwards client datagram topic)
    (sendto : Sendto) :
    ∃ it, b.spinIteration text sendto client datagram = .ok it ∧
      it.disposal = .forwarded (b.dataHeader datagram) ∧
      it.attempts = forward b.tables sendto datagram topic.subscribers := by
  have hd := @decode_dataHeader text b datagram h.type h.header
  rw [if_neg (Nat.not_lt.mpr h.framed)] at hd
  refine ⟨_, spinIteration_of_data sendto hd ((verify_iff _ _ _).mpr h.counter) rfl, ?_, ?_⟩
  · exact processData_complete (b := b.checked client datagram _) h.topicAt h.matching h.known _ _
  · have hforwarded := processData_complete
      (b := b.checked client datagram (packetHeader datagram).counter) h.topicAt h.matching h.known
      sendto datagram
    obtain ⟨_, topic', htopic', _, _, hattempts⟩ := processData_forwarded hforwarded
    have hsame : b.tables.topics[(b.dataHeader datagram).topicId.toNat]? = some topic' := htopic'
    rw [h.topicAt] at hsame
    injection hsame with hsame
    rw [hsame]
    exact hattempts

end Broker

/-- Whatever the iteration passed on to a subscriber has, by header and by length, the size
registered for the message type of its topic. -/
def Record.FixedSize (r : Record) : Prop :=
  ∀ header, r.iteration.disposal = .forwarded header → ∀ a ∈ r.iteration.attempts,
    ∃ topic info, r.before.tables.topics[header.topicId.toNat]? = some topic ∧
      r.before.tables.messageTypes[topic.messageTypeId.toNat]? = some info ∧
      header.size = info.size ∧ a.packet.length = 17 + info.size.toNat

namespace Broker

variable {text : JsonText}

/-- The datagram is no data packet that the broker's checks let pass to a subscriber, or it
announces and carries the registered size. -/
def SizeKept (b : Broker) (client : String) (datagram : Bytes) : Prop :=
  ∀ topic, b.Forwards client datagram topic → topic.subscribers ≠ [] →
    ∀ info, b.tables.messageTypes[topic.messageTypeId.toNat]? = some info →
      (b.dataHeader datagram).size = info.size ∧ datagram.length = 17 + info.size.toNat

theorem mem_forward {t : Tables} {sendto : Sendto} {packet : Bytes} {subscribers : List BpNodeId}
    {a : SendAttempt} (h : a ∈ forward t sendto packet subscribers) :
    a.packet = packet ∧ subscribers ≠ [] := by
  obtain ⟨k, hk, rfl⟩ := List.mem_mapIdx.mp h
  exact ⟨rfl, List.ne_nil_of_length_pos (by omega)⟩

theorem fixedSize_iff {r : Record}
    (h : r.before.spinIteration text r.arrival.sendto r.arrival.client r.arrival.datagram =
      .ok r.iteration) :
    r.FixedSize ↔ r.before.SizeKept r.arrival.client r.arrival.datagram := by
  constructor
  · intro hfixed topic hforwards hsubscribers info hinfo
    obtain ⟨it, hit, hdisposal, hattempts⟩ :=
      @forwarded_of_forwards text _ _ _ _ hforwards r.arrival.sendto
    rw [h] at hit
    injection hit with hit
    subst hit
    have hlen : r.iteration.attempts ≠ [] := by
      intro hnil
      have hlength := congrArg List.length (hattempts.symm.trans hnil)
      simp only [forward, List.length_mapIdx, List.length_nil] at hlength
      exact hsubscribers (List.length_eq_zero_iff.mp hlength)
    obtain ⟨a, ha⟩ := List.exists_mem_of_ne_nil _ hlen
    obtain ⟨topic', info', htopic', hinfo', hsize, hpacket⟩ := hfixed _ hdisposal a ha
    rw [hforwards.topicAt] at htopic'
    injection htopic' with htopic'
    subst htopic'
    rw [hinfo] at hinfo'
    injection hinfo' with hinfo'
    subst hinfo'
    exact ⟨hsize, (mem_forward (hattempts ▸ ha)).1 ▸ hpacket⟩
  · intro hkept header hdisposal a ha
    obtain ⟨topic, hforwards, rfl, hattempts⟩ := forwards_of_forwarded h hdisposal
    obtain ⟨hpacket, hsubscribers⟩ := mem_forward (hattempts ▸ ha)
    have hlt : topic.messageTypeId.toNat < r.before.tables.messageTypes.length :=
      hforwards.matching ▸ hforwards.known
    obtain ⟨info, hinfo⟩ : ∃ info,
        r.before.tables.messageTypes[topic.messageTypeId.toNat]? = some info :=
      ⟨_, List.getElem?_eq_getElem hlt⟩
    obtain ⟨hsize, hlen⟩ := hkept topic hforwards hsubscribers info hinfo
    exact ⟨topic, info, hforwards.topicAt, hinfo, hsize, hpacket ▸ hlen⟩

/-- In every run the forwarded packets have the registered size exactly where their senders
kept to it. -/
theorem spin_fixedSize_iff (as : List Arrival) :
    ∀ r ∈ started.spin text as,
      (r.FixedSize ↔ r.before.SizeKept r.arrival.client r.arrival.datagram) := by
  intro r hr
  exact fixedSize_iff (spinIteration_of_mem_spin hr)

/-- A node that registers four-byte messages and subscribes to their topic. -/
def imageRequests : List ControlRequest :=
  [.registerNode "camera", .registerMessageType "image" 4, .registerTopic "front" 0 1,
    .addSubscriber 0 0 0]

set_option maxRecDepth 20000 in
theorem imageRequests_length :
    ∀ a ∈ requestArrivals compactJson "10.0.0.2:40001" 1 imageRequests,
      a.datagram.length < 2 ^ 32 := by
  intro a ha
  simp only [requestArrivals, imageRequests, List.mem_cons, List.not_mem_nil, or_false] at ha
  rcases ha with rfl | rfl | rfl | rfl <;> rw [length_controlPacket] <;> decide

theorem dataHeader_dataPacket (b : Broker) (c : BpCounter) (t : TopicId) (m : MessageTypeId)
    (s : UInt32) (payload : Bytes) :
    b.dataHeader (dataHeaderBytes c t m s ++ payload) = ⟨t, m, s⟩ := by
  obtain ⟨htopic, hmessage, hsize⟩ := readBe32_dataPacket c t m s payload b.buffer
  simp only [dataHeader, bpHeaderSize, htopic, hmessage, hsize]

theorem serve_imageRequests :
    ({} : Tables).serve "10.0.0.2:40001" imageRequests =
      { nodes := [⟨"camera", "10.0.0.2:40001"⟩]
        messageTypes := [⟨"image", 4⟩]
        topics := [⟨"front", 0, 1, [], [0]⟩] } := by
  decide

def imagePacket (size : UInt32) (payload : Bytes) : Bytes := dataHeaderBytes 5 0 0 size ++ payload

/-- The run of the camera's registration and a packet of its own on its topic. -/
def imageRun (packet : Bytes) : List Arrival :=
  requestArrivals compactJson "10.0.0.2:40001" 1 imageRequests ++
    [⟨"10.0.0.2:40001", packet, fun _ _ _ => true⟩]

theorem imageRun_reaches (packet : Bytes) :
    ∃ b : Broker, b.tables = { nodes := [⟨"camera", "10.0.0.2:40001"⟩]
                               messageTypes := [⟨"image", 4⟩]
                               topics := [⟨"front", 0, 1, [], [0]⟩] } ∧
      b.Expects "10.0.0.2:40001" 5 ∧
      ∀ it, b.spinIteration compactJson (fun _ _ _ => true) "10.0.0.2:40001" packet = .ok it →
        ⟨b, ⟨"10.0.0.2:40001", packet, fun _ _ _ => true⟩, it⟩ ∈
          started.spin compactJson (imageRun packet) := by
  obtain ⟨b, htables, hexpects, hmem⟩ :=
    spin_requests imageRequests (show started.Expects "10.0.0.2:40001" 1 from .inl rfl)
      imageRequests_length
  refine ⟨b, htables.trans serve_imageRequests, hexpects, fun it hit => hmem _ _ ?_⟩
  rw [spin, hit]
  exact List.mem_cons_self

theorem imagePacket_forwards {b : Broker} (size : UInt32) (payload : Bytes)
    (htables : b.tables = { nodes := [⟨"camera", "10.0.0.2:40001"⟩]
                            messageTypes := [⟨"image", 4⟩]
                            topics := [⟨"front", 0, 1, [], [0]⟩] })
    (hexpects : b.Expects "10.0.0.2:40001" 5)
    (hframed : endOffset size.toNat ≤ 17 + payload.length) :
    b.Forwards "10.0.0.2:40001" (imagePacket size payload) ⟨"front", 0, 1, [], [0]⟩ where
  type := rfl
  header := by
    rw [imagePacket, List.length_append, length_dataHeaderBytes]
    omega
  framed := by
    rw [imagePacket, dataHeader_dataPacket, List.length_append, length_dataHeaderBytes]
    exact hframed
  counter := by
    rw [imagePacket, packetCounter_data]
    exact hexpects
  topicAt := by
    rw [imagePacket, dataHeader_dataPacket, htables]
    rfl
  known := by
    rw [imagePacket, dataHeader_dataPacket, htables]
    exact Nat.zero_lt_one
  matching := by
    rw [imagePacket, dataHeader_dataPacket]

/-- The camera keeps to its four bytes. -/
theorem spin_fixedSize_image :
    ∃ r ∈ started.spin compactJson (imageRun (imagePacket 4 [1, 2, 3, 4])), r.FixedSize := by
  obtain ⟨b, htables, hexpects, hmem⟩ := imageRun_reaches (imagePacket 4 [1, 2, 3, 4])
  have hforwards := imagePacket_forwards 4 [1, 2, 3, 4] htables hexpects (by decide)
  obtain ⟨it, hit, _, _⟩ :=
    @forwarded_of_forwards compactJson _ _ _ _ hforwards fun _ _ _ => true
  refine ⟨_, hmem it hit, (spin_fixedSize_iff _ _ (hmem it hit)).mpr ?_⟩
  intro topic htopic _ info hinfo
  have hsame : topic = ⟨"front", 0, 1, [], [0]⟩ :=
    Option.some.inj (htopic.topicAt.symm.trans hforwards.topicAt)
  rw [hsame, htables] at hinfo
  rw [← Option.some.inj hinfo, imagePacket, dataHeader_dataPacket]
  exact ⟨rfl, rfl⟩

/-- One byte announced as one byte goes out to a subscriber of four-byte messages. -/
theorem spin_fixedSize_fails :
    ¬ ∀ as : List Arrival, ∀ r ∈ started.spin compactJson as, r.FixedSize := by
  intro hall
  obtain ⟨b, htables, hexpects, hmem⟩ := imageRun_reaches (imagePacket 1 [7])
  have hforwards := imagePacket_forwards 1 [7] htables hexpects (by decide)
  obtain ⟨it, hit, hdisposal, hattempts⟩ :=
    @forwarded_of_forwards compactJson _ _ _ _ hforwards fun _ _ _ => true
  have hfixed := hall _ _ (hmem it hit)
  have hfirst : ⟨nodeAddress b.tables 0, imagePacket 1 [7], true⟩ ∈ it.attempts := by
    rw [hattempts]
    exact List.mem_cons_self
  obtain ⟨topic, info, htopic, hinfo, hsize, _⟩ := hfixed _ hdisposal _ hfirst
  have hsame := Option.some.inj (htopic.symm.trans hforwards.topicAt)
  rw [hsame, htables] at hinfo
  rw [← Option.some.inj hinfo, imagePacket, dataHeader_dataPacket] at hsize
  revert hsize
  decide

end Broker
end Crps
