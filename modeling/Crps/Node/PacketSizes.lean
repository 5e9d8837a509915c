import Crps.Node.State

/-!
# Buffer arithmetic of a publisher

The size of a packet is computed in three places: the publisher adds header
room to the message size, the queue stores the sum in 32 bits and subtracts the
room again when it copies, and `send_data` subtracts it from the packet size.
The three agree exactly when the sum fits into the 32 bits the queue keeps.
-/

namespace Crps

namespace Publisher

/-- States of a publisher between its creation and any later point: it is published to,
registered, and its front packet is written to and popped by the node. -/
inductive InUse (created : Publisher) : Publisher → Prop
  | created : InUse created created
  | publish {p : Publisher} (data : Memory) : InUse created p → InUse created (p.publish data).2
  | popMessage {p : Publisher} : InUse created p → InUse created p.popMessage.2
  | writeMessage {p : Publisher} (off : ℕ) (bs : Bytes) :
      InUse created p → InUse created (p.writeMessage off bs)
  | setTopicId {p : Publisher} (topicId : TopicId) :
      InUse created p → InUse created (p.setTopicId topicId)
  | setMessageTypeId {p : Publisher} (messageTypeId : MessageTypeId) :
      InUse created p → InUse created (p.setMessageTypeId messageTypeId)

theorem InUse.sizes {created p : Publisher} (h : created.InUse p) :
    p.packetHeaderSize = created.packetHeaderSize ∧ p.messageSize = created.messageSize ∧
      p.messageQueue.queueCapacity = created.messageQueue.queueCapacity := by
  induction h with
  | created => exact ⟨rfl, rfl, rfl⟩
  | @publish p data _ ih =>
    have hcapacity : (p.publish data).2.messageQueue.queueCapacity =
        p.messageQueue.queueCapacity := p.messageQueue.push_queueCapacity data none _
    exact ⟨ih.1, ih.2.1, hcapacity.trans ih.2.2⟩
  | @popMessage p _ ih =>
    have hcapacity : p.popMessage.2.messageQueue.queueCapacity =
        p.messageQueue.queueCapacity := p.messageQueue.pop_queueCapacity
    exact ⟨ih.1, ih.2.1, hcapacity.trans ih.2.2⟩
  | @writeMessage p off bs _ ih =>
    have hcapacity : (p.writeMessage off bs).messageQueue.queueCapacity =
        p.messageQueue.queueCapacity := p.messageQueue.writeFront_queueCapacity off bs
    exact ⟨ih.1, ih.2.1, hcapacity.trans ih.2.2⟩
  | setTopicId _ _ ih => exact ih
  | setMessageTypeId _ _ ih => exact ih

variable (p : Publisher)

/-- The three computations of the packet size agree. -/
structure Consistent : Prop where
  room : p.packetHeaderSize = 17
  allocated : ∀ b ∈ p.messageQueue.buffers, b.length = p.packetSize
  copied : p.messageQueue.copyLength p.packetHeaderSize = p.messageSize.toNat
  inside : ∀ b ∈ p.messageQueue.buffers,
    p.packetHeaderSize + p.messageQueue.copyLength p.packetHeaderSize ≤ b.length
  written : ∀ data : Memory, (p.publish data).1 = true →
    ∃ headerRoom : Bytes, headerRoom.length = 17 ∧
      (p.publish data).2.packets = p.packets ++ [headerRoom ++ data.slice 0 p.messageSize.toNat]
  announced : ∀ (n : Node) (topicId : TopicId) (messageTypeId : MessageTypeId) (buffer : Bytes),
    (n.sendData topicId messageTypeId buffer p.packetSize).1 =
      bpFillDataHeader (n.bpCounter + 1) topicId messageTypeId p.messageSize buffer

variable {p}

theorem announced_messageSize (hroom : p.packetHeaderSize = 17) :
    (UInt64.ofNat p.packetSize - UInt64.ofNat (bpHeaderSize + bpDataHeaderSize)).toUInt32 =
      p.messageSize := by
  have hlt := p.messageSize.toNat_lt
  rw [← UInt32.toNat_inj, UInt64.toNat_toUInt32, UInt64.toNat_sub, UInt64.toNat_ofNat',
    UInt64.toNat_ofNat']
  simp only [packetSize, hroom, bpHeaderSize, bpDataHeaderSize]
  omega

theorem sendData_announces (hroom : p.packetHeaderSize = 17) (n : Node) (topicId : TopicId)
    (messageTypeId : MessageTypeId) (buffer : Bytes) :
    (n.sendData topicId messageTypeId buffer p.packetSize).1 =
      bpFillDataHeader (n.bpCounter + 1) topicId messageTypeId p.messageSize buffer := by
  simp only [Node.sendData, Node.nextBpCounter, announced_messageSize hroom]

theorem consistent_of_fits (hroom : p.packetHeaderSize = 17) (hfits : p.Fits) :
    p.Consistent := by
  have hqueue := queue_messageSize hfits
  have hallocated : ∀ b ∈ p.messageQueue.buffers, b.length = p.packetSize := by
    intro b hb
    rw [p.messageQueue.buffers_length b hb, hqueue]
    rfl
  have hcopied : p.messageQueue.copyLength p.packetHeaderSize = p.messageSize.toNat := by
    rw [p.messageQueue.copyLength_eq (by omega), hqueue, Nat.add_sub_cancel_left]
  refine ⟨hroom, hallocated, hcopied, ?_, ?_, sendData_announces hroom⟩
  · intro b hb
    rw [hallocated b hb, hcopied]
    exact le_rfl
  · intro data haccepted
    obtain ⟨headerRoom, hlength, hpackets⟩ := publish_accepted hfits haccepted
    exact ⟨headerRoom, hlength.trans hroom, hpackets⟩

theorem fits_of_allocated (hcapacity : 0 < p.messageQueue.queueCapacity)
    (hallocated : ∀ b ∈ p.messageQueue.buffers, b.length = p.packetSize) : p.Fits := by
  have hlength : 0 < p.messageQueue.buffers.length := by rwa [p.messageQueue.capacity]
  obtain ⟨b, hb⟩ := List.exists_mem_of_length_pos hlength
  have hnarrowed := p.messageQueue.buffers_length b hb
  have hlt := p.messageQueue.messageSize.toNat_lt
  rw [hallocated b hb] at hnarrowed
  simp only [Fits]
  omega

theorem consistent_iff (hroom : p.packetHeaderSize = 17)
    (hcapacity : 0 < p.messageQueue.queueCapacity) :
    p.Consistent ↔ p.messageSize.toNat + 17 < 2 ^ 32 := by
  have hfits : p.Fits ↔ p.messageSize.toNat + 17 < 2 ^ 32 := by
    simp only [Fits, packetSize, hroom, Nat.add_comm]
  rw [← hfits]
  constructor
  · intro h
    exact fits_of_allocated hcapacity h.allocated
  · exact consistent_of_fits hroom

end Publisher

namespace Node

theorem getLast_createPublisher (n : Node) (topicName typeName : String)
    (messageSize : MessageSize) (topicPriority : TopicPriority) :
    (n.createPublisher topicName typeName messageSize topicPriority).publishers.getLast? =
      some (.create topicName typeName messageSize topicPriority 17) :=
  List.getLast?_concat

/-- At every point of its use, the arithmetic of a created publisher agrees exactly when its
message size leaves room for the 17 header bytes in 32 bits. -/
theorem createPublisher_consistent_iff (n : Node) (topicName typeName : String)
    (messageSize : MessageSize) (topicPriority : TopicPriority) {created p : Publisher}
    (hcreated : (n.createPublisher topicName typeName messageSize
      topicPriority).publishers.getLast? = some created)
    (hused : created.InUse p) : p.Consistent ↔ messageSize.toNat + 17 < 2 ^ 32 := by
  rw [getLast_createPublisher] at hcreated
  injection hcreated with hcreated
  subst hcreated
  obtain ⟨hroom, hsize, hcapacity⟩ := hused.sizes
  have hpositive : 0 < p.messageQueue.queueCapacity := by
    rw [hcapacity]
    exact Nat.succ_pos 9
  rw [Publisher.consistent_iff hroom hpositive, hsize]
  exact Iff.rfl

/-- A message of four bytes, published once. -/
theorem createPublisher_consistent_small :
    ((Publisher.create "a" "t" 4 0 17).publish fun _ => 7).2.Consistent ↔ 4 + 17 < 2 ^ 32 :=
  createPublisher_consistent_iff (Node.create "n") "a" "t" 4 0
    (getLast_createPublisher (Node.create "n") "a" "t" 4 0) (.publish (fun _ => 7) .created)

/-- The largest message size gets buffers of 16 bytes and a copy that wraps around. -/
theorem createPublisher_inconsistent :
    (∃ created, ((Node.create "n").createPublisher "a" "t" 4294967295 0).publishers.getLast? =
        some created ∧
      (∃ b ∈ created.messageQueue.buffers, b.length = 16) ∧
      created.messageQueue.copyLength 17 = 2 ^ 64 - 1) ∧
    ¬ ∀ (n : Node) (topicName typeName : String) (messageSize : MessageSize)
        (topicPriority : TopicPriority) (created p : Publisher),
      (n.createPublisher topicName typeName messageSize topicPriority).publishers.getLast? =
        some created → created.InUse p → p.Consistent := by
  constructor
  · refine ⟨_, getLast_createPublisher _ _ _ _ _, ⟨List.replicate 16 0, ?_, rfl⟩, by decide⟩
    exact List.mem_replicate.mpr ⟨by decide, rfl⟩
  · intro hall
    have hconsistent := hall (Node.create "n") "a" "t" 4294967295 0 _ _
      (getLast_createPublisher _ _ _ _ _) .created
    have hfits := (Publisher.consistent_iff rfl (Nat.succ_pos 9)).mp hconsistent
    exact absurd hfits (by decide)

end Node

end Crps
