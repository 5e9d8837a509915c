import Crps.Endpoint.MessageQueue
import Crps.Protocol.Packet

/-!
# Publishers and subscribers

Each endpoint owns one message queue. A publisher's queued packets start with
room for the packet header; a subscriber's queue holds bare payloads. The size
its queue was built with is carried by the structure.
-/

namespace Crps

def messageQueueCapacity : ℕ := 10

structure Publisher where
  topicName : String
  messageTypeName : String
  messageSize : MessageSize
  topicPriority : TopicPriority
  packetHeaderSize : ℕ
  topicId : TopicId
  messageTypeId : MessageTypeId
  messageQueue : MessageQueue
  queue_size : messageQueue.messageSize = UInt32.ofNat (packetHeaderSize + messageSize.toNat)

namespace Publisher

def create (topicName messageTypeName : String) (messageSize : MessageSize)
    (topicPriority : TopicPriority) (packetHeaderSize : ℕ) : Publisher where
  topicName := topicName
  messageTypeName := messageTypeName
  messageSize := messageSize
  topicPriority := topicPriority
  packetHeaderSize := packetHeaderSize
  topicId := 0
  messageTypeId := 0
  messageQueue := .create (UInt32.ofNat (packetHeaderSize + messageSize.toNat))
    messageQueueCapacity
  queue_size := rfl

variable (p : Publisher)

/-- The packet size in `size_t`. -/
def packetSize : ℕ := p.packetHeaderSize + p.messageSize.toNat

def messagesQueued : ℕ := p.messageQueue.size

def getMessage : Option Bytes := p.messageQueue.get

def setMessageTypeId (messageTypeId : MessageTypeId) : Publisher := { p with messageTypeId }

def setTopicId (topicId : TopicId) : Publisher := { p with topicId }

def publish (data : Memory) : Bool × Publisher :=
  let pushed := p.messageQueue.push data none p.packetHeaderSize
  (pushed.1, { p with
    messageQueue := pushed.2
    queue_size := by rw [MessageQueue.push_messageSize, p.queue_size] })

def popMessage : Bool × Publisher :=
  let popped := p.messageQueue.pop
  (popped.1, { p with
    messageQueue := popped.2
    queue_size := by rw [MessageQueue.pop_messageSize, p.queue_size] })

/-- Writing into the front packet through the pointer of `get_message`. -/
def writeMessage (off : ℕ) (bs : Bytes) : Publisher :=
  { p with
    messageQueue := p.messageQueue.writeFront off bs
    queue_size := by rw [MessageQueue.writeFront_messageSize, p.queue_size] }

/-- The packet size is representable in the 32 bits the queue stores. -/
def Fits : Prop := p.packetSize < 2 ^ 32

/-- Queued packets, oldest first. -/
def packets : List Bytes := p.messageQueue.contents

/-- The payload behind the header room of a packet. -/
def payload (packet : Bytes) : Bytes := packet.drop p.packetHeaderSize

theorem queue_messageSize {p : Publisher} (h : p.Fits) :
    p.messageQueue.messageSize.toNat = p.packetHeaderSize + p.messageSize.toNat := by
  rw [p.queue_size, UInt32.toNat_ofNat']
  simp only [Fits, packetSize] at h
  omega

theorem length_of_mem_packets {p : Publisher} (h : p.Fits) {packet : Bytes}
    (hb : packet ∈ p.packets) : packet.length = p.packetSize := by
  rw [p.messageQueue.length_of_mem_contents hb, queue_messageSize h]
  rfl

theorem messagesQueued_eq : p.messagesQueued = p.packets.length := by
  simp [messagesQueued, packets]

theorem getMessage_eq : p.getMessage = p.packets.head? := p.messageQueue.get_eq_head?

theorem publish_refused {data : Memory} (h : (p.publish data).1 = false) :
    p.publish data = (false, p) := by
  have hfull : p.messageQueue.full = true := by
    simpa [publish, MessageQueue.push_fst] using h
  simp only [publish, p.messageQueue.push_full hfull]

/-- An accepted payload is appended behind header room with stale bytes. -/
theorem publish_accepted {p : Publisher} (hfits : p.Fits) {data : Memory}
    (h : (p.publish data).1 = true) :
    ∃ old : Bytes, old.length = p.packetHeaderSize ∧
      (p.publish data).2.packets =
        p.packets ++ [old ++ data.slice 0 p.messageSize.toNat] := by
  have hsize := queue_messageSize hfits
  have hfull : p.messageQueue.full = false := by
    simpa [publish, MessageQueue.push_fst] using h
  obtain ⟨old, hold, hc⟩ := p.messageQueue.push_contents data hfull
    (show p.packetHeaderSize ≤ p.messageQueue.messageSize.toNat by omega)
  refine ⟨old, hold, ?_⟩
  rw [hsize, Nat.add_sub_cancel_left] at hc
  exact hc

theorem popMessage_packets {packet : Bytes} {rest : List Bytes} (h : p.packets = packet :: rest) :
    p.popMessage.2.packets = rest := (p.messageQueue.pop_cons h).2

theorem writeMessage_packets {packet : Bytes} {rest : List Bytes}
    (h : p.packets = packet :: rest) (off : ℕ) (bs : Bytes) :
    (p.writeMessage off bs).packets = overwrite packet off bs :: rest :=
  p.messageQueue.writeFront_contents h off bs

theorem publish_messagesQueued (data : Memory) :
    (p.publish data).2.messagesQueued = p.messagesQueued + (p.publish data).1.toNat :=
  p.messageQueue.push_size data none p.packetHeaderSize

theorem publish_iff (data : Memory) :
    (p.publish data).1 = true ↔ p.messagesQueued < p.messageQueue.queueCapacity := by
  have hfull := p.messageQueue.full_iff
  have hsize := p.messageQueue.size_add_free
  simp only [publish, MessageQueue.push_fst, messagesQueued]
  rw [Bool.not_eq_true', ← Bool.not_eq_true, hfull]
  omega

theorem popMessage_messagesQueued : p.popMessage.2.messagesQueued = p.messagesQueued - 1 :=
  p.messageQueue.pop_size

theorem writeMessage_messagesQueued (off : ℕ) (bs : Bytes) :
    (p.writeMessage off bs).messagesQueued = p.messagesQueued :=
  p.messageQueue.writeFront_size off bs

end Publisher

structure Subscriber where
  topicName : String
  messageTypeName : String
  messageSize : MessageSize
  topicPriority : TopicPriority
  topicId : TopicId
  messageTypeId : MessageTypeId
  messageQueue : MessageQueue
  queue_size : messageQueue.messageSize = messageSize

namespace Subscriber

def create (topicName messageTypeName : String) (messageSize : MessageSize)
    (topicPriority : TopicPriority) : Subscriber where
  topicName := topicName
  messageTypeName := messageTypeName
  messageSize := messageSize
  topicPriority := topicPriority
  topicId := 0
  messageTypeId := 0
  messageQueue := .create messageSize messageQueueCapacity
  queue_size := rfl

variable (s : Subscriber)

def messagesQueued : ℕ := s.messageQueue.size

def setMessageTypeId (messageTypeId : MessageTypeId) : Subscriber := { s with messageTypeId }

def setTopicId (topicId : TopicId) : Subscriber := { s with topicId }

def setTopicPriority (topicPriority : TopicPriority) : Subscriber := { s with topicPriority }

def queueMessage (data : Memory) : Bool × Subscriber :=
  let pushed := s.messageQueue.push data none 0
  (pushed.1, { s with
    messageQueue := pushed.2
    queue_size := by rw [MessageQueue.push_messageSize, s.queue_size] })

/-- `run_callback`. The callback gets the pointer to the queued bytes and may
leave others, `left`, in their place before the message is popped. -/
def runCallback (left : Bytes) : Bool × Subscriber :=
  if s.messageQueue.empty then (false, s)
  else
    let written := s.messageQueue.writeFront 0 left
    (written.pop.1, { s with
      messageQueue := written.pop.2
      queue_size := by
        rw [MessageQueue.pop_messageSize, MessageQueue.writeFront_messageSize, s.queue_size] })

/-- Queued payloads, oldest first. -/
def messages : List Bytes := s.messageQueue.contents

theorem messagesQueued_eq : s.messagesQueued = s.messages.length := by
  simp [messagesQueued, messages]

theorem queueMessage_refused {data : Memory} (h : (s.queueMessage data).1 = false) :
    s.queueMessage data = (false, s) := by
  have hfull : s.messageQueue.full = true := by
    simpa [queueMessage, MessageQueue.push_fst] using h
  simp only [queueMessage, s.messageQueue.push_full hfull]

theorem queueMessage_accepted {data : Memory} (h : (s.queueMessage data).1 = true) :
    (s.queueMessage data).2.messages = s.messages ++ [data.slice 0 s.messageSize.toNat] := by
  have hfull : s.messageQueue.full = false := by
    simpa [queueMessage, MessageQueue.push_fst] using h
  obtain ⟨old, hold, hc⟩ := s.messageQueue.push_contents data hfull (Nat.zero_le _)
  rw [List.length_eq_zero_iff.mp hold, List.nil_append, Nat.sub_zero, s.queue_size] at hc
  exact hc

/-- Messages the subscriber can still queue. -/
def room : ℕ := s.messageQueue.freeBuffers.length

theorem queueMessage_room (data : Memory) : (s.queueMessage data).2.room = s.room - 1 := by
  simp only [queueMessage, room, MessageQueue.push_freeBuffers, List.length_tail]

theorem queueMessage_fst (data : Memory) : (s.queueMessage data).1 = decide (0 < s.room) := by
  rw [Bool.eq_iff_iff, decide_eq_true_iff]
  simp only [queueMessage, MessageQueue.push_fst, MessageQueue.full, room]
  cases s.messageQueue.freeBuffers <;> simp

@[simp] theorem queueMessage_messageSize (data : Memory) :
    (s.queueMessage data).2.messageSize = s.messageSize := rfl

theorem runCallback_cons {b : Bytes} {rest : List Bytes} (h : s.messages = b :: rest)
    (left : Bytes) : (s.runCallback left).1 = true ∧ (s.runCallback left).2.messages = rest := by
  have hne : s.messageQueue.empty = false := by
    cases he : s.messageQueue.empty with
    | false => rfl
    | true =>
      have hnil : s.messages = [] := s.messageQueue.empty_iff.mp he
      rw [hnil] at h
      cases h
  have hpop := MessageQueue.pop_cons _ (s.messageQueue.writeFront_contents h 0 left)
  simp only [runCallback, hne, Bool.false_eq_true, if_false]
  exact hpop

end Subscriber

end Crps
