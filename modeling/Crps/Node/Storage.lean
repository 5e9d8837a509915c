import Crps.Foundation.GrowingVector
import Crps.Node.Charted

/-!
# Where the endpoints are stored

`create_publisher` and `create_subscriber` return the address of an element of a
vector, and a message queue keeps the addresses of its own buffers. Both kinds
of address are numbers here that are never used twice. When a vector grows it
copy-constructs its elements, and the implicit copy of a message queue has
buffers of its own but the addresses of the old ones.
-/

namespace Crps

/-- The addresses in a message queue: the nodes of `m_buffers`, and the pointers to such nodes in
`m_free_buffers` and `m_queue`. -/
structure StoredQueue where
  buffers : List ℕ
  freeBuffers : List ℕ
  queue : List ℕ

namespace StoredQueue

/-- `MessageQueue::MessageQueue`, its buffers allocated from `address` on. -/
def create (address queueCapacity : ℕ) : StoredQueue where
  buffers := List.range' address queueCapacity
  freeBuffers := List.range' address queueCapacity
  queue := []

/-- The implicit copy constructor. -/
def copy (address : ℕ) (q : StoredQueue) : StoredQueue :=
  { q with buffers := List.range' address q.buffers.length }

/-- Every pointer is to a buffer of this queue. -/
def Own (q : StoredQueue) : Prop := ∀ b ∈ q.freeBuffers ++ q.queue, b ∈ q.buffers

theorem own_create (address queueCapacity : ℕ) : (create address queueCapacity).Own := by
  intro b hb
  rwa [create, List.append_nil] at hb

end StoredQueue

/-- `m_publishers` and `m_subscribers`, and the first address not yet used. -/
structure NodeStorage where
  unused : ℕ
  publishers : GrowingVector StoredQueue
  subscribers : GrowingVector StoredQueue

namespace NodeStorage

def empty : NodeStorage := ⟨1, .empty, .empty⟩

/-- `emplace_back` on one of the vectors: a block if one is needed, the buffers of the new element
and those of the copies, all at addresses from `unused` on. -/
def emplaceBack (g : Growth) (unused : ℕ) (v : GrowingVector StoredQueue) :
    GrowingVector StoredQueue :=
  v.emplaceBack g unused (fun k q => q.copy (unused + 1 + (k + 1) * messageQueueCapacity))
    (.create (unused + 1) messageQueueCapacity)

def unusedAfter (unused : ℕ) (v : GrowingVector StoredQueue) : ℕ :=
  unused + 1 + (v.elements.length + 1) * messageQueueCapacity

def createPublisher (g : Growth) (st : NodeStorage) : NodeStorage where
  unused := unusedAfter st.unused st.publishers
  publishers := emplaceBack g st.unused st.publishers
  subscribers := st.subscribers

def createSubscriber (g : Growth) (st : NodeStorage) : NodeStorage where
  unused := unusedAfter st.unused st.subscribers
  publishers := st.publishers
  subscribers := emplaceBack g st.unused st.subscribers

/-- The address of an endpoint, which `connect` enters in its maps. -/
def place (st : NodeStorage) : Endpoint → Place
  | .publisher k => ⟨st.publishers.block, k⟩
  | .subscriber k => ⟨st.subscribers.block, k⟩

def queueOf (st : NodeStorage) : Endpoint → Option StoredQueue
  | .publisher k => st.publishers.elements[k]?
  | .subscriber k => st.subscribers.elements[k]?

/-- The queue after `publish` through a pointer. There is none for a pointer to storage that has
been given up or a buffer that went with it. -/
def publish (st : NodeStorage) (p : Place) : Option StoredQueue :=
  if p.block = st.publishers.block then do
    let q ← st.publishers.elements[p.index]?
    match q.freeBuffers with
    | [] => some q
    | b :: rest =>
      if b ∈ q.buffers then some { q with freeBuffers := rest, queue := q.queue ++ [b] } else none
  else none

end NodeStorage

/-- A call by which the application sets up a node. -/
inductive EndpointCall where
  | publisher (topicName typeName : String) (messageSize : MessageSize)
      (topicPriority : TopicPriority)
  | subscriber (topicName typeName : String) (messageSize : MessageSize)
      (topicPriority : TopicPriority)

/-- A node as its application knows it: with its storage and the pointers it has returned. -/
structure NodeSetup where
  node : Node
  storage : NodeStorage
  publishers : List Place
  subscribers : List Place

namespace NodeSetup

def create (name : String) : NodeSetup := ⟨.create name, .empty, [], []⟩

def call (g : Growth) (w : NodeSetup) : EndpointCall → NodeSetup
  | .publisher topicName typeName messageSize topicPriority =>
    let storage := w.storage.createPublisher g
    { w with
      node := w.node.createPublisher topicName typeName messageSize topicPriority
      storage
      publishers := w.publishers ++ [storage.publishers.back] }
  | .subscriber topicName typeName messageSize topicPriority =>
    let storage := w.storage.createSubscriber g
    { w with
      node := w.node.createSubscriber topicName typeName messageSize topicPriority
      storage
      subscribers := w.subscribers ++ [storage.subscribers.back] }

def calls (g : Growth) (name : String) (cs : List EndpointCall) : NodeSetup :=
  cs.foldl (call g) (create name)

/-- The pointer that the creation of an endpoint has returned. -/
def handle (w : NodeSetup) : Endpoint → Option Place
  | .publisher k => w.publishers[k]?
  | .subscriber k => w.subscribers[k]?

end NodeSetup

def TopicInfo.endpoints (info : TopicInfo) : List Endpoint :=
  info.subscribers.map .subscriber ++ info.publishers.map .publisher

/-- The endpoint is in both maps of the node. -/
def Node.Registers (n : Node) (e : Endpoint) : Prop :=
  e ∈ n.visitOrder ∧ ∃ topicId, e ∈ ((n.topics topicId).getD {}).endpoints

/-- After `connect` the pointers are to the registered endpoints, the queues keep to their own
buffers, and what is published through a pointer waits in the publisher that `spin_once` visits. -/
structure NodeSetup.Sound (w : NodeSetup) (n : Node) : Prop where
  handles : ∀ e p, w.handle e = some p → p = w.storage.place e ∧ n.Registers e
  own : ∀ e q, w.storage.queueOf e = some q → q.Own
  publishes : ∀ k p, w.handle (.publisher k) = some p → ∃ q b,
    w.storage.queueOf (.publisher k) = some q ∧ b ∈ q.buffers ∧
    (w.storage.publish p).map StoredQueue.queue = some (q.queue ++ [b])

namespace NodeSetup

variable {g : Growth} {w : NodeSetup}

/-- A queue as its constructor leaves it. -/
def Pristine (q : StoredQueue) : Prop := ∃ address, q = .create address messageQueueCapacity

/-- The storage has grown with the node. -/
structure Grown (g : Growth) (w : NodeSetup) : Prop where
  publishers : GrowingVector.Filled g Pristine w.storage.publishers w.publishers
  subscribers : GrowingVector.Filled g Pristine w.storage.subscribers w.subscribers
  publishers_length : w.storage.publishers.elements.length = w.node.publishers.length
  subscribers_length : w.storage.subscribers.elements.length = w.node.subscribers.length
  publishers_lt : w.storage.publishers.block < w.storage.unused
  subscribers_lt : w.storage.subscribers.block < w.storage.unused

theorem grown_create (name : String) : Grown g (create name) where
  publishers := .empty
  subscribers := .empty
  publishers_length := rfl
  subscribers_length := rfl
  publishers_lt := Nat.zero_lt_one
  subscribers_lt := Nat.zero_lt_one

theorem block_emplaceBack_lt {unused : ℕ} {v : GrowingVector StoredQueue} (h : v.block < unused) :
    (NodeStorage.emplaceBack g unused v).block < NodeStorage.unusedAfter unused v := by
  unfold NodeStorage.unusedAfter NodeStorage.emplaceBack
  by_cases hroom : v.elements.length < v.capacity
  · rw [(GrowingVector.emplaceBack_of_lt hroom).1]
    omega
  · rw [(GrowingVector.emplaceBack_of_full (Nat.le_of_not_lt hroom)).1]
    omega

theorem Grown.call (h : Grown g w) (c : EndpointCall) : Grown g (w.call g c) := by
  have hpublishers :
      w.storage.unused < NodeStorage.unusedAfter w.storage.unused w.storage.publishers := by
    unfold NodeStorage.unusedAfter
    omega
  have hsubscribers :
      w.storage.unused < NodeStorage.unusedAfter w.storage.unused w.storage.subscribers := by
    unfold NodeStorage.unusedAfter
    omega
  cases c with
  | publisher topicName typeName messageSize topicPriority =>
    exact {
      publishers := .emplaceBack _ h.publishers h.publishers_lt ⟨_, rfl⟩
      subscribers := h.subscribers
      publishers_length := by
        simp [NodeSetup.call, NodeStorage.createPublisher, NodeStorage.emplaceBack,
          Node.createPublisher, h.publishers_length]
      subscribers_length := h.subscribers_length
      publishers_lt := block_emplaceBack_lt h.publishers_lt
      subscribers_lt := h.subscribers_lt.trans hpublishers }
  | subscriber topicName typeName messageSize topicPriority =>
    exact {
      publishers := h.publishers
      subscribers := .emplaceBack _ h.subscribers h.subscribers_lt ⟨_, rfl⟩
      publishers_length := h.publishers_length
      subscribers_length := by
        simp [NodeSetup.call, NodeStorage.createSubscriber, NodeStorage.emplaceBack,
          Node.createSubscriber, h.subscribers_length]
      publishers_lt := h.publishers_lt.trans hsubscribers
      subscribers_lt := block_emplaceBack_lt h.subscribers_lt }

theorem grown_calls (name : String) (cs : List EndpointCall) : Grown g (calls g name cs) := by
  suffices hfold : ∀ w, Grown g w → Grown g (cs.foldl (call g) w) from hfold _ (grown_create name)
  induction cs with
  | nil => exact fun w hw => hw
  | cons c cs ih => exact fun w hw => ih _ (hw.call c)

theorem created_calls (name : String) (cs : List EndpointCall) :
    Node.Created (calls g name cs).node := by
  suffices hfold : ∀ w : NodeSetup,
      Node.Created w.node → Node.Created (cs.foldl (call g) w).node from hfold _ (.create name)
  induction cs with
  | nil => exact fun w hw => hw
  | cons c cs ih =>
    intro w hw
    refine ih _ ?_
    cases c with
    | publisher topicName typeName messageSize topicPriority => exact .publisher _ _ _ _ hw
    | subscriber topicName typeName messageSize topicPriority => exact .subscriber _ _ _ _ hw

/-- A node's maps are those of its endpoints as they were created. -/
structure Joined (start n : Node) : Prop where
  created : Node.Created start
  blueprint : n.blueprint = start.blueprint
  indexed : n.Indexed n.publishers.length n.subscribers.length

theorem joined_of_connectsTo {text : JsonText} {start n : Node}
    (h : Node.ConnectsTo text start n) : Joined start n := by
  have hcharted := Node.charted_of_connectsTo h
  exact ⟨h.1, hcharted.blueprint, hcharted.indexed⟩

theorem Joined.registers {start n : Node} (h : Joined start n) :
    (∀ k < start.publishers.length, n.Registers (.publisher k)) ∧
      ∀ k < start.subscribers.length, n.Registers (.subscriber k) := by
  have hindexed := h.indexed
  obtain ⟨hpublishers, hsubscribers⟩ := Node.lengths_of_blueprint h.blueprint
  constructor
  · intro k hk
    rw [← hpublishers] at hk
    refine ⟨(Node.publisher_mem_visitOrder hindexed).mpr hk, n.publishers[k].topicId, ?_⟩
    rw [hindexed.topics]
    refine List.mem_append_right _ (List.mem_map_of_mem (List.mem_filter.mpr ⟨?_, ?_⟩))
    · exact List.mem_range.mpr hk
    · simp [hk]
  · intro k hk
    rw [← hsubscribers] at hk
    refine ⟨(Node.subscriber_mem_visitOrder hindexed).mpr hk, n.subscribers[k].topicId, ?_⟩
    rw [hindexed.topics]
    refine List.mem_append_left _ (List.mem_map_of_mem (List.mem_filter.mpr ⟨?_, ?_⟩))
    · exact List.mem_range.mpr hk
    · simp [hk]

theorem publish_of_settled {st : NodeStorage} {k : ℕ} {q : StoredQueue}
    (hq : st.publishers.elements[k]? = some q) (hpristine : Pristine q) :
    ∃ b ∈ q.buffers,
      (st.publish (st.place (.publisher k))).map StoredQueue.queue = some (q.queue ++ [b]) := by
  obtain ⟨address, rfl⟩ := hpristine
  refine ⟨address, ?_, ?_⟩
  · simp [StoredQueue.create, messageQueueCapacity]
  · simp [NodeStorage.publish, NodeStorage.place, hq, StoredQueue.create, messageQueueCapacity,
      List.range'_succ]

/-- Where every pointer still is to its endpoint, the first blocks have lasted. -/
theorem lengths_of_sound {n : Node} (hgrown : Grown g w) (hsound : w.Sound n) :
    w.node.publishers.length ≤ g.next 0 ∧ w.node.subscribers.length ≤ g.next 0 := by
  rw [← hgrown.publishers_length, ← hgrown.subscribers_length]
  constructor
  · exact hgrown.publishers.places_iff.mp fun k p hp =>
      (hsound.handles (.publisher k) p hp).1
  · exact hgrown.subscribers.places_iff.mp fun k p hp =>
      (hsound.handles (.subscriber k) p hp).1

/-- While the first blocks last, every pointer is to its endpoint. -/
theorem sound_of_lengths {n : Node} (hgrown : Grown g w) (h : Joined w.node n)
    (hlengths : w.node.publishers.length ≤ g.next 0 ∧ w.node.subscribers.length ≤ g.next 0) :
    w.Sound n := by
  obtain ⟨hpublishers, hsubscribers⟩ := h.registers
  obtain ⟨hpublishersFit, hsubscribersFit⟩ := hlengths
  rw [← hgrown.publishers_length] at hpublishers hpublishersFit
  rw [← hgrown.subscribers_length] at hsubscribers hsubscribersFit
  have hpublisherPlaces := hgrown.publishers.places_iff.mpr hpublishersFit
  have hsubscriberPlaces := hgrown.subscribers.places_iff.mpr hsubscribersFit
  have hpublisherQueues := (hgrown.publishers.settled hpublishersFit).2
  have hsubscriberQueues := (hgrown.subscribers.settled hsubscribersFit).2
  refine ⟨fun e p hp => ?_, fun e q hq => ?_, fun k p hp => ?_⟩
  · cases e with
    | publisher k =>
      refine ⟨hpublisherPlaces k p hp, hpublishers k ?_⟩
      rw [← hgrown.publishers.length_places]
      exact (List.getElem?_eq_some_iff.mp hp).1
    | subscriber k =>
      refine ⟨hsubscriberPlaces k p hp, hsubscribers k ?_⟩
      rw [← hgrown.subscribers.length_places]
      exact (List.getElem?_eq_some_iff.mp hp).1
  · have hpristine : Pristine q := by
      cases e with
      | publisher k => exact hpublisherQueues q (List.mem_of_getElem? hq)
      | subscriber k => exact hsubscriberQueues q (List.mem_of_getElem? hq)
    obtain ⟨address, rfl⟩ := hpristine
    exact StoredQueue.own_create _ _
  · have hlt : k < w.storage.publishers.elements.length := by
      rw [← hgrown.publishers.length_places]
      exact (List.getElem?_eq_some_iff.mp hp).1
    have hq := List.getElem?_eq_getElem hlt
    obtain ⟨b, hb, hpublished⟩ :=
      publish_of_settled hq (hpublisherQueues _ (List.getElem_mem hlt))
    rw [hpublisherPlaces k p hp]
    exact ⟨_, b, hq, hb, hpublished⟩

/-- The pointers and queues of a node are sound exactly if no vector has outgrown the first block
it took. -/
theorem sound_iff {text : JsonText} (name : String) (cs : List EndpointCall) {n : Node}
    (h : Node.ConnectsTo text (calls g name cs).node n) :
    (calls g name cs).Sound n ↔
      (calls g name cs).node.publishers.length ≤ g.next 0 ∧
        (calls g name cs).node.subscribers.length ≤ g.next 0 :=
  ⟨lengths_of_sound (grown_calls name cs),
    sound_of_lengths (grown_calls name cs) (joined_of_connectsTo h)⟩

/-- One publisher and one subscriber. -/
theorem sound_single :
    ∃ n, Node.ConnectsTo compactJson (calls .doubling "node"
        [.publisher "pose" "pose_t" 1 0, .subscriber "goal" "goal_t" 1 0]).node n ∧
      (calls .doubling "node"
        [.publisher "pose" "pose_t" 1 0, .subscriber "goal" "goal_t" 1 0]).Sound n := by
  obtain ⟨n, hn⟩ := Node.exists_connectsTo (created_calls (g := .doubling) "node"
    [.publisher "pose" "pose_t" 1 0, .subscriber "goal" "goal_t" 1 0])
  exact ⟨n, hn, (sound_iff _ _ hn).mpr ⟨Nat.le_refl 1, Nat.le_refl 1⟩⟩

/-- The second publisher moves the first away from its pointer. -/
theorem sound_fails :
    ¬ ∀ (g : Growth) (name : String) (cs : List EndpointCall) (n : Node),
      Node.ConnectsTo compactJson (calls g name cs).node n → (calls g name cs).Sound n := by
  intro hall
  have hcreated := created_calls (g := .doubling) "node"
    [.publisher "pose" "pose_t" 1 0, .publisher "goal" "goal_t" 1 0]
  obtain ⟨n, hn⟩ := Node.exists_connectsTo hcreated
  have hlengths := (lengths_of_sound (grown_calls _ _) (hall _ _ _ n hn)).1
  exact absurd hlengths (Nat.not_succ_le_self 1)

end NodeSetup
end Crps
