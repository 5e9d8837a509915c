import Crps.Node.Storage

/-!
# A node on its storage

What a node in use does to its storage: the application publishes through the
pointers it was given, the loops of `spin_once` go through those of the maps,
and both reach the buffers through the addresses in a queue. There is no state
after a step through an address that has been given up. A node of lists is what
its storage stands for as long as no vector has outgrown its first block.
-/

namespace Crps

namespace StoredQueue

/-- `push`: the first free buffer is written to. -/
def push (q : StoredQueue) : Option StoredQueue :=
  match q.freeBuffers with
  | [] => some q
  | b :: rest =>
    if b ∈ q.buffers then some { q with freeBuffers := rest, queue := q.queue ++ [b] } else none

/-- The front message is read, or written to. -/
def touch (q : StoredQueue) : Option StoredQueue :=
  match q.queue with
  | [] => some q
  | b :: _ => if b ∈ q.buffers then some q else none

/-- `pop`, after the front message has been read. -/
def pop (q : StoredQueue) : Option StoredQueue :=
  match q.queue with
  | [] => some q
  | b :: rest =>
    if b ∈ q.buffers then some { q with freeBuffers := b :: q.freeBuffers, queue := rest } else none

/-- A queue that has nothing to hand out but the buffers of an element that is gone. -/
def Stray (q : StoredQueue) : Prop :=
  q.queue = [] ∧ ∃ b rest, q.freeBuffers = b :: rest ∧ b ∉ q.buffers

end StoredQueue

namespace NodeStorage

def modifyAt (st : NodeStorage) (p : Place) (f : StoredQueue → Option StoredQueue) :
    Endpoint → Option NodeStorage
  | .publisher _ => (st.publishers.modifyAt p f).map fun publishers => { st with publishers }
  | .subscriber _ => (st.subscribers.modifyAt p f).map fun subscribers => { st with subscribers }

/-- A step on an endpoint through a pointer to it, if there is such an endpoint. -/
def through (st : NodeStorage) (e : Endpoint) (p : Option Place)
    (f : StoredQueue → Option StoredQueue) : Option NodeStorage :=
  match p with
  | none => some st
  | some p => st.modifyAt p f e

/-- The pointer in the maps. -/
def listed (st : NodeStorage) (e : Endpoint) : Option Place :=
  (st.queueOf e).map fun _ => st.place e

end NodeStorage

namespace NodeSetup

/-- One event. A callback's own publishes come after it, as they touch no subscriber. -/
def step (w : NodeSetup) (st : NodeStorage) : SpinEvent → Option NodeStorage
  | .publish k _ _ => st.through (.publisher k) (w.handle (.publisher k)) StoredQueue.push
  | .queueMessage k _ _ => st.through (.subscriber k) (st.listed (.subscriber k)) StoredQueue.push
  | .callback k _ => st.through (.subscriber k) (st.listed (.subscriber k)) StoredQueue.pop
  | .sendto k _ sent =>
    st.through (.publisher k) (st.listed (.publisher k))
      (if sent then StoredQueue.pop else StoredQueue.touch)

/-- The storage after these events, starting from where `connect` has left it. -/
def run (w : NodeSetup) (events : List SpinEvent) : Option NodeStorage :=
  events.foldlM w.step w.storage

/-- As the application has set it up. -/
def Built (g : Growth) (w : NodeSetup) : Prop := ∃ name cs, w = calls g name cs

/-- Neither vector has outgrown the first block it took. -/
def Roomy (g : Growth) (w : NodeSetup) : Prop :=
  w.node.publishers.length ≤ g.next 0 ∧ w.node.subscribers.length ≤ g.next 0

instance (g : Growth) (w : NodeSetup) : Decidable (w.Roomy g) := inferInstanceAs (Decidable (_ ∧ _))

end NodeSetup

/-- The addresses in a queue are those of the buffers that the message queue names. -/
structure StoredQueue.StandsFor (q : StoredQueue) (m : MessageQueue) : Prop where
  buffers : q.buffers.length = m.queueCapacity
  freeBuffers : q.freeBuffers = m.freeBuffers.map (q.buffers.getD · 0)
  queue : q.queue = m.queue.map (q.buffers.getD · 0)

structure NodeStorage.StandsFor (st : NodeStorage) (n : Node) : Prop where
  publishers : List.Forall₂ (fun q p => q.StandsFor p.messageQueue) st.publishers.elements
    n.publishers
  subscribers : List.Forall₂ (fun q s => q.StandsFor s.messageQueue) st.subscribers.elements
    n.subscribers

namespace NodeSetup

/-- The pointers hold, and the storage has come through the events as what the node is now. -/
structure Backs (w : NodeSetup) (events : List SpinEvent) (n : Node) : Prop where
  sound : w.Sound n
  stored : ∃ st, w.run events = some st ∧ st.StandsFor n

/-- Whatever the node does once it is connected, its storage does, too. -/
def Carries (text : JsonText) (w : NodeSetup) : Prop :=
  ∀ n₀ events n, Node.ConnectsTo text w.node n₀ → n₀.Performs events n → w.Backs events n

end NodeSetup

/-! ## Steps -/

namespace StoredQueue.StandsFor

variable {q : StoredQueue} {m m' : MessageQueue}

theorem mem_buffers (h : q.StandsFor m) {i : ℕ} (hi : i ∈ m.freeBuffers ++ m.queue) :
    q.buffers.getD i 0 ∈ q.buffers := by
  have hlt : i < q.buffers.length := by
    rw [h.buffers, ← m.capacity]
    exact m.name_lt hi
  rw [List.getD_eq_getElem?_getD, List.getElem?_eq_getElem hlt]
  exact List.getElem_mem hlt

theorem create (address : ℕ) (messageSize : UInt32) (queueCapacity : ℕ) :
    (StoredQueue.create address queueCapacity).StandsFor
      (MessageQueue.create messageSize queueCapacity) where
  buffers := List.length_range'
  freeBuffers := by
    apply List.ext_getElem
    · simp [StoredQueue.create, MessageQueue.create]
    · intro k hk _
      have hk' : k < queueCapacity := by simpa [StoredQueue.create] using hk
      simp [StoredQueue.create, MessageQueue.create, List.getD_eq_getElem?_getD, hk']
  queue := rfl

theorem push (h : q.StandsFor m) (data : Memory) (headerData : Option Memory) (headerSize : ℕ) :
    ∃ q', q.push = some q' ∧ q'.StandsFor (m.push data headerData headerSize).2 := by
  cases hfree : m.freeBuffers with
  | nil =>
    have hfree' : q.freeBuffers = [] := by rw [h.freeBuffers, hfree, List.map_nil]
    have hfull : m.full = true := by rw [MessageQueue.full, hfree, List.isEmpty_nil]
    refine ⟨q, by rw [StoredQueue.push, hfree'], ?_⟩
    rwa [m.push_full hfull]
  | cons i rest =>
    have hmem := h.mem_buffers (show i ∈ m.freeBuffers ++ m.queue by rw [hfree]; simp)
    have hfree' : q.freeBuffers =
        q.buffers.getD i 0 :: rest.map (q.buffers.getD · 0) := by
      rw [h.freeBuffers, hfree, List.map_cons]
    refine ⟨_, by rw [StoredQueue.push, hfree']; exact if_pos hmem, ?_, ?_, ?_⟩
    · exact h.buffers.trans (m.push_queueCapacity _ _ _).symm
    · rw [m.push_freeBuffers, hfree, List.tail_cons]
    · rw [m.push_queue, hfree, List.map_append, h.queue]
      rfl

theorem writeFront (h : q.StandsFor m) (off : ℕ) (bs : Bytes) :
    q.StandsFor (m.writeFront off bs) :=
  have hnames := m.writeFront_names off bs
  ⟨h.buffers.trans (m.writeFront_queueCapacity off bs).symm, hnames.1 ▸ h.freeBuffers,
    hnames.2 ▸ h.queue⟩

theorem touch (h : q.StandsFor m) : q.touch = some q := by
  cases hqueue : m.queue with
  | nil => rw [StoredQueue.touch, h.queue, hqueue, List.map_nil]
  | cons i rest =>
    have hmem := h.mem_buffers (show i ∈ m.freeBuffers ++ m.queue by rw [hqueue]; simp)
    rw [StoredQueue.touch, h.queue, hqueue, List.map_cons]
    exact if_pos hmem

theorem pop (h : q.StandsFor m) : ∃ q', q.pop = some q' ∧ q'.StandsFor m.pop.2 := by
  have hnames := m.pop_names
  have hcapacity := m.pop_queueCapacity
  cases hqueue : m.queue with
  | nil =>
    rw [hqueue] at hnames
    refine ⟨q, by rw [StoredQueue.pop, h.queue, hqueue, List.map_nil], ?_, ?_, ?_⟩
    · rw [hcapacity, h.buffers]
    · rw [hnames.1, h.freeBuffers]
      rfl
    · rw [hnames.2, h.queue, hqueue]
      rfl
  | cons i rest =>
    rw [hqueue] at hnames
    have hmem := h.mem_buffers (show i ∈ m.freeBuffers ++ m.queue by rw [hqueue]; simp)
    refine ⟨_, by rw [StoredQueue.pop, h.queue, hqueue, List.map_cons]; exact if_pos hmem,
      ?_, ?_, ?_⟩
    · rw [hcapacity]
      exact h.buffers
    · rw [hnames.1, h.freeBuffers]
      rfl
    · rw [hnames.2]
      rfl

end StoredQueue.StandsFor

namespace NodeStorage

variable {st : NodeStorage} {n : Node} {f : StoredQueue → Option StoredQueue} {k : ℕ}

theorem listed_publisher (h : st.StandsFor n) {p : Publisher} (hp : n.publishers[k]? = some p) :
    st.listed (.publisher k) = some (st.place (.publisher k)) := by
  have hlt : k < st.publishers.elements.length := by
    rw [h.publishers.length_eq]
    exact (List.getElem?_eq_some_iff.mp hp).1
  simp [listed, queueOf, hlt]

theorem listed_subscriber (h : st.StandsFor n) {s : Subscriber}
    (hs : n.subscribers[k]? = some s) :
    st.listed (.subscriber k) = some (st.place (.subscriber k)) := by
  have hlt : k < st.subscribers.elements.length := by
    rw [h.subscribers.length_eq]
    exact (List.getElem?_eq_some_iff.mp hs).1
  simp [listed, queueOf, hlt]

theorem through_publisher (h : st.StandsFor n) {p : Publisher} (hp : n.publishers[k]? = some p)
    (p' : Publisher)
    (hf : ∀ q, q.StandsFor p.messageQueue → ∃ q', f q = some q' ∧ q'.StandsFor p'.messageQueue) :
    ∃ st', st.through (.publisher k) (some (st.place (.publisher k))) f = some st' ∧
      st'.place = st.place ∧ ∀ n' : Node, n'.publishers = n.publishers.set k p' →
        n'.subscribers = n.subscribers → st'.StandsFor n' := by
  obtain ⟨publishers, hmodified, hblock, hstands⟩ :=
    GrowingVector.modifyAt_of_forall₂ h.publishers hp hf
  refine ⟨{ st with publishers }, ?_, ?_, fun n' hn' hsame => ⟨?_, ?_⟩⟩
  · simp only [through, modifyAt, place, hmodified, Option.map_some]
  · funext e
    cases e <;> simp only [place, hblock]
  · rw [hn']
    exact hstands
  · rw [hsame]
    exact h.subscribers

theorem through_subscriber (h : st.StandsFor n) {s : Subscriber}
    (hs : n.subscribers[k]? = some s) (s' : Subscriber)
    (hf : ∀ q, q.StandsFor s.messageQueue → ∃ q', f q = some q' ∧ q'.StandsFor s'.messageQueue) :
    ∃ st', st.through (.subscriber k) (some (st.place (.subscriber k))) f = some st' ∧
      st'.place = st.place ∧ ∀ n' : Node, n'.subscribers = n.subscribers.set k s' →
        n'.publishers = n.publishers → st'.StandsFor n' := by
  obtain ⟨subscribers, hmodified, hblock, hstands⟩ :=
    GrowingVector.modifyAt_of_forall₂ h.subscribers hs hf
  refine ⟨{ st with subscribers }, ?_, ?_, fun n' hn' hsame => ⟨?_, ?_⟩⟩
  · simp only [through, modifyAt, place, hmodified, Option.map_some]
  · funext e
    cases e <;> simp only [place, hblock]
  · rw [hsame]
    exact h.publishers
  · rw [hn']
    exact hstands

end NodeStorage

namespace NodeSetup

variable {g : Growth} {w : NodeSetup} {st : NodeStorage} {n n' : Node}

/-- The storage stands for the node, and the application's pointers are those of the maps. -/
structure Tracks (w : NodeSetup) (st : NodeStorage) (n : Node) : Prop where
  stands : st.StandsFor n
  handles : ∀ k, w.handle (.publisher k) =
    (n.publishers[k]?).map fun _ => st.place (.publisher k)

theorem Tracks.next {st' : NodeStorage} (h : w.Tracks st n) (hplace : st'.place = st.place)
    (hstands : st'.StandsFor n') (hlength : n'.publishers.length = n.publishers.length) :
    w.Tracks st' n' := by
  refine ⟨hstands, fun k => (h.handles k).trans ?_⟩
  rw [hplace]
  by_cases hk : k < n.publishers.length
  · rw [List.getElem?_eq_getElem hk, List.getElem?_eq_getElem (hlength ▸ hk)]
    rfl
  · rw [List.getElem?_eq_none (by omega), List.getElem?_eq_none (by omega)]

theorem Tracks.step {e : SpinEvent} (h : w.Tracks st n) (hdoes : n.Does e n') :
    ∃ st', w.step st e = some st' ∧ w.Tracks st' n' := by
  cases hdoes with
  | publish k data =>
    have hhandle := h.handles k
    cases hp : n.publishers[k]? with
    | none =>
      rw [hp] at hhandle
      simp only [Node.publish, hp, NodeSetup.step, hhandle, Option.map_none]
      exact ⟨st, rfl, h⟩
    | some p =>
      rw [hp] at hhandle
      rw [Node.publish_of_some hp]
      simp only [NodeSetup.step, hhandle, Option.map_some]
      obtain ⟨st', hst', hplace, hstands⟩ := NodeStorage.through_publisher h.stands hp
        ((p.publish data).2) (fun q hq => hq.push data none p.packetHeaderSize)
      exact ⟨st', hst', h.next hplace (hstands _ rfl rfl) List.length_set⟩
  | queueMessage k data =>
    cases hs : n.subscribers[k]? with
    | none =>
      have hlisted : st.listed (.subscriber k) = none := by
        have hlt : st.subscribers.elements.length ≤ k := by
          rw [h.stands.subscribers.length_eq]
          exact List.getElem?_eq_none_iff.mp hs
        simp [NodeStorage.listed, NodeStorage.queueOf, hlt]
      simp only [Node.queueMessage, hs, NodeSetup.step, hlisted]
      exact ⟨st, rfl, h⟩
    | some s =>
      rw [Node.queueMessage_of_some hs]
      simp only [NodeSetup.step, NodeStorage.listed_subscriber h.stands hs]
      obtain ⟨st', hst', hplace, hstands⟩ := NodeStorage.through_subscriber h.stands hs
        ((s.queueMessage data).2) (fun q hq => hq.push data none 0)
      exact ⟨st', hst', h.next hplace (hstands _ rfl rfl) rfl⟩
  | @callback k sub message left hs hmessage =>
    have hnonempty : sub.messageQueue.empty = false := by
      cases hqueue : sub.messageQueue.queue with
      | nil => rw [MessageQueue.get, hqueue] at hmessage; cases hmessage
      | cons => rw [MessageQueue.empty, hqueue, List.isEmpty_cons]
    have hqueue : (sub.runCallback left).2.messageQueue =
        (sub.messageQueue.writeFront 0 left).pop.2 := by
      simp only [Subscriber.runCallback, hnonempty, Bool.false_eq_true, if_false]
    simp only [NodeSetup.step, NodeStorage.listed_subscriber h.stands hs]
    obtain ⟨st', hst', hplace, hstands⟩ := NodeStorage.through_subscriber h.stands hs
      ((sub.runCallback left).2)
      (fun q hq => hqueue ▸ (hq.writeFront 0 left).pop)
    exact ⟨st', hst', h.next hplace (hstands _ rfl rfl) rfl⟩
  | @sendFailed k p message packet hp _ _ =>
    simp only [NodeSetup.step, NodeStorage.listed_publisher h.stands hp]
    obtain ⟨st', hst', hplace, hstands⟩ := NodeStorage.through_publisher h.stands hp
      (p.writeMessage 0 packet)
      (fun q hq => ⟨q, hq.touch, hq.writeFront 0 packet⟩)
    exact ⟨st', hst', h.next hplace (hstands _ rfl rfl) List.length_set⟩
  | @sent k p message packet hp _ _ =>
    simp only [NodeSetup.step, NodeStorage.listed_publisher h.stands hp]
    obtain ⟨st', hst', hplace, hstands⟩ := NodeStorage.through_publisher h.stands hp
      ((p.writeMessage 0 packet).popMessage.2)
      (fun q hq => (hq.writeFront 0 packet).pop)
    exact ⟨st', hst', h.next hplace (hstands _ rfl rfl) List.length_set⟩

theorem Tracks.run {events : List SpinEvent} (h : w.Tracks st n) (hp : n.Performs events n') :
    ∃ st', events.foldlM w.step st = some st' ∧ w.Tracks st' n' := by
  induction hp generalizing st with
  | nil n buffer => exact ⟨st, rfl, ⟨h.stands.publishers, h.stands.subscribers⟩, h.handles⟩
  | @cons n n' n'' e es buffer hdoes _ ih =>
    have hbuffer : w.Tracks st { n with buffer } :=
      ⟨⟨h.stands.publishers, h.stands.subscribers⟩, h.handles⟩
    obtain ⟨st', hst', h'⟩ := hbuffer.step hdoes
    obtain ⟨st'', hst'', h''⟩ := ih h'
    exact ⟨st'', by rw [List.foldlM_cons, hst']; exact hst'', h''⟩

/-! ## From the application's calls on -/

theorem Built.grown (h : w.Built g) : Grown g w := by
  obtain ⟨name, cs, rfl⟩ := h
  exact grown_calls name cs

theorem Built.created (h : w.Built g) : Node.Created w.node := by
  obtain ⟨name, cs, rfl⟩ := h
  exact created_calls name cs

end NodeSetup

theorem NodeSetup.Joined.queues {start n : Node} (h : Joined start n) :
    (∀ p ∈ n.publishers, ∃ size, p.messageQueue = .create size messageQueueCapacity) ∧
      ∀ s ∈ n.subscribers, ∃ size, s.messageQueue = .create size messageQueueCapacity := by
  obtain ⟨hstart, hblueprint, _⟩ := h
  have hcreated : (∀ p ∈ start.publishers,
        ∃ size, p.messageQueue = .create size messageQueueCapacity) ∧
      ∀ s ∈ start.subscribers, ∃ size, s.messageQueue = .create size messageQueueCapacity := by
    clear hblueprint
    induction hstart with
    | create => exact ⟨by simp [Node.create], by simp [Node.create]⟩
    | publisher topicName typeName messageSize topicPriority _ ih =>
      refine ⟨fun p hp => ?_, ih.2⟩
      rcases List.mem_append.mp hp with hp | hp
      · exact ih.1 p hp
      · rw [List.mem_singleton.mp hp]
        exact ⟨_, rfl⟩
    | subscriber topicName typeName messageSize topicPriority _ ih =>
      refine ⟨ih.1, fun s hs => ?_⟩
      rcases List.mem_append.mp hs with hs | hs
      · exact ih.2 s hs
      · rw [List.mem_singleton.mp hs]
        exact ⟨_, rfl⟩
  constructor
  · intro p hp
    have hmem : p.blueprint ∈ n.blueprint.2.1 := List.mem_map_of_mem hp
    rw [hblueprint] at hmem
    obtain ⟨p₀, hp₀, hsame⟩ := List.mem_map.mp hmem
    obtain ⟨size, hsize⟩ := hcreated.1 p₀ hp₀
    exact ⟨size, (congrArg Publisher.messageQueue hsame).symm.trans hsize⟩
  · intro s hs
    have hmem : s.blueprint ∈ n.blueprint.2.2 := List.mem_map_of_mem hs
    rw [hblueprint] at hmem
    obtain ⟨s₀, hs₀, hsame⟩ := List.mem_map.mp hmem
    obtain ⟨size, hsize⟩ := hcreated.2 s₀ hs₀
    exact ⟨size, (congrArg Subscriber.messageQueue hsame).symm.trans hsize⟩

namespace NodeSetup

variable {g : Growth} {w : NodeSetup} {text : JsonText} {n₀ n : Node}

theorem tracks_of_joined (hw : w.Built g) (hroomy : w.Roomy g) (h : Joined w.node n₀) :
    w.Tracks w.storage n₀ := by
  have hgrown := hw.grown
  obtain ⟨hpublisherQueues, hsubscriberQueues⟩ := h.queues
  obtain ⟨hpublishers, hsubscribers⟩ := Node.lengths_of_blueprint h.blueprint
  obtain ⟨hplaces, hpristine⟩ := hgrown.publishers.settled (hgrown.publishers_length ▸ hroomy.1)
  have hpristine' := (hgrown.subscribers.settled (hgrown.subscribers_length ▸ hroomy.2)).2
  refine ⟨⟨?_, ?_⟩, fun k => ?_⟩
  · rw [List.forall₂_iff_get]
    refine ⟨hgrown.publishers_length.trans hpublishers.symm, fun k hk hk' => ?_⟩
    obtain ⟨address, hq⟩ := hpristine _ (List.get_mem _ ⟨k, hk⟩)
    obtain ⟨size, hp⟩ := hpublisherQueues _ (List.get_mem _ ⟨k, hk'⟩)
    rw [hq, hp]
    exact .create address size messageQueueCapacity
  · rw [List.forall₂_iff_get]
    refine ⟨hgrown.subscribers_length.trans hsubscribers.symm, fun k hk hk' => ?_⟩
    obtain ⟨address, hq⟩ := hpristine' _ (List.get_mem _ ⟨k, hk⟩)
    obtain ⟨size, hs⟩ := hsubscriberQueues _ (List.get_mem _ ⟨k, hk'⟩)
    rw [hq, hs]
    exact .create address size messageQueueCapacity
  · have hlength : w.storage.publishers.elements.length = n₀.publishers.length :=
      hgrown.publishers_length.trans hpublishers.symm
    simp only [handle, hplaces, NodeStorage.place, List.getElem?_map]
    by_cases hk : k < n₀.publishers.length
    · rw [List.getElem?_range (hlength ▸ hk), List.getElem?_eq_getElem hk]
      rfl
    · rw [List.getElem?_eq_none (by simpa [hlength] using hk), List.getElem?_eq_none (by omega)]
      rfl

theorem Sound.performs {events : List SpinEvent} (h : w.Sound n₀) (hp : n₀.Performs events n) :
    w.Sound n := by
  have htopics : n.topics = n₀.topics := congrArg NodeConfig.topics hp.config
  have hprio : n.topicsByPrio = n₀.topicsByPrio := congrArg NodeConfig.topicsByPrio hp.config
  refine ⟨fun e p hhandle => ?_, h.own, h.publishes⟩
  obtain ⟨hplace, hlisted, topicId, htopic⟩ := h.handles e p hhandle
  refine ⟨hplace, ?_, topicId, htopics ▸ htopic⟩
  rwa [Node.visitOrder, hprio]

theorem backs_iff (hw : w.Built g) (h : Joined w.node n₀) {events : List SpinEvent}
    (hp : n₀.Performs events n) : w.Backs events n ↔ w.Roomy g := by
  constructor
  · exact fun hbacks => lengths_of_sound hw.grown hbacks.sound
  · intro hroomy
    obtain ⟨st, hrun, htracks⟩ := (tracks_of_joined hw hroomy h).run hp
    exact ⟨(sound_of_lengths hw.grown h hroomy).performs hp, st, hrun, htracks.stands⟩

section Stray

variable {k : ℕ} {q : StoredQueue}

theorem step_stray {st' : NodeStorage} (hq : st.queueOf (.subscriber k) = some q)
    (hstray : q.Stray) {e : SpinEvent} (hstep : w.step st e = some st') :
    (∀ payload taken, e ≠ .queueMessage k payload taken) ∧
      st'.queueOf (.subscriber k) = some q := by
  obtain ⟨hempty, b, rest, hfree, hforeign⟩ := hstray
  have hpublisher : ∀ {j p f}, st.through (.publisher j) p f = some st' →
      st'.queueOf (.subscriber k) = some q := by
    intro j p f h
    cases p with
    | none =>
      cases h
      exact hq
    | some p =>
      obtain ⟨publishers, _, rfl⟩ := Option.map_eq_some_iff.mp h
      exact hq
  have hsubscriber : ∀ {j f}, st.through (.subscriber j) (st.listed (.subscriber j)) f = some st' →
      (k = j → f q = some q) → st'.queueOf (.subscriber k) = some q := by
    intro j f h hf
    cases hlisted : st.queueOf (.subscriber j) with
    | none =>
      simp only [NodeStorage.listed, hlisted, Option.map_none, NodeStorage.through] at h
      cases h
      exact hq
    | some q' =>
      simp only [NodeStorage.listed, hlisted, Option.map_some, NodeStorage.through] at h
      obtain ⟨subscribers, hmodified, rfl⟩ := Option.map_eq_some_iff.mp h
      obtain ⟨x, x', hx, hx', helements⟩ := GrowingVector.modifyAt_some hmodified
      have hx : st.subscribers.elements[j]? = some x := hx
      have hq : st.subscribers.elements[k]? = some q := hq
      have helements : subscribers.elements = st.subscribers.elements.set j x' := helements
      simp only [NodeStorage.queueOf, helements]
      by_cases hkj : k = j
      · subst hkj
        obtain rfl : q = x := Option.some.inj (hq.symm.trans hx)
        rw [hf rfl] at hx'
        injection hx' with hx'
        rw [← hx']
        have hlt := (List.getElem?_eq_some_iff.mp hq).1
        simp [hlt]
      · rw [List.getElem?_set_ne (Ne.symm hkj)]
        exact hq
  cases e with
  | publish j payload taken => exact ⟨fun _ _ h => (by cases h), hpublisher hstep⟩
  | sendto j packet sent => exact ⟨fun _ _ h => (by cases h), hpublisher hstep⟩
  | callback j message =>
    refine ⟨fun _ _ h => (by cases h), hsubscriber hstep fun _ => ?_⟩
    simp only [StoredQueue.pop, hempty]
  | queueMessage j payload taken =>
    have hne : k ≠ j := by
      rintro rfl
      have hq : st.subscribers.elements[k]? = some q := hq
      simp only [step, NodeStorage.listed, NodeStorage.queueOf, hq, Option.map_some,
        NodeStorage.through] at hstep
      obtain ⟨_, hmodified, _⟩ := Option.map_eq_some_iff.mp hstep
      obtain ⟨x, x', hx, hx', _⟩ := GrowingVector.modifyAt_some hmodified
      obtain rfl : q = x := Option.some.inj (hq.symm.trans hx)
      simp only [StoredQueue.push, hfree, if_neg hforeign] at hx'
      cases hx'
    refine ⟨fun _ _ h => ?_, hsubscriber hstep fun h => absurd h hne⟩
    injection h with h
    exact hne h.symm

theorem run_stray (hq : w.storage.queueOf (.subscriber k) = some q)
    (hstray : q.Stray) {events : List SpinEvent} (hrun : w.run events = some st) :
    ∀ payload taken, .queueMessage k payload taken ∉ events := by
  unfold run at hrun
  generalize w.storage = start at hq hrun
  induction events generalizing start with
  | nil => exact fun _ _ h => (by cases h)
  | cons e events ih =>
    rw [List.foldlM_cons] at hrun
    obtain ⟨st₁, hstep, hrest⟩ := Option.bind_eq_some_iff.mp hrun
    obtain ⟨hne, hq₁⟩ := step_stray hq hstray hstep
    intro payload taken hmem
    rcases List.mem_cons.mp hmem with hhead | hmem
    · exact hne payload taken hhead.symm
    · exact ih st₁ hq₁ hrest payload taken hmem

end Stray

end NodeSetup

end Crps
