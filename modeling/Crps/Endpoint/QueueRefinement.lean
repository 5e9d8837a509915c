import Crps.Endpoint.MessageQueue
import Crps.Foundation.BoundedFifo

/-!
# The message queue as a bounded FIFO

Every sequence of calls on one queue answers as a bounded FIFO of byte strings
does. The caller keeps two things the source asks of it: a header is not larger
than the message, and it writes through the pointer of `get` inside the front
message only.
-/

namespace Crps

namespace MessageQueue

/-- The public functions, and a caller's write through the pointer `get` returned. -/
inductive Operation where
  | push (data : Memory) (headerData : Option Memory) (headerSize : ℕ)
  | pop
  | get
  | size
  | empty
  | full
  | writeFront (off : ℕ) (bs : Bytes)

inductive Answer where
  | done
  | flag (b : Bool)
  | count (n : ℕ)
  | message (m : Option Bytes)
  deriving DecidableEq, Repr

def Operation.Allowed (messageSize : UInt32) : Operation → Prop
  | .push _ _ headerSize => headerSize ≤ messageSize.toNat
  | .writeFront off bs => off + bs.length ≤ messageSize.toNat
  | _ => True

def perform (q : MessageQueue) : Operation → Answer × MessageQueue
  | .push data headerData headerSize =>
    let pushed := q.push data headerData headerSize
    (.flag pushed.1, pushed.2)
  | .pop => (.flag q.pop.1, q.pop.2)
  | .get => (.message q.get, q)
  | .size => (.count q.size, q)
  | .empty => (.flag q.empty, q)
  | .full => (.flag q.full, q)
  | .writeFront off bs => (.done, q.writeFront off bs)

/-- What the queue of byte strings did when a call had an answer: a successful push appended
exactly the given bytes behind the header room, which holds the header if one was given. -/
inductive Answers (messageSize : UInt32) : Operation × Answer → FifoAction Bytes → Prop
  | pushed {data : Memory} {headerData : Option Memory} {headerSize : ℕ} {message : Bytes} :
      message.length = messageSize.toNat →
      message.drop headerSize = data.slice 0 (messageSize.toNat - headerSize) →
      (∀ header, headerData = some header →
        message.take headerSize = header.slice 0 headerSize) →
      Answers messageSize (.push data headerData headerSize, .flag true) (.push (some message))
  | refused {data : Memory} {headerData : Option Memory} {headerSize : ℕ} :
      Answers messageSize (.push data headerData headerSize, .flag false) (.push none)
  | pop (removed : Option Bytes) :
      Answers messageSize (.pop, .flag removed.isSome) (.pop removed)
  | get (front : Option Bytes) : Answers messageSize (.get, .message front) (.get front)
  | size (n : ℕ) : Answers messageSize (.size, .count n) (.size n)
  | empty (b : Bool) : Answers messageSize (.empty, .flag b) (.empty b)
  | full (b : Bool) : Answers messageSize (.full, .flag b) (.full b)
  | writeFront (off : ℕ) (bs : Bytes) :
      Answers messageSize (.writeFront off bs, .done) (.change fun m => overwrite m off bs)

variable (q : MessageQueue)

theorem full_eq_decide : q.full = decide (q.queueCapacity ≤ q.contents.length) := by
  have h := q.size_add_free
  rw [Bool.eq_iff_iff, q.full_iff, decide_eq_true_iff, length_contents]
  omega

theorem empty_eq_isEmpty : q.empty = q.contents.isEmpty := by
  rw [Bool.eq_iff_iff, q.empty_iff, List.isEmpty_iff]

theorem pop_eq : q.pop.1 = q.contents.head?.isSome ∧ q.pop.2.contents = q.contents.tail := by
  cases h : q.contents with
  | nil =>
    rw [q.pop_nil h]
    exact ⟨rfl, h⟩
  | cons b bs => exact q.pop_cons h

theorem writeFront_eq (off : ℕ) (bs : Bytes) :
    (q.writeFront off bs).contents = q.contents.modifyHead fun m => overwrite m off bs := by
  cases h : q.contents with
  | nil =>
    have hqueue : q.queue = [] := by simpa [contents] using h
    have hsame : q.writeFront off bs = q := by simp only [writeFront, hqueue]
    rw [hsame, h]
    rfl
  | cons b rest => exact q.writeFront_contents h off bs

theorem push_refines (data : Memory) (headerData : Option Memory) {headerSize : ℕ}
    (hsize : headerSize ≤ q.messageSize.toNat) :
    ∃ action, Answers q.messageSize
        (.push data headerData headerSize, .flag (q.push data headerData headerSize).1) action ∧
      FifoStep q.queueCapacity q.contents action
        (q.push data headerData headerSize).2.contents := by
  cases hfull : q.full with
  | true =>
    have hlength := hfull
    rw [full_eq_decide, decide_eq_true_iff] at hlength
    rw [q.push_full hfull]
    exact ⟨.push none, .refused, .refused hlength⟩
  | false =>
    have hlength := hfull
    rw [full_eq_decide, decide_eq_false_iff_not, not_le] at hlength
    obtain ⟨room, hroom, hheader, happended⟩ := q.push_appends data headerData hfull hsize
    rw [push_fst, hfull, happended]
    refine ⟨.push (some _), .pushed ?_ ?_ ?_, .pushed _ hlength⟩
    · rw [List.length_append, hroom, Memory.length_slice]
      omega
    · rw [← hroom, List.drop_left]
    · intro header h
      rw [List.take_left' hroom, hheader header h]

/-- Every call answers as the bounded FIFO and keeps message size and capacity. -/
theorem perform_refines {op : Operation} (hop : op.Allowed q.messageSize) :
    ((q.perform op).2.messageSize = q.messageSize ∧
      (q.perform op).2.queueCapacity = q.queueCapacity) ∧
    ∃ action, Answers q.messageSize (op, (q.perform op).1) action ∧
      FifoStep q.queueCapacity q.contents action (q.perform op).2.contents := by
  cases op with
  | push data headerData headerSize =>
    exact ⟨⟨q.push_messageSize .., q.push_queueCapacity ..⟩, q.push_refines data headerData hop⟩
  | pop =>
    refine ⟨⟨q.pop_messageSize, q.pop_queueCapacity⟩, .pop q.contents.head?, ?_⟩
    simp only [perform, q.pop_eq.1, q.pop_eq.2]
    exact ⟨.pop _, .pop _⟩
  | get =>
    refine ⟨⟨rfl, rfl⟩, .get q.contents.head?, ?_⟩
    simp only [perform, q.get_eq_head?]
    exact ⟨.get _, .get _⟩
  | size =>
    refine ⟨⟨rfl, rfl⟩, .size q.contents.length, ?_⟩
    simp only [perform, ← q.length_contents]
    exact ⟨.size _, .size _⟩
  | empty =>
    refine ⟨⟨rfl, rfl⟩, .empty q.contents.isEmpty, ?_⟩
    simp only [perform, q.empty_eq_isEmpty]
    exact ⟨.empty _, .empty _⟩
  | full =>
    refine ⟨⟨rfl, rfl⟩, .full (decide (q.queueCapacity ≤ q.contents.length)), ?_⟩
    simp only [perform, q.full_eq_decide]
    exact ⟨.full _, .full _⟩
  | writeFront off bs =>
    refine ⟨⟨q.writeFront_messageSize off bs, q.writeFront_queueCapacity off bs⟩,
      .change _, .writeFront off bs, ?_⟩
    simp only [perform, q.writeFront_eq]
    exact .change _ _

theorem performAll_refines (messageSize : UInt32) (capacity : ℕ) {ops : List Operation}
    (hops : ∀ op ∈ ops, op.Allowed messageSize) :
    ((performAll perform (create messageSize capacity) ops).2.messageSize = messageSize ∧
      (performAll perform (create messageSize capacity) ops).2.queueCapacity = capacity) ∧
    ∃ actions,
      List.Forall₂ (Answers messageSize)
        (performAll perform (create messageSize capacity) ops).1 actions ∧
      FifoRun capacity [] actions
        (performAll perform (create messageSize capacity) ops).2.contents := by
  have hstep : ∀ (q : MessageQueue) (op : Operation),
      (q.messageSize = messageSize ∧ q.queueCapacity = capacity) → op.Allowed messageSize →
      ((q.perform op).2.messageSize = messageSize ∧ (q.perform op).2.queueCapacity = capacity) ∧
        ∃ action, Answers messageSize (op, (q.perform op).1) action ∧
          FifoStep capacity q.contents action (q.perform op).2.contents := by
    rintro q op ⟨rfl, rfl⟩ hop
    exact q.perform_refines hop
  exact fifoRun_of_perform perform hstep ⟨rfl, rfl⟩ hops

/-- On every sequence of calls the queue is a bounded FIFO, and each of its buffers is in
exactly one of the free list and the queue. -/
theorem refines_boundedFifo (messageSize : UInt32) (capacity : ℕ) (ops : List Operation)
    (hops : ∀ op ∈ ops, op.Allowed messageSize) :
    let run := performAll perform (create messageSize capacity) ops
    (∃ actions, List.Forall₂ (Answers messageSize) run.1 actions ∧
      FifoRun capacity [] actions run.2.contents) ∧
    run.2.buffers.length = capacity ∧
    (run.2.freeBuffers ++ run.2.queue).Nodup ∧
    (∀ i, i ∈ run.2.freeBuffers ++ run.2.queue ↔ i < capacity) ∧
    run.2.size + run.2.freeBuffers.length = capacity := by
  intro run
  obtain ⟨⟨_, hcapacity⟩, hrun⟩ := performAll_refines messageSize capacity hops
  refine ⟨hrun, run.2.capacity.trans hcapacity, run.2.nodup_names, ?_, ?_⟩
  · intro i
    rw [run.2.partition.mem_iff, List.mem_range, hcapacity]
  · rw [run.2.size_add_free, hcapacity]

/-- Two pushes on a queue with one place, the first with a header of one byte. -/
theorem refines_boundedFifo_single :
    ∃ actions, List.Forall₂ (Answers 2)
        [(.push (fun _ => 7) (some fun _ => 1) 1, .flag true),
          (.push (fun _ => 8) none 0, .flag false), (.get, .message (some [1, 7])),
          (.pop, .flag true)] actions ∧
      FifoRun 1 [] actions [] := by
  have hops : ∀ op ∈ [.push (fun _ => 7) (some fun _ => 1) 1, .push (fun _ => 8) none 0, .get,
      .pop], Operation.Allowed 2 op := by
    simp [Operation.Allowed]
  exact (refines_boundedFifo 2 1 _ hops).1

/-- Without writes through the pointer of `get`, messages are popped in the order in which
they were pushed, and none is lost. -/
theorem popped_append_contents (messageSize : UInt32) (capacity : ℕ) {ops : List Operation}
    (hops : ∀ op ∈ ops, op.Allowed messageSize) (hkept : ∀ off bs, .writeFront off bs ∉ ops) :
    let run := performAll perform (create messageSize capacity) ops
    ∃ actions, List.Forall₂ (Answers messageSize) run.1 actions ∧
      appendedBy actions = removedBy actions ++ run.2.contents := by
  intro run
  obtain ⟨_, actions, hanswers, hrun⟩ := performAll_refines messageSize capacity hops
  refine ⟨actions, hanswers, hrun.conserves ?_⟩
  intro f hf
  obtain ⟨performed, hperformed, hanswer⟩ := exists_performed hanswers hf
  have hop : performed.1 ∈ ops := by
    rw [← performAll_operations perform (create messageSize capacity) ops]
    exact List.mem_map_of_mem hperformed
  cases hanswer with
  | writeFront off bs => exact hkept off bs hop

end MessageQueue

end Crps
