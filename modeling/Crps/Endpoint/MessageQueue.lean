import Crps.Foundation.Bytes

/-!
# The bounded queue with recycled buffers

Buffers are named by their position in `buffers`; the free list and the queue
hold names, as the source holds pointers into its buffer list. The structure
carries the facts that keep payloads apart: every buffer has the message size,
and each name is in exactly one of the two lists.
-/

namespace Crps

structure MessageQueue where
  messageSize : UInt32
  queueCapacity : ℕ
  buffers : List Bytes
  freeBuffers : List ℕ
  queue : List ℕ
  buffers_length : ∀ b ∈ buffers, b.length = messageSize.toNat
  capacity : buffers.length = queueCapacity
  partition : (freeBuffers ++ queue).Perm (List.range queueCapacity)

namespace MessageQueue

def create (messageSize : UInt32) (queueCapacity : ℕ) : MessageQueue where
  messageSize := messageSize
  queueCapacity := queueCapacity
  buffers := List.replicate queueCapacity (List.replicate messageSize.toNat 0)
  freeBuffers := List.range queueCapacity
  queue := []
  buffers_length := by
    intro b hb
    rw [List.eq_of_mem_replicate hb, List.length_replicate]
  capacity := List.length_replicate
  partition := by rw [List.append_nil]

variable (q : MessageQueue)

def empty : Bool := q.queue.isEmpty

def full : Bool := q.freeBuffers.isEmpty

def size : ℕ := q.queue.length

/-- The bytes a buffer pointer refers to. -/
def buffer (i : ℕ) : Bytes := q.buffers.getD i []

/-- `get`: the front message, null on an empty queue. -/
def get : Option Bytes := q.queue.head?.map q.buffer

/-- The queued messages, oldest first. -/
def contents : List Bytes := q.queue.map q.buffer

theorem nodup_names : (q.freeBuffers ++ q.queue).Nodup :=
  q.partition.nodup_iff.mpr List.nodup_range

theorem name_lt {i : ℕ} (hi : i ∈ q.freeBuffers ++ q.queue) : i < q.buffers.length := by
  rw [q.capacity]
  exact List.mem_range.mp (q.partition.mem_iff.mp hi)

theorem length_buffer {i : ℕ} (hi : i ∈ q.freeBuffers ++ q.queue) :
    (q.buffer i).length = q.messageSize.toNat := by
  have hlt := q.name_lt hi
  apply q.buffers_length
  simp [buffer, List.getD_eq_getElem?_getD, hlt]

theorem size_add_free : q.size + q.freeBuffers.length = q.queueCapacity := by
  have h := q.partition.length_eq
  simp only [List.length_append, List.length_range] at h
  simp only [size]
  omega

/-- Writing through the pointer to buffer `i`, staying inside it. -/
def writeBuffer (i off : ℕ) (bs : Bytes) : MessageQueue where
  __ := q
  buffers := q.buffers.set i (overwrite (q.buffer i) off bs)
  buffers_length := by
    intro b hb
    by_cases hi : i < q.buffers.length
    · rcases List.mem_or_eq_of_mem_set hb with hb | rfl
      · exact q.buffers_length b hb
      · rw [length_overwrite]
        apply q.buffers_length
        simp [buffer, List.getD_eq_getElem?_getD, hi]
    · rw [List.set_eq_of_length_le (by omega)] at hb
      exact q.buffers_length b hb
  capacity := by rw [List.length_set, q.capacity]

@[simp] theorem writeBuffer_messageSize (i off : ℕ) (bs : Bytes) :
    (q.writeBuffer i off bs).messageSize = q.messageSize := rfl

@[simp] theorem writeBuffer_freeBuffers (i off : ℕ) (bs : Bytes) :
    (q.writeBuffer i off bs).freeBuffers = q.freeBuffers := rfl

@[simp] theorem writeBuffer_queue (i off : ℕ) (bs : Bytes) :
    (q.writeBuffer i off bs).queue = q.queue := rfl

theorem buffer_writeBuffer_self {i : ℕ} (hi : i < q.buffers.length) (off : ℕ) (bs : Bytes) :
    (q.writeBuffer i off bs).buffer i = overwrite (q.buffer i) off bs := by
  simp [writeBuffer, buffer, List.getD_eq_getElem?_getD, hi]

theorem buffer_writeBuffer_ne {i j : ℕ} (hij : i ≠ j) (off : ℕ) (bs : Bytes) :
    (q.writeBuffer i off bs).buffer j = q.buffer j := by
  simp [writeBuffer, buffer, List.getD_eq_getElem?_getD, hij]

/-- Bytes behind the header that `push` copies: a 32-bit size minus a `size_t`. -/
def copyLength (headerSize : ℕ) : ℕ :=
  (q.messageSize.toUInt64 - UInt64.ofNat headerSize).toNat

theorem copyLength_eq {headerSize : ℕ} (h : headerSize ≤ q.messageSize.toNat) :
    q.copyLength headerSize = q.messageSize.toNat - headerSize := by
  have hm := q.messageSize.toNat_lt
  simp only [copyLength, UInt64.toNat_sub, UInt32.toNat_toUInt64, UInt64.toNat_ofNat']
  omega

def pop : Bool × MessageQueue :=
  match hq : q.queue with
  | [] => (false, q)
  | i :: rest =>
    (true, { q with
      freeBuffers := i :: q.freeBuffers
      queue := rest
      partition := by
        have hp := q.partition
        rw [hq] at hp
        exact List.perm_middle.symm.trans hp })

/-- The fresh element of the queue before its bytes are copied in. -/
def claim (i : ℕ) (rest : List ℕ) (hfree : q.freeBuffers = i :: rest) : MessageQueue :=
  { q with
    freeBuffers := rest
    queue := q.queue ++ [i]
    partition := by
      have hp := q.partition
      rw [hfree] at hp
      have hswap : (rest ++ (q.queue ++ [i])).Perm (i :: rest ++ q.queue) := by
        rw [← List.append_assoc, List.cons_append]
        exact List.perm_append_singleton i (rest ++ q.queue)
      exact hswap.trans hp }

def push (data : Memory) (headerData : Option Memory) (headerSize : ℕ) : Bool × MessageQueue :=
  match hfree : q.freeBuffers with
  | [] => (false, q)
  | i :: rest =>
    let claimed := q.claim i rest hfree
    let headed := match headerData with
      | none => claimed
      | some header => claimed.writeBuffer i 0 (header.slice 0 headerSize)
    (true, headed.writeBuffer i headerSize (data.slice 0 (q.copyLength headerSize)))

/-- A caller writes through the pointer `get` returned. -/
def writeFront (off : ℕ) (bs : Bytes) : MessageQueue :=
  match q.queue with
  | [] => q
  | i :: _ => q.writeBuffer i off bs

/-! ## The queue as a list of messages -/

@[simp] theorem contents_create (messageSize : UInt32) (queueCapacity : ℕ) :
    (create messageSize queueCapacity).contents = [] := rfl

@[simp] theorem length_contents : q.contents.length = q.size := by simp [contents, size]

theorem get_eq_head? : q.get = q.contents.head? := by
  cases h : q.queue <;> simp [get, contents, h]

theorem empty_iff : q.empty = true ↔ q.contents = [] := by
  simp [empty, contents]

theorem length_of_mem_contents {b : Bytes} (hb : b ∈ q.contents) :
    b.length = q.messageSize.toNat := by
  obtain ⟨i, hi, rfl⟩ := List.mem_map.mp hb
  exact q.length_buffer (List.mem_append_right _ hi)

theorem pop_nil (h : q.contents = []) : q.pop = (false, q) := by
  have hq : q.queue = [] := by simpa [contents] using h
  unfold pop
  split
  · rfl
  · rename_i hcons
    simp [hq] at hcons

theorem pop_cons {b : Bytes} {bs : List Bytes} (h : q.contents = b :: bs) :
    q.pop.1 = true ∧ q.pop.2.contents = bs := by
  unfold pop
  split
  · rename_i hnil
    simp [contents, hnil] at h
  · rename_i i rest hcons
    simp only [contents, hcons, List.map_cons, List.cons.injEq] at h
    exact ⟨rfl, h.2⟩

@[simp] theorem pop_messageSize : q.pop.2.messageSize = q.messageSize := by
  unfold pop
  split <;> rfl

theorem writeFront_contents {b : Bytes} {bs : List Bytes} (h : q.contents = b :: bs)
    (off : ℕ) (new : Bytes) :
    (q.writeFront off new).contents = overwrite b off new :: bs := by
  unfold writeFront
  split
  · rename_i hnil
    simp [contents, hnil] at h
  · rename_i i rest hcons
    simp only [contents, hcons, List.map_cons, List.cons.injEq] at h
    obtain ⟨rfl, rfl⟩ := h
    have hnodup : (i :: rest).Nodup := hcons ▸ (List.nodup_append.mp q.nodup_names).2.1
    have hi : i < q.buffers.length := q.name_lt (by simp [hcons])
    simp only [contents, writeBuffer_queue, hcons, List.map_cons,
      q.buffer_writeBuffer_self hi, List.cons.injEq, true_and]
    apply List.map_congr_left
    intro j hj
    apply q.buffer_writeBuffer_ne
    rintro rfl
    exact (List.nodup_cons.mp hnodup).1 hj

@[simp] theorem writeFront_messageSize (off : ℕ) (bs : Bytes) :
    (q.writeFront off bs).messageSize = q.messageSize := by
  unfold writeFront
  split <;> rfl

theorem push_full {data : Memory} {headerData : Option Memory} {headerSize : ℕ}
    (h : q.full = true) : q.push data headerData headerSize = (false, q) := by
  have hq : q.freeBuffers = [] := by simpa [full] using h
  unfold push
  split
  · rfl
  · rename_i hcons
    simp [hq] at hcons

theorem push_fst (data : Memory) (headerData : Option Memory) (headerSize : ℕ) :
    (q.push data headerData headerSize).1 = !q.full := by
  unfold push full
  split <;> rename_i h <;> simp [h]

@[simp] theorem push_messageSize (data : Memory) (headerData : Option Memory) (headerSize : ℕ) :
    (q.push data headerData headerSize).2.messageSize = q.messageSize := by
  unfold push
  split
  · rfl
  · cases headerData <;> rfl

theorem push_freeBuffers (data : Memory) (headerData : Option Memory) (headerSize : ℕ) :
    (q.push data headerData headerSize).2.freeBuffers = q.freeBuffers.tail := by
  unfold push
  split
  · rename_i hnil
    simp [hnil]
  · rename_i i rest hcons
    cases headerData <;> simp [hcons, claim]

theorem push_queue (data : Memory) (headerData : Option Memory) (headerSize : ℕ) :
    (q.push data headerData headerSize).2.queue = q.queue ++ q.freeBuffers.head?.toList := by
  unfold push
  split
  · rename_i hnil
    simp [hnil]
  · rename_i i rest hcons
    cases headerData <;> simp [hcons, claim]

theorem pop_names : q.pop.2.freeBuffers = q.queue.head?.toList ++ q.freeBuffers ∧
    q.pop.2.queue = q.queue.tail := by
  unfold pop
  split
  · rename_i hnil
    simp [hnil]
  · rename_i i rest hcons
    simp [hcons]

theorem writeFront_names (off : ℕ) (bs : Bytes) :
    (q.writeFront off bs).freeBuffers = q.freeBuffers ∧ (q.writeFront off bs).queue = q.queue := by
  unfold writeFront
  split <;> exact ⟨rfl, rfl⟩

theorem full_iff : q.full = true ↔ q.size = q.queueCapacity := by
  have h := q.size_add_free
  simp only [full, List.isEmpty_iff, ← List.length_eq_zero_iff]
  omega

theorem contents_writeBuffer_newest (rest : List ℕ) {i : ℕ} (hqueue : q.queue = rest ++ [i])
    (off : ℕ) (bs : Bytes) :
    (q.writeBuffer i off bs).contents =
      rest.map q.buffer ++ [overwrite (q.buffer i) off bs] := by
  have hi : i < q.buffers.length := q.name_lt (by simp [hqueue])
  have hnodup : (rest ++ [i]).Nodup := hqueue ▸ (List.nodup_append.mp q.nodup_names).2.1
  have hnew : i ∉ rest := fun hmem =>
    (List.nodup_append.mp hnodup).2.2 i hmem i (List.mem_singleton_self i) rfl
  simp only [contents, writeBuffer_queue, hqueue, List.map_append, List.map_singleton,
    q.buffer_writeBuffer_self hi, List.append_cancel_right_eq]
  apply List.map_congr_left
  intro j hj
  apply q.buffer_writeBuffer_ne
  rintro rfl
  exact hnew hj

/-- A push appends a recycled buffer with the payload behind `headerSize` bytes, which are
the header data if there is any and left over otherwise. No queued message changes. -/
theorem push_appends (data : Memory) (headerData : Option Memory) {headerSize : ℕ}
    (h : q.full = false) (hsize : headerSize ≤ q.messageSize.toNat) :
    ∃ room : Bytes, room.length = headerSize ∧
      (∀ header, headerData = some header → room = header.slice 0 headerSize) ∧
      (q.push data headerData headerSize).2.contents =
        q.contents ++ [room ++ data.slice 0 (q.messageSize.toNat - headerSize)] := by
  unfold push
  split
  · rename_i hnil
    simp [full, hnil] at h
  · rename_i i rest hfree
    have hlength : (q.buffer i).length = q.messageSize.toNat := q.length_buffer (by simp [hfree])
    have hi : i < q.buffers.length := q.name_lt (by simp [hfree])
    have hnodup := q.nodup_names
    rw [hfree] at hnodup
    have hold : ∀ j ∈ q.queue, i ≠ j := by
      rintro j hj rfl
      exact (List.nodup_cons.mp hnodup).1 (List.mem_append_right _ hj)
    have hpayload : ∀ buf : Bytes, buf.length = q.messageSize.toNat →
        overwrite buf headerSize (data.slice 0 (q.copyLength headerSize)) =
          buf.take headerSize ++ data.slice 0 (q.messageSize.toNat - headerSize) := by
      intro buf hbuf
      rw [q.copyLength_eq hsize]
      apply overwrite_eq_append
      rw [Memory.length_slice, hbuf]
      omega
    cases headerData with
    | none =>
      refine ⟨(q.buffer i).take headerSize, by simp [hlength, hsize], by simp, ?_⟩
      rw [contents_writeBuffer_newest _ q.queue rfl]
      exact congrArg (fun m => q.contents ++ [m]) (hpayload _ hlength)
    | some header =>
      refine ⟨header.slice 0 headerSize, Memory.length_slice .., by simp, ?_⟩
      set claimed := q.claim i rest hfree
      have hclaimed : i < claimed.buffers.length := hi
      have hheaded : (overwrite (claimed.buffer i) 0 (header.slice 0 headerSize)).length =
          q.messageSize.toNat := (length_overwrite ..).trans hlength
      rw [contents_writeBuffer_newest _ q.queue rfl,
        claimed.buffer_writeBuffer_self hclaimed, hpayload _ hheaded]
      congr 1
      · apply List.map_congr_left
        intro j hj
        exact claimed.buffer_writeBuffer_ne (hold j hj) _ _
      · have hfits : 0 + (header.slice 0 headerSize).length ≤ (claimed.buffer i).length := by
          rw [Memory.length_slice]
          exact (Nat.zero_add _).trans_le (hsize.trans_eq hlength.symm)
        rw [overwrite_eq hfits, List.take_zero, List.nil_append,
          List.take_left' (Memory.length_slice ..)]

/-- A push without header data appends a recycled buffer, whose first
`headerSize` bytes are left over, and changes no queued message. -/
theorem push_contents (data : Memory) {headerSize : ℕ} (h : q.full = false)
    (hsize : headerSize ≤ q.messageSize.toNat) :
    ∃ old : Bytes, old.length = headerSize ∧
      (q.push data none headerSize).2.contents =
        q.contents ++ [old ++ data.slice 0 (q.messageSize.toNat - headerSize)] := by
  obtain ⟨old, hold, _, hcontents⟩ := q.push_appends data none h hsize
  exact ⟨old, hold, hcontents⟩

/-! ## Lengths -/

theorem push_size (data : Memory) (headerData : Option Memory) (headerSize : ℕ) :
    (q.push data headerData headerSize).2.size =
      q.size + (q.push data headerData headerSize).1.toNat := by
  unfold push
  split
  · rfl
  · cases headerData <;> simp [size, claim]

theorem pop_size : q.pop.2.size = q.size - 1 := by
  unfold pop
  split
  · rename_i hnil
    simp [size, hnil]
  · rename_i hcons
    simp [size, hcons]

theorem writeFront_size (off : ℕ) (bs : Bytes) : (q.writeFront off bs).size = q.size := by
  unfold writeFront
  split <;> simp [size, writeBuffer]

@[simp] theorem push_queueCapacity (data : Memory) (headerData : Option Memory)
    (headerSize : ℕ) : (q.push data headerData headerSize).2.queueCapacity = q.queueCapacity := by
  unfold push
  split
  · rfl
  · cases headerData <;> rfl

@[simp] theorem pop_queueCapacity : q.pop.2.queueCapacity = q.queueCapacity := by
  unfold pop
  split <;> rfl

@[simp] theorem writeFront_queueCapacity (off : ℕ) (bs : Bytes) :
    (q.writeFront off bs).queueCapacity = q.queueCapacity := by
  unfold writeFront
  split <;> rfl

end MessageQueue

end Crps
