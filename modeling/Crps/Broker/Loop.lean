import Mathlib.Logic.Function.Basic
import Crps.Broker.Tables
import Crps.Protocol.Codec

/-!
# The broker loop

One iteration of `Broker::spin` takes the bytes a successful `recvfrom` stored
and the sender's address. A failed `recvfrom` continues without touching the
broker and is no iteration here. The results of `sendto` are an arbitrary
function of the attempt's number within the iteration, address and bytes.
-/

namespace Crps

/-- `m_client_counters`. -/
abbrev ClientCounters := String → Option BpCounter

/-- `Broker::verify_and_update_client_counter`. -/
def verifyAndUpdateClientCounter (counters : ClientCounters) (clientAddress : String)
    (counter : BpCounter) : Bool × ClientCounters :=
  match counters clientAddress with
  | none => (true, Function.update counters clientAddress (some counter))
  | some last =>
    if last + 1 ≠ counter then (false, counters)
    else (true, Function.update counters clientAddress (some counter))

/-- Results of `sendto`, by attempt within the iteration, address and bytes. -/
abbrev Sendto := ℕ → String → Bytes → Bool

structure Broker where
  clientCounters : ClientCounters
  tables : Tables
  buffer : Memory

/-- The broker after `start`. -/
def Broker.started : Broker := ⟨fun _ => none, {}, fun _ => 0⟩

/-- One call of `Network::sendto`. -/
structure SendAttempt where
  address : String
  packet : Bytes
  sent : Bool
  deriving DecidableEq, Repr

/-- How an iteration disposed of its packet. -/
inductive Disposal where
  | wrongCounter
  | invalid
  | unknownType
  | control (request response : Json)
  | invalidTopic (header : BpDataHeader)
  | invalidMessageType (header : BpDataHeader)
  | wrongMessageType (header : BpDataHeader)
  | forwarded (header : BpDataHeader)

/-- The counter check is the only way to a wrong counter. -/
def Disposal.passedCounter : Disposal → Bool
  | .wrongCounter => false
  | _ => true

/-- An iteration: the broker after it, what it did, and whether the loop was left. -/
structure Iteration where
  broker : Broker
  disposal : Disposal
  attempts : List SendAttempt := []
  stopped : Bool := false
  accesses : List TableAccess := []
  debugAccesses : List TableAccess := []

namespace Broker

variable (text : JsonText)

/-- The address `m_nodes` holds for a subscriber-list entry. -/
def nodeAddress (t : Tables) (id : BpNodeId) : String :=
  match t.nodes[id.toNat]? with
  | some node => node.address
  | none => ""

/-- The forwarding loop: one `send_data` per entry, whatever became of the others. -/
def forward (t : Tables) (sendto : Sendto) (packet : Bytes) (subscribers : List BpNodeId) :
    List SendAttempt :=
  subscribers.mapIdx fun k id =>
    let address := nodeAddress t id
    ⟨address, packet, sendto k address packet⟩

/-- The data branch of `spin`. -/
def processData (b : Broker) (sendto : Sendto) (packet : Bytes) (header : BpDataHeader) :
    Iteration :=
  let debugAccesses := [b.tables.topicAccess header.topicId]
  match b.tables.topics[header.topicId.toNat]? with
  | none => { broker := b, disposal := .invalidTopic header, debugAccesses }
  | some topic =>
    let accesses := [b.tables.topicAccess header.topicId]
    if b.tables.messageTypes.length ≤ header.messageTypeId.toNat then
      { broker := b, disposal := .invalidMessageType header, accesses, debugAccesses }
    else if topic.messageTypeId ≠ header.messageTypeId then
      { broker := b, disposal := .wrongMessageType header, accesses, debugAccesses }
    else
      { broker := b
        disposal := .forwarded header
        attempts := forward b.tables sendto packet topic.subscribers
        accesses := accesses ++ topic.subscribers.map b.tables.nodeAccess
        debugAccesses }

/-- The control branch of `spin`; a response that cannot be sent ends the loop. -/
def processControl (b : Broker) (sendto : Sendto) (client : String) (request : Json) :
    Except Fault Iteration := do
  let reply ← b.tables.processControlRequest client request
  let counter := (b.clientCounters client).getD 0
  let packet := bpControlJsonToPacketBuffer text reply.response counter
  let sent := sendto 0 client packet
  return {
    broker := { b with tables := reply.tables }
    disposal := .control request reply.response
    attempts := [⟨client, packet, sent⟩]
    stopped := !sent
    accesses := reply.accesses }

/-- One iteration of `Broker::spin` on a received datagram. -/
def spinIteration (b : Broker) (sendto : Sendto) (client : String) (datagram : Bytes) :
    Except Fault Iteration := do
  let buffer := Memory.load datagram b.buffer
  let decoded ← decodePacketBuffer text buffer datagram.length
  let verified := verifyAndUpdateClientCounter b.clientCounters client decoded.header.counter
  let b' : Broker := { b with buffer, clientCounters := verified.2 }
  if !verified.1 then return { broker := b', disposal := .wrongCounter }
  else
    match decoded.type with
    | .invalid => return { broker := b', disposal := .invalid }
    | .control => processControl text b' sendto client decoded.controlJson
    | .data =>
      return processData b' sendto (buffer.slice 0 datagram.length) decoded.dataHeader
    | .other _ => return { broker := b', disposal := .unknownType }

end Broker

/-! ## Runs of the loop -/

/-- A datagram at the broker's socket, with the `sendto` results of its iteration. -/
structure Arrival where
  client : String
  datagram : Bytes
  sendto : Sendto

/-- One completed iteration of a run. -/
structure Record where
  before : Broker
  arrival : Arrival
  iteration : Iteration

namespace Broker

variable (text : JsonText)

/-- The completed iterations on a sequence of arrivals. The loop ends early
when a fault escapes or an iteration breaks out of it. -/
def spin (b : Broker) : List Arrival → List Record
  | [] => []
  | a :: as =>
    match b.spinIteration text a.sendto a.client a.datagram with
    | .error _ => []
    | .ok it => ⟨b, a, it⟩ :: if it.stopped then [] else it.broker.spin as

/-! ## What an iteration can do -/

/-- The broker once a packet's counter has been looked at. -/
def checked (b : Broker) (client : String) (datagram : Bytes) (counter : BpCounter) : Broker :=
  { b with
    buffer := Memory.load datagram b.buffer
    clientCounters := (verifyAndUpdateClientCounter b.clientCounters client counter).2 }

/-- The ways through one iteration, for a packet that decoded to `d`. -/
inductive Iterates (b : Broker) (sendto : Sendto) (client : String) (datagram : Bytes)
    (d : Decoded) : Iteration → Prop
  | refused :
      (verifyAndUpdateClientCounter b.clientCounters client d.header.counter).1 = false →
      Iterates b sendto client datagram d
        { broker := b.checked client datagram d.header.counter, disposal := .wrongCounter }
  | invalid :
      (verifyAndUpdateClientCounter b.clientCounters client d.header.counter).1 = true →
      d.type = .invalid →
      Iterates b sendto client datagram d
        { broker := b.checked client datagram d.header.counter, disposal := .invalid }
  | unknownType {byte : UInt8} :
      (verifyAndUpdateClientCounter b.clientCounters client d.header.counter).1 = true →
      d.type = .other byte →
      Iterates b sendto client datagram d
        { broker := b.checked client datagram d.header.counter, disposal := .unknownType }
  | control {it : Iteration} :
      (verifyAndUpdateClientCounter b.clientCounters client d.header.counter).1 = true →
      d.type = .control →
      processControl text (b.checked client datagram d.header.counter) sendto client
        d.controlJson = .ok it →
      Iterates b sendto client datagram d it
  | data :
      (verifyAndUpdateClientCounter b.clientCounters client d.header.counter).1 = true →
      d.type = .data →
      Iterates b sendto client datagram d
        (processData (b.checked client datagram d.header.counter) sendto datagram d.dataHeader)

variable {text}

theorem spinIteration_iterates {b : Broker} {sendto : Sendto} {client : String}
    {datagram : Bytes} {it : Iteration}
    (h : b.spinIteration text sendto client datagram = .ok it) :
    ∃ d, decodePacketBuffer text (Memory.load datagram b.buffer) datagram.length = .ok d ∧
      Iterates text b sendto client datagram d it := by
  simp only [spinIteration] at h
  cases hd : decodePacketBuffer text (Memory.load datagram b.buffer) datagram.length with
  | error e =>
    rw [hd] at h
    cases h
  | ok d =>
    refine ⟨d, rfl, ?_⟩
    rw [hd] at h
    simp only [bind, Except.bind, pure, Except.pure] at h
    cases hv : (verifyAndUpdateClientCounter b.clientCounters client d.header.counter).1 with
    | false =>
      rw [hv] at h
      injection h with h
      exact h ▸ .refused hv
    | true =>
      rw [hv] at h
      simp only [Bool.not_true, Bool.false_eq_true, if_false, Memory.slice_load_self] at h
      split at h
      · rename_i htype
        injection h with h
        exact h ▸ .invalid hv htype
      · rename_i htype
        exact .control hv htype h
      · rename_i htype
        injection h with h
        exact h ▸ .data hv htype
      · rename_i htype
        injection h with h
        exact h ▸ .unknownType hv htype

theorem processControl_ok {b : Broker} {sendto : Sendto} {client : String} {request : Json}
    {it : Iteration} (h : processControl text b sendto client request = .ok it) :
    ∃ reply, b.tables.processControlRequest client request = .ok reply ∧
      ∃ packet, packet = bpControlJsonToPacketBuffer text reply.response
          ((b.clientCounters client).getD 0) ∧
        it = { broker := { b with tables := reply.tables }
               disposal := .control request reply.response
               attempts := [⟨client, packet, sendto 0 client packet⟩]
               stopped := !sendto 0 client packet
               accesses := reply.accesses } := by
  simp only [processControl] at h
  cases hreply : b.tables.processControlRequest client request with
  | error e =>
    rw [hreply] at h
    cases h
  | ok reply =>
    rw [hreply] at h
    injection h with h
    exact ⟨reply, rfl, _, rfl, h.symm⟩

theorem processData_broker (b : Broker) (sendto : Sendto) (packet : Bytes)
    (header : BpDataHeader) : (processData b sendto packet header).broker = b := by
  simp only [processData]
  split
  · rfl
  · split_ifs <;> rfl

section Accepted

variable {b : Broker} {client : String} {datagram : Bytes} {d : Decoded}
variable (sendto : Sendto)
variable (hd : decodePacketBuffer text (Memory.load datagram b.buffer) datagram.length = .ok d)
variable
  (hpass : (verifyAndUpdateClientCounter b.clientCounters client d.header.counter).1 = true)

include hd hpass

theorem spinIteration_of_control (htype : d.type = .control) :
    b.spinIteration text sendto client datagram =
      processControl text (b.checked client datagram d.header.counter) sendto client
        d.controlJson := by
  simp only [spinIteration, hd, bind, Except.bind, hpass, htype]
  rfl

theorem spinIteration_of_data (htype : d.type = .data) :
    b.spinIteration text sendto client datagram =
      .ok (processData (b.checked client datagram d.header.counter) sendto datagram
        d.dataHeader) := by
  simp only [spinIteration, hd, bind, Except.bind, hpass, htype, Memory.slice_load_self]
  rfl

end Accepted

theorem spinIteration_controlPacket {b : Broker} {client : String} {j : Json} {c : BpCounter}
    (sendto : Sendto) (hj : j.Plain) (hlen : 9 + (text.dump j).length < 2 ^ 32)
    (hpass : (verifyAndUpdateClientCounter b.clientCounters client c).1 = true) :
    b.spinIteration text sendto client (bpControlJsonToPacketBuffer text j c) =
      processControl text (b.checked client (bpControlJsonToPacketBuffer text j c) c) sendto
        client j :=
  spinIteration_of_control sendto (decode_controlPacket text hj c b.buffer hlen) hpass rfl

theorem spinIteration_dataPacket {b : Broker} {client : String} {c : BpCounter} {t : TopicId}
    {m : MessageTypeId} {s : UInt32} {payload : Bytes} (sendto : Sendto)
    (hs : s.toNat = payload.length) (hlen : 17 + payload.length < 2 ^ 32)
    (hpass : (verifyAndUpdateClientCounter b.clientCounters client c).1 = true) :
    b.spinIteration text sendto client (dataHeaderBytes c t m s ++ payload) =
      .ok (processData (b.checked client (dataHeaderBytes c t m s ++ payload) c) sendto
        (dataHeaderBytes c t m s ++ payload) ⟨t, m, s⟩) :=
  spinIteration_of_data sendto (decode_dataPacket text c t m b.buffer hs hlen) hpass rfl

/-! ## Runs -/

theorem spin_cons_of_ok {b : Broker} {a : Arrival} {it : Iteration}
    (hit : b.spinIteration text a.sendto a.client a.datagram = .ok it)
    (hstopped : it.stopped = false) (as : List Arrival) :
    b.spin text (a :: as) = ⟨b, a, it⟩ :: it.broker.spin text as := by
  rw [spin, hit]
  simp only [hstopped, Bool.false_eq_true, if_false]

/-- A completed iteration is the first record of its run, whether or not it goes on. -/
theorem mem_spin_of_ok {b : Broker} {a : Arrival} {it : Iteration}
    (hit : b.spinIteration text a.sendto a.client a.datagram = .ok it) (as : List Arrival) :
    ⟨b, a, it⟩ ∈ b.spin text (a :: as) := by
  rw [spin, hit]
  exact List.mem_cons_self

theorem spinIteration_of_mem_spin {b : Broker} {as : List Arrival} {r : Record}
    (h : r ∈ b.spin text as) :
    r.before.spinIteration text r.arrival.sendto r.arrival.client r.arrival.datagram =
      .ok r.iteration := by
  induction as generalizing b with
  | nil => simp [spin] at h
  | cons a as ih =>
    rw [spin] at h
    split at h
    · cases h
    · rename_i it hit
      rcases List.mem_cons.mp h with rfl | h
      · exact hit
      · split_ifs at h
        · cases h
        · exact ih h

/-- What every iteration preserves holds throughout a run. -/
theorem spin_invariant {P : Broker → Prop}
    (hstep : ∀ {b sendto client datagram it}, P b →
      b.spinIteration text sendto client datagram = .ok it → P it.broker)
    {b : Broker} (hb : P b) {as : List Arrival} {r : Record} (h : r ∈ b.spin text as) :
    P r.before ∧ P r.iteration.broker := by
  induction as generalizing b with
  | nil => simp [spin] at h
  | cons a as ih =>
    rw [spin] at h
    split at h
    · cases h
    · rename_i it hit
      rcases List.mem_cons.mp h with rfl | h
      · exact ⟨hb, hstep hb hit⟩
      · split_ifs at h
        · cases h
        · exact ih (hstep hb hit) h

theorem spin_pairwise {R : Broker → Broker → Prop} (hrefl : ∀ b, R b b)
    (htrans : ∀ {x y z}, R x y → R y z → R x z)
    (hstep : ∀ {b sendto client datagram it},
      b.spinIteration text sendto client datagram = .ok it → R b it.broker)
    (b : Broker) (as : List Arrival) :
    (∀ r ∈ b.spin text as, R b r.before) ∧
      (b.spin text as).Pairwise fun r r' => R r.iteration.broker r'.before := by
  induction as generalizing b with
  | nil => simp [spin]
  | cons a as ih =>
    rw [spin]
    split
    · simp
    · rename_i it hit
      split_ifs
      · simp [hrefl]
      · obtain ⟨hfrom, hpair⟩ := ih it.broker
        refine ⟨fun r hr => ?_, List.pairwise_cons.mpr ⟨hfrom, hpair⟩⟩
        rcases List.mem_cons.mp hr with rfl | hr
        · exact hrefl b
        · exact htrans (hstep hit) (hfrom r hr)

end Broker

end Crps
