import Crps.Broker.Registry
import Crps.Node.Requests

/-!
# Serving a sequence of requests

The runs of the broker on the requests a node builds, forward: a client that
counts its packets without a gap, on a network that takes every response, has
all its requests handled one after the other.
-/

namespace Crps

namespace Tables

theorem processControlRequest_total (t : Tables) (client : String) (rpcId : UInt32)
    (c : ControlRequest) :
    ∃ reply, t.processControlRequest client (Node.requestJson rpcId c) = .ok reply ∧
      reply.tables = (t.handle client c).tables := by
  rw [processControlRequest_eq, Node.ofJson_requestJson]
  change ∃ reply, respond (Node.requestJson rpcId c) (t.handle client c) c.errorMessage
    ControlAnswer.fields = .ok reply ∧ _
  cases hresult : (t.handle client c).result with
  | none =>
    simp only [respond, hresult, Node.requestJson_rpcId, bind, Except.bind]
    exact ⟨_, rfl, rfl⟩
  | some a =>
    simp only [respond, hresult, Node.requestJson_rpcId, bind, Except.bind]
    exact ⟨_, rfl, rfl⟩

/-- The tables after the requests of one client. -/
def serve (client : String) : Tables → List ControlRequest → Tables
  | t, [] => t
  | t, c :: cs => serve client (t.handle client c).tables cs

end Tables

namespace Broker

variable {text : JsonText} {b : Broker} {client : String}

/-- The counter the broker lets pass next. -/
def Expects (b : Broker) (client : String) (counter : BpCounter) : Prop :=
  b.clientCounters client = none ∨ b.clientCounters client = some (counter - 1)

theorem verify_of_expects {counter : BpCounter} (h : b.Expects client counter) :
    verifyAndUpdateClientCounter b.clientCounters client counter =
      (true, Function.update b.clientCounters client (some counter)) := by
  unfold verifyAndUpdateClientCounter
  rcases h with h | h
  · simp only [h]
  · simp only [h, UInt32.sub_add_cancel, ne_eq, not_true_eq_false, if_false]

theorem verify_iff (counters : ClientCounters) (client : String) (counter : BpCounter) :
    (verifyAndUpdateClientCounter counters client counter).1 = true ↔
      counters client = none ∨ counters client = some (counter - 1) := by
  unfold verifyAndUpdateClientCounter
  cases hlast : counters client with
  | none => simp
  | some last =>
    simp only [reduceCtorEq, false_or, Option.some.injEq]
    constructor
    · intro h
      split_ifs at h with hne
      rw [not_not] at hne
      rw [← hne, UInt32.add_sub_cancel]
    · intro h
      rw [h, UInt32.sub_add_cancel, if_neg (by simp)]

variable (text) in
/-- A client's requests as they arrive, with counters from `counter` on. -/
def requestArrivals (client : String) : BpCounter → List ControlRequest → List Arrival
  | _, [] => []
  | counter, c :: cs =>
    ⟨client, bpControlJsonToPacketBuffer text (Node.requestJson counter c) counter,
      fun _ _ _ => true⟩ :: requestArrivals client (counter + 1) cs

theorem spinIteration_serves {counter : BpCounter} {c : ControlRequest}
    (h : b.Expects client counter)
    (hlen : 9 + (text.dump (Node.requestJson counter c)).length < 2 ^ 32) :
    ∃ it, b.spinIteration text (fun _ _ _ => true) client
        (bpControlJsonToPacketBuffer text (Node.requestJson counter c) counter) = .ok it ∧
      it.stopped = false ∧ it.broker.tables = (b.tables.handle client c).tables ∧
      it.broker.clientCounters = Function.update b.clientCounters client (some counter) := by
  have hverify := verify_of_expects h
  rw [spinIteration_controlPacket _ (Node.requestJson_plain counter c) hlen (by rw [hverify])]
  obtain ⟨reply, hreply, htables⟩ :=
    Tables.processControlRequest_total b.tables client counter c
  have hchecked : (b.checked client (bpControlJsonToPacketBuffer text
      (Node.requestJson counter c) counter) counter).tables.processControlRequest client
      (Node.requestJson counter c) = .ok reply := hreply
  simp only [processControl, hchecked, bind, Except.bind]
  refine ⟨_, rfl, rfl, htables, ?_⟩
  simp only [checked, hverify]

theorem spinIteration_grants {counter : BpCounter} {c : ControlRequest} {answer : ControlAnswer}
    (hexpects : b.Expects client counter)
    (hanswer : (b.tables.handle client c).result = some answer)
    (hlength : 9 + (text.dump (Node.requestJson counter c)).length < 2 ^ 32) :
    ∃ it, b.spinIteration text (fun _ _ _ => true) client
        (bpControlJsonToPacketBuffer text (Node.requestJson counter c) counter) = .ok it ∧
      it.stopped = false ∧ it.disposal = .control (Node.requestJson counter c)
        (answer.response (.ofUInt32 counter)) ∧
      it.broker.tables = (b.tables.handle client c).tables := by
  have hpassed := verify_of_expects hexpects
  have hspin := spinIteration_controlPacket (fun _ _ _ => true)
    (Node.requestJson_plain counter c) hlength (by rw [hpassed])
  generalize bpControlJsonToPacketBuffer text (Node.requestJson counter c) counter = packet
    at hspin ⊢
  have hreply := b.tables.processControlRequest_of_granted (Node.ofJson_requestJson counter c)
    hanswer (Node.requestJson_rpcId counter c)
  have htables : (b.checked client packet counter).tables = b.tables := rfl
  rw [hspin]
  simp only [processControl, htables, hreply, bind, Except.bind, pure, Except.pure]
  exact ⟨_, rfl, rfl, rfl, rfl⟩

/-- All requests of a client are served, whatever comes after them. -/
theorem spin_requests (cs : List ControlRequest) {counter : BpCounter}
    (h : b.Expects client counter)
    (hlen : ∀ a ∈ requestArrivals text client counter cs, a.datagram.length < 2 ^ 32) :
    ∃ b' : Broker, b'.tables = b.tables.serve client cs ∧
      b'.Expects client (counter + UInt32.ofNat cs.length) ∧
      ∀ as, ∀ r ∈ b'.spin text as,
        r ∈ b.spin text (requestArrivals text client counter cs ++ as) := by
  induction cs generalizing b counter with
  | nil =>
    refine ⟨b, rfl, ?_, fun as r hr => hr⟩
    simpa using h
  | cons c cs ih =>
    have hfirst := hlen _ List.mem_cons_self
    rw [length_controlPacket] at hfirst
    obtain ⟨it, hit, hstopped, htables, hcounters⟩ := spinIteration_serves h hfirst
    have hnext : it.broker.Expects client (counter + 1) := by
      right
      rw [hcounters, Function.update_self, UInt32.add_sub_cancel]
    obtain ⟨b', htables', hexpects, hmem⟩ :=
      ih hnext fun a ha => hlen a (List.mem_cons_of_mem _ ha)
    refine ⟨b', by rw [htables', htables]; rfl, ?_, fun as r hr => ?_⟩
    · rw [List.length_cons, Nat.add_comm, UInt32.ofNat_add, ← UInt32.add_assoc]
      exact hexpects
    · rw [requestArrivals, List.cons_append, spin_cons_of_ok hit hstopped]
      exact List.mem_cons_of_mem _ (hmem as r hr)

/-- The last of a client's requests, if its handler grants it. -/
theorem spin_lastRequest {c : ControlRequest} {answer : ControlAnswer} (cs : List ControlRequest)
    {counter : BpCounter} (h : b.Expects client counter)
    (hlen : ∀ a ∈ requestArrivals text client counter (cs ++ [c]), a.datagram.length < 2 ^ 32)
    (hanswer : ((b.tables.serve client cs).handle client c).result = some answer) :
    ∃ r ∈ b.spin text (requestArrivals text client counter (cs ++ [c])), ∃ rpcId,
      r.before.tables = b.tables.serve client cs ∧
      r.iteration.disposal = .control (Node.requestJson rpcId c)
        (answer.response (.ofUInt32 rpcId)) ∧
      r.iteration.broker.tables = ((b.tables.serve client cs).handle client c).tables := by
  induction cs generalizing b counter with
  | nil =>
    have hlength := hlen _ List.mem_cons_self
    rw [length_controlPacket] at hlength
    obtain ⟨it, hit, _, hdisposal, htables⟩ := spinIteration_grants h hanswer hlength
    exact ⟨_, mem_spin_of_ok hit [], counter, rfl, hdisposal, htables⟩
  | cons c' cs ih =>
    have hlength := hlen _ List.mem_cons_self
    rw [length_controlPacket] at hlength
    obtain ⟨it, hit, hstopped, htables, hcounters⟩ := spinIteration_serves h hlength
    have hnext : it.broker.Expects client (counter + 1) := by
      right
      rw [hcounters, Function.update_self, UInt32.add_sub_cancel]
    have hserved : b.tables.serve client (c' :: cs) = it.broker.tables.serve client cs := by
      rw [htables]
      rfl
    rw [hserved] at hanswer ⊢
    obtain ⟨r, hr, hrest⟩ := ih hnext (fun a ha => hlen a (List.mem_cons_of_mem _ ha)) hanswer
    rw [List.cons_append, requestArrivals, spin_cons_of_ok hit hstopped]
    exact ⟨r, List.mem_cons_of_mem _ hr, hrest⟩

theorem length_requestArrivals {client : String} {counter : BpCounter} {cs : List ControlRequest}
    (hcs : ∀ c ∈ cs, Node.ShortName (Node.requestName c)) :
    ∀ a ∈ requestArrivals compactJson client counter cs, a.datagram.length ≤ maxDatagramSize := by
  induction cs generalizing counter with
  | nil => simp [requestArrivals]
  | cons c cs ih =>
    intro a ha
    rcases List.mem_cons.mp ha with rfl | ha
    · have hname := hcs c List.mem_cons_self
      have hlength := Node.length_dump_requestJson_le c counter
      unfold Node.ShortName at hname
      simp only [length_controlPacket, maxDatagramSize]
      omega
    · exact ih (fun c' hc' => hcs c' (List.mem_cons_of_mem c hc')) a ha

end Broker

end Crps
