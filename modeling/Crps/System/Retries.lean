import Crps.System.Backing
import Crps.System.Priorities

/-!
# Sends that fail

A packet whose `sendto` failed stays at the head of its queue and is filled
anew for the next attempt, with a new counter. No message is lost or sent
twice, but the counter drawn for the attempt that failed is gone, and the
broker waits for it: the node is locked out as soon as it sends again.
-/

namespace Crps

/-- `sendto` has transmitted only what fits a datagram. -/
def DatagramsFit (n : Node) (trace : List SpinEvent) : Prop :=
  ∀ k packet p, .sendto k packet true ∈ trace → n.publishers[k]? = some p →
    p.packetSize ≤ maxDatagramSize

def Action.IsLossless {ι : Type} : Action ι → Prop
  | .loseUp _ _ => False
  | .loseDown _ _ => False
  | _ => True

namespace Node

variable {n start : Node}

theorem headerRoom_of_created (h : Created start) :
    ∀ p ∈ start.publishers, p.packetHeaderSize = 17 := by
  induction h with
  | create =>
    intro p hp
    cases hp
  | publisher topicName typeName messageSize topicPriority _ ih =>
    intro p hp
    rcases List.mem_append.mp hp with hp | hp
    · exact ih p hp
    · rw [List.mem_singleton.mp hp]
      rfl
  | subscriber _ _ _ _ _ ih => exact ih

theorem headerRoom_of_blueprint (hcreated : Created start) (h : n.blueprint = start.blueprint) :
    ∀ info ∈ n.config.publishers, info.packetHeaderSize = 17 := by
  intro info hinfo
  obtain ⟨p, hp, rfl⟩ := List.mem_map.mp hinfo
  have hmem : p.blueprint ∈ n.blueprint.2.1 := List.mem_map_of_mem hp
  rw [h] at hmem
  obtain ⟨q, hq, hqp⟩ := List.mem_map.mp hmem
  have hroom : q.blueprint.packetHeaderSize = p.blueprint.packetHeaderSize := by rw [hqp]
  exact hroom.symm.trans (headerRoom_of_created hcreated q hq)

theorem outgoing_of_blueprint (hcreated : Created start) (h : n.blueprint = start.blueprint)
    (k : ℕ) : n.outgoing k = [] := by
  have hqueued := (queued_of_blueprint h (.publisher k)).trans (queued_of_created hcreated _)
  cases hp : n.publishers[k]? with
  | none => simp [outgoing, hp]
  | some p =>
    simp only [queued, hp, Option.elim_some, p.messagesQueued_eq, List.length_eq_zero_iff]
      at hqueued
    rw [outgoing_of_getElem? hp, hqueued, List.map_nil]

end Node

namespace System

variable {ι : Type} {net : Deployment ι} {nodes : ι → Node} {s s' : System ι} {i : ι}

section Active

variable {r : Registry} {n₀ : Node} {requests : List Bytes}

theorem Active.headerRoom (h : Active net nodes s r i n₀ requests)
    (hnodes : ∀ i, Node.Created (nodes i)) :
    ∀ info ∈ (s.node i).config.publishers, info.packetHeaderSize = 17 := by
  rw [h.performs.config]
  exact Node.headerRoom_of_blueprint (hnodes i) h.registered.blueprint

theorem Active.long (h : Active net nodes s r i n₀ requests)
    (hnodes : ∀ i, Node.Created (nodes i)) (hfit : DatagramsFit (s.node i) (s.ledger i).trace) :
    (∀ packet ∈ sentPackets (s.ledger i).trace, 5 ≤ packet.length) ∧
      ∀ packet ∈ (s.ledger i).sent, 5 ≤ packet.length := by
  have hdata : ∀ packet ∈ sentPackets (s.ledger i).trace, 5 ≤ packet.length := by
    intro packet hpacket
    obtain ⟨e, he, hsent⟩ := List.mem_filterMap.mp hpacket
    split at hsent
    · rename_i k sentPacket
      injection hsent with hsent
      subst hsent
      obtain ⟨info, hinfo, hlength⟩ := h.performs.sent_length he
      rw [← h.performs.config] at hinfo
      have hroom := h.headerRoom hnodes info (List.mem_of_getElem? hinfo)
      rw [Node.config, List.getElem?_map] at hinfo
      obtain ⟨p, hp, rfl⟩ := Option.map_eq_some_iff.mp hinfo
      have hsize := hfit k sentPacket p he hp
      have hpacketSize : p.info.packetHeaderSize + p.info.messageSize.toNat = p.packetSize := rfl
      have hatLeast : 17 ≤ p.packetSize := hpacketSize ▸ hroom ▸ Nat.le_add_right _ _
      simp only [maxDatagramSize] at hsize
      rw [hlength, hpacketSize, UInt32.toNat_ofNat']
      omega
    · cases hsent
  refine ⟨hdata, fun packet hpacket => ?_⟩
  rw [h.sent] at hpacket
  rcases List.mem_append.mp hpacket with hpacket | hpacket
  · exact h.requested.long packet hpacket
  · exact hdata packet hpacket

theorem Active.counters (h : Active net nodes s r i n₀ requests)
    (hlong : ∀ packet ∈ sentPackets (s.ledger i).trace, 5 ≤ packet.length) :
    (s.ledger i).sent.map packetCounter = CounterGate.successStamps (· + 1) 0
      (List.replicate requests.length true ++ sendResults (s.ledger i).trace) := by
  rw [h.sent, List.map_append, h.requested.stamps, h.performs.stamps hlong,
    CounterGate.successStamps_append, List.length_replicate, h.requested.counter]

theorem Active.consecutive_iff (h : Active net nodes s r i n₀ requests)
    (hlong : ∀ packet ∈ sentPackets (s.ledger i).trace, 5 ≤ packet.length) :
    CounterGate.Follows (· + 1) none ((s.ledger i).sent.map packetCounter) ↔
      CounterGate.FailuresWrap (2 ^ 32) (sendResults (s.ledger i).trace) := by
  rw [h.counters hlong, ← CounterGate.failuresWrap_replicate_append requests.length,
    ← CounterGate.follows_successStamps_iff Node.iterate_eq_self_iff _ (0 : BpCounter)]
  obtain ⟨m, hm⟩ := Nat.exists_eq_succ_of_ne_zero (mt List.length_eq_zero_iff.mp h.asked)
  rw [hm, List.replicate_succ, List.cons_append, CounterGate.successStamps,
    CounterGate.follows_cons, CounterGate.follows_cons]
  simp

end Active

/-! ## Verdicts -/

/-- The broker looks at the packets in the order in which they were sent, and accepts all of them
as long as their counters follow one another. -/
structure Judged (net : Deployment ι) (s : System ι) (i : ι) : Prop where
  order : ∃ inFlight, (s.ledger i).sent = (s.ledger i).verdicts.map Prod.fst ++ inFlight ∧
    (s.brokerRunning = true → inFlight = (s.up i).map Datagram.bytes)
  gate : (∀ packet ∈ (s.ledger i).sent, 5 ≤ packet.length) →
    CounterGate.Follows (· + 1) none ((s.ledger i).sent.map packetCounter) →
      (∀ v ∈ (s.ledger i).verdicts, v.2 = true) ∧ s.broker.clientCounters (net.address i) =
        (((s.ledger i).verdicts.map Prod.fst).getLast?).map packetCounter

theorem judged_initial (net : Deployment ι) (nodes : ι → Node) (i : ι) :
    Judged net (initial nodes) i := by
  refine ⟨⟨[], rfl, fun _ => rfl⟩, fun _ _ => ⟨?_, rfl⟩⟩
  intro v hv
  cases hv

theorem Judged.more (h : Judged net s i) (packets : List (Datagram ι))
    (hbroker : s'.broker = s.broker) (hrunning : s'.brokerRunning = s.brokerRunning)
    (hup : s'.up i = s.up i ++ packets)
    (hsent : (s'.ledger i).sent = (s.ledger i).sent ++ packets.map Datagram.bytes)
    (hverdicts : (s'.ledger i).verdicts = (s.ledger i).verdicts) : Judged net s' i := by
  obtain ⟨inFlight, horder, hflight⟩ := h.order
  constructor
  · refine ⟨inFlight ++ packets.map Datagram.bytes, ?_, fun hrun => ?_⟩
    · rw [hsent, hverdicts, horder, List.append_assoc]
    · rw [hup, List.map_append, hflight (hrunning ▸ hrun)]
  · intro hlong hfollows
    rw [hsent] at hlong hfollows
    rw [List.map_append] at hfollows
    rw [hverdicts, hbroker]
    exact h.gate (fun packet hp => hlong packet (List.mem_append_left _ hp))
      (List.IsChain.left_of_append hfollows)

theorem map_dispatched (i : ι) (past events : List SpinEvent) :
    (dispatched i past events).map Datagram.bytes = sentPackets events := by
  induction events generalizing past with
  | nil => rfl
  | cons e events ih =>
    have hpackets := sentPackets_append [e] events
    rw [List.singleton_append] at hpackets
    rw [hpackets]
    simp only [dispatched]
    split
    · rw [List.map_cons, ih]
      rfl
    · rename_i hother
      have hnothing : sentPackets [e] = [] := by
        cases e with
        | sendto k packet sent =>
          cases sent with
          | false => rfl
          | true => exact absurd rfl (hother k packet)
        | _ => rfl
      rw [hnothing, List.nil_append, ih]

theorem clientCounters_other {text : JsonText} {b : Broker} {sendto : Sendto}
    {client other : String} {packet : Bytes} {it : Iteration}
    (h : b.spinIteration text sendto client packet = .ok it) (hother : other ≠ client) :
    it.broker.clientCounters other = b.clientCounters other := by
  obtain ⟨d, _, hit⟩ := Broker.spinIteration_iterates h
  have hchecked : (b.checked client packet d.header.counter).clientCounters other =
      b.clientCounters other := by
    simp only [Broker.checked, verifyAndUpdateClientCounter]
    split
    · exact Function.update_of_ne hother _ _
    · split_ifs
      · rfl
      · exact Function.update_of_ne hother _ _
  cases hit with
  | refused => exact hchecked
  | invalid => exact hchecked
  | unknownType => exact hchecked
  | control _ _ hcontrol =>
    obtain ⟨reply, _, _, _, rfl⟩ := Broker.processControl_ok hcontrol
    exact hchecked
  | data =>
    rw [Broker.processData_broker]
    exact hchecked

theorem Judged.broker (h : Judged net s i) (hrunning : s.brokerRunning = true) {d : Datagram ι}
    {rest : List (Datagram ι)} (hup : s.up i = d :: rest) {it : Iteration}
    (hit : s.broker.spinIteration net.text brokerSendto (net.address i) d.bytes = .ok it)
    (hbroker : s'.broker = it.broker) (hup' : s'.up i = rest)
    (hsent : (s'.ledger i).sent = (s.ledger i).sent)
    (hverdicts : (s'.ledger i).verdicts =
      (s.ledger i).verdicts ++ [(d.bytes, it.disposal.passedCounter)]) : Judged net s' i := by
  obtain ⟨inFlight, horder, hflight⟩ := h.order
  rw [hflight hrunning, hup, List.map_cons] at horder
  constructor
  · refine ⟨rest.map Datagram.bytes, ?_, fun _ => by rw [hup']⟩
    rw [hsent, hverdicts, horder, List.map_append, List.append_assoc]
    rfl
  · intro hlong hfollows
    rw [hsent] at hlong hfollows
    obtain ⟨hpassed, hlast⟩ := h.gate hlong hfollows
    have hsize : 5 ≤ d.bytes.length := hlong d.bytes (by rw [horder]; simp)
    have hverdict := Broker.spinIteration_verdict net.text hsize hit
    have hexpected : verifyAndUpdateClientCounter s.broker.clientCounters (net.address i)
        (packetCounter d.bytes) =
        (true, Function.update s.broker.clientCounters (net.address i)
          (some (packetCounter d.bytes))) := by
      rw [horder, List.map_append, List.map_cons] at hfollows
      rw [verifyAndUpdateClientCounter, hlast]
      cases hbefore : ((s.ledger i).verdicts.map Prod.fst).getLast? with
      | none => rfl
      | some before =>
        have hchain : List.IsChain (fun c c' : BpCounter => c' = c + 1)
            (((s.ledger i).verdicts.map Prod.fst).map packetCounter ++
              packetCounter d.bytes :: (rest.map Datagram.bytes).map packetCounter) := hfollows
        have hnext := (List.isChain_append.mp hchain).2.2 (packetCounter before)
          (by rw [List.getLast?_map, hbefore]; rfl) _ rfl
        simp only [Option.map_some, hnext]
        exact if_neg (fun hne => hne rfl)
    rw [hexpected, Prod.mk.injEq] at hverdict
    rw [hverdicts, hbroker, hverdict.2, hverdict.1]
    refine ⟨fun v hv => ?_, ?_⟩
    · rcases List.mem_append.mp hv with hv | hv
      · exact hpassed v hv
      · rw [List.mem_singleton.mp hv]
    · rw [Function.update_self, List.map_append, List.map_singleton, List.getLast?_concat]
      rfl

variable [DecidableEq ι]

/-- A network that loses nothing delivers what was sent. -/
theorem step_judged (h : ∀ j, Judged net s j) {a : Action ι} (ha : a.IsLossless)
    (hstep : s.step net a = some s') (j : ι) : Judged net s' j := by
  cases a with
  | connect i =>
    obtain ⟨_, rfl⟩ := step_connect hstep
    by_cases hji : j = i
    · subst hji
      refine (h j).more ((advance net.text (s.node j) (Node.connect (s.node j))).2.2.map
        fun packet => ⟨packet, none⟩) rfl rfl ?_ ?_ ?_
      · simp [continueConnect]
      · simp [continueConnect, Ledger.transmit, Function.comp_def]
      · simp [continueConnect, Ledger.transmit]
    · refine (h j).more [] rfl rfl ?_ ?_ ?_
      · simp [continueConnect, hji]
      · simp [continueConnect, hji]
      · simp [continueConnect, hji]
  | rpcReturn i =>
    obtain ⟨resume, d, rest, _, _, hcases⟩ := step_rpcReturn hstep
    rcases hcases with ⟨fault, _, rfl⟩ | ⟨n, response, _, rfl⟩
    · exact (h j).more [] rfl rfl (List.append_nil _).symm (List.append_nil _).symm rfl
    · by_cases hji : j = i
      · subst hji
        refine (h j).more ((advance net.text n (resume n response)).2.2.map
          fun packet => ⟨packet, none⟩) rfl rfl ?_ ?_ ?_
        · simp [continueConnect]
        · simp [continueConnect, Ledger.transmit, Function.comp_def]
        · simp [continueConnect, Ledger.transmit]
      · refine (h j).more [] rfl rfl ?_ ?_ ?_
        · simp [continueConnect, hji]
        · simp [continueConnect, hji]
        · simp [continueConnect, hji]
  | broker i =>
    obtain ⟨hrunning, d, rest, hup, hcases⟩ := step_broker hstep
    rcases hcases with ⟨fault, _, rfl⟩ | ⟨it, hit, rfl⟩
    · obtain ⟨inFlight, horder, _⟩ := (h j).order
      refine ⟨⟨inFlight, horder, fun hrun => ?_⟩, (h j).gate⟩
      cases hrun
    · by_cases hji : j = i
      · subst hji
        refine (h j).broker hrunning hup hit rfl ?_ ?_ ?_
        · exact Function.update_self ..
        · simp [Ledger.judge]
        · simp [Ledger.judge]
      · have hother : net.address j ≠ net.address i := fun he => hji (net.address_injective he)
        obtain ⟨inFlight, horder, hflight⟩ := (h j).order
        constructor
        · refine ⟨inFlight, ?_, fun _ => ?_⟩
          · simpa [hji] using horder
          · simpa [hji] using hflight hrunning
        · simp only [Function.update_of_ne hji, clientCounters_other hit hother]
          exact (h j).gate
  | publish i k data =>
    obtain ⟨_, rfl⟩ := step_publish hstep
    by_cases hji : j = i
    · subst hji
      have hnothing : sentPackets [((s.node j).publish k data).2] = [] := by
        unfold Node.publish
        split <;> rfl
      refine (h j).more [] rfl rfl (List.append_nil _).symm ?_ ?_
      · simp only [Function.update_self, Ledger.record_sent, hnothing]
        rfl
      · simp only [Function.update_self, Ledger.record_verdicts]
    · refine (h j).more [] rfl rfl (List.append_nil _).symm ?_ ?_
      · simp [hji]
      · simp [hji]
  | spin i receive env =>
    obtain ⟨_, reception, origin, rest, _, hcases⟩ := step_spin hstep
    rcases hcases with ⟨fault, _, rfl⟩ | ⟨out, _, rfl⟩
    · exact (h j).more [] rfl rfl (List.append_nil _).symm (List.append_nil _).symm rfl
    · by_cases hji : j = i
      · subst hji
        refine (h j).more (dispatched j (s.ledger j).trace out.events) rfl rfl ?_ ?_ ?_
        · exact Function.update_self ..
        · simp only [Function.update_self, Ledger.recordAll_sent, map_dispatched]
        · simp only [Function.update_self, Ledger.recordAll_verdicts]
      · refine (h j).more [] rfl rfl ?_ ?_ ?_
        · simp [hji]
        · simp [hji]
        · simp [hji]
  | loseUp => exact ha.elim
  | loseDown => exact ha.elim

theorem trace_of_handshake {as : List (Action ι)} (hactions : ∀ a ∈ as, a.IsHandshake)
    (hrun : (initial nodes).run net as = some s) (i : ι) : (s.ledger i).trace = [] := by
  refine run_invariant (P := fun s => ∀ j, (s.ledger j).trace = []) (fun a ha s₁ s₂ h hstep j => ?_)
    (fun _ => rfl) hrun i
  have hkept : ∀ {k : ι} {n : Node} {m : Session Node Json Json Fault Bool} {s₃ : System ι},
      (∀ j, (s₃.ledger j).trace = []) → ((s₃.continueConnect net k n m).ledger j).trace = [] := by
    intro k n m s₃ h₃
    by_cases hjk : j = k
    · subst hjk
      simpa [continueConnect, Ledger.transmit] using h₃ j
    · simpa [continueConnect, hjk] using h₃ j
  cases a with
  | connect k =>
    obtain ⟨_, rfl⟩ := step_connect hstep
    exact hkept h
  | rpcReturn k =>
    obtain ⟨_, _, _, _, _, hcases⟩ := step_rpcReturn hstep
    rcases hcases with ⟨_, _, rfl⟩ | ⟨_, _, _, rfl⟩
    · exact h j
    · exact hkept h
  | broker k =>
    obtain ⟨_, _, _, _, hcases⟩ := step_broker hstep
    rcases hcases with ⟨_, _, rfl⟩ | ⟨_, _, rfl⟩
    · exact h j
    · by_cases hjk : j = k
      · subst hjk
        simpa [Ledger.judge] using h j
      · simpa [hjk] using h j
  | _ => exact (hactions _ ha).elim

/-- Callbacks do nothing, and every `sendto` has this result. -/
def sending (sent : Bool) : SpinEnvironment := ⟨fun _ _ _ => {}, fun _ _ => sent⟩

end System
end Crps
