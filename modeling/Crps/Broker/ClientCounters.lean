import Crps.Broker.Loop
import Crps.Foundation.CounterGate
import Crps.Foundation.JsonText
import Crps.Node.State

/-!
# The counter gate between a node and the broker

A node numbers its packets over both send paths; the broker admits a client's
first packet and then only the successor of the last one. Here the verdicts of
`verify_and_update_client_counter` are followed over whole arrival sequences,
first for arbitrary arrivals, then for one client that loses packets.
-/

namespace Crps

/-! ## What a node puts on the wire -/

/-- One use of the node's counter: a request or a data packet. -/
inductive NodeSend where
  | control (request : Json)
  | data (topicId : TopicId) (messageTypeId : MessageTypeId) (buffer : Bytes) (bufferSize : ℕ)

namespace Node

variable (text : JsonText) (n : Node)

def emit : NodeSend → Bytes × Node
  | .control request => n.sendControl text request
  | .data topicId messageTypeId buffer bufferSize =>
    n.sendData topicId messageTypeId buffer bufferSize

/-- The node before its `k`-th send. -/
def afterSends (sends : ℕ → NodeSend) : ℕ → Node
  | 0 => n
  | k + 1 => ((afterSends sends k).emit text (sends k)).2

/-- The `k`-th packet of a node, counted from zero. -/
def sentPacket (sends : ℕ → NodeSend) (k : ℕ) : Bytes :=
  ((n.afterSends text sends k).emit text (sends k)).1

@[simp] theorem emit_bpCounter (send : NodeSend) :
    (n.emit text send).2.bpCounter = n.bpCounter + 1 := by
  cases send <;> rfl

theorem afterSends_bpCounter (sends : ℕ → NodeSend) (k : ℕ) :
    (n.afterSends text sends k).bpCounter = n.bpCounter + UInt32.ofNat k := by
  induction k with
  | zero => simp [afterSends]
  | succ k ih => rw [afterSends, emit_bpCounter, ih, UInt32.ofNat_add, ← UInt32.add_assoc]; rfl

theorem packetCounter_fillDataHeader (c : BpCounter) (t : TopicId) (m : MessageTypeId)
    (s : UInt32) {buffer : Bytes} (h : 5 ≤ buffer.length) :
    packetCounter (bpFillDataHeader c t m s buffer) = c := by
  apply readBe32_of_bytes
  intro k hk
  have hlen : 1 + k < (bpFillDataHeader c t m s buffer).length := by
    simp only [bpFillDataHeader, length_overwrite]
    omega
  have hbuffer : 1 + k < buffer.length := by omega
  have hheader : 1 + k < (dataHeaderBytes c t m s).length := by
    rw [length_dataHeaderBytes]
    omega
  have hget : (dataHeaderBytes c t m s).getD (1 + k) buffer[1 + k] = (be32 c).getD k 0 := by
    have hcases : k = 0 ∨ k = 1 ∨ k = 2 ∨ k = 3 := by omega
    rcases hcases with rfl | rfl | rfl | rfl <;> rfl
  rw [Memory.load_of_lt _ hlen]
  simp only [bpFillDataHeader, overwrite, List.getElem_mapIdx, Nat.zero_le, if_true, Nat.sub_zero]
  exact hget

theorem emit_counter (send : NodeSend) (h : 5 ≤ (n.emit text send).1.length) :
    packetCounter (n.emit text send).1 = n.bpCounter + 1 := by
  cases send with
  | control request => exact packetCounter_control text request _
  | data topicId messageTypeId buffer bufferSize =>
    apply packetCounter_fillDataHeader
    simpa [emit, sendData, bpFillDataHeader] using h

/-- Both send paths draw on one counter: the `k`-th packet carries `k + 1` more
than the counter stood at. -/
theorem sentPacket_counter (sends : ℕ → NodeSend) (k : ℕ)
    (h : 5 ≤ (n.sentPacket text sends k).length) :
    packetCounter (n.sentPacket text sends k) = n.bpCounter + UInt32.ofNat (k + 1) := by
  rw [sentPacket, emit_counter _ _ _ h, afterSends_bpCounter, UInt32.ofNat_add,
    ← UInt32.add_assoc]
  rfl

end Node

/-! ## Verdicts over an arrival sequence -/

section Verdicts

variable {α : Type} (client : α → String) (packet : α → Bytes)

/-- The arrivals with the verdicts of `verify_and_update_client_counter` in turn. -/
def verdicts (counters : ClientCounters) : List α → List (α × Bool)
  | [] => []
  | a :: as =>
    let verified := verifyAndUpdateClientCounter counters (client a) (packetCounter (packet a))
    (a, verified.1) :: verdicts verified.2 as

/-- The arrivals that pass. -/
def accepted (counters : ClientCounters) (as : List α) : List α :=
  ((verdicts client packet counters as).filter Prod.snd).map Prod.fst

variable {client packet}

/-- The check is the gate whose items are packets and whose keys are addresses. -/
theorem verifyAndUpdateClientCounter_eq_check (counters : ClientCounters) (address : String)
    (c : BpCounter) : verifyAndUpdateClientCounter counters address c =
      CounterGate.check (· + 1) counters address c := by
  unfold verifyAndUpdateClientCounter CounterGate.check
  cases counters address with
  | none => rfl
  | some last => by_cases h : last + 1 = c <;> simp [h]

theorem verdicts_eq_judge (counters : ClientCounters) (as : List α) :
    verdicts client packet counters as =
      CounterGate.judge (· + 1) client (fun a => packetCounter (packet a)) counters as := by
  induction as generalizing counters with
  | nil => rfl
  | cons a as ih =>
    simp only [verdicts, CounterGate.judge, ih, verifyAndUpdateClientCounter_eq_check]

theorem accepted_eq_passed (counters : ClientCounters) (as : List α) :
    accepted client packet counters as =
      CounterGate.passed (· + 1) client (fun a => packetCounter (packet a)) counters as := by
  rw [accepted, verdicts_eq_judge]
  rfl

end Verdicts

namespace Broker

variable (text : JsonText)

theorem processData_passedCounter (b : Broker) (sendto : Sendto) (packet : Bytes)
    (header : BpDataHeader) :
    (processData b sendto packet header).disposal.passedCounter = true := by
  simp only [processData]
  split
  · rfl
  · split_ifs <;> rfl

/-- One iteration: the packet's counter decides, and nothing else touches the map. -/
theorem spinIteration_verdict {b : Broker} {sendto : Sendto} {client : String} {datagram : Bytes}
    {it : Iteration} (hsize : 5 ≤ datagram.length)
    (h : b.spinIteration text sendto client datagram = .ok it) :
    (it.disposal.passedCounter, it.broker.clientCounters) =
      verifyAndUpdateClientCounter b.clientCounters client (packetCounter datagram) := by
  obtain ⟨d, hd, hit⟩ := spinIteration_iterates h
  rw [← decode_counter text hsize b.buffer hd]
  cases hit with
  | refused hv => exact Prod.ext hv.symm rfl
  | invalid hv => exact Prod.ext hv.symm rfl
  | unknownType hv => exact Prod.ext hv.symm rfl
  | control hv _ hcontrol =>
    obtain ⟨reply, _, packet, _, rfl⟩ := processControl_ok hcontrol
    exact Prod.ext hv.symm rfl
  | data hv =>
    refine Prod.ext ((processData_passedCounter _ _ _ _).trans hv.symm) ?_
    rw [processData_broker]
    rfl

theorem spin_verdicts {α : Type} (arrival : α → Arrival) (b : Broker) (as : List α)
    (hsize : ∀ a ∈ as, 5 ≤ (arrival a).datagram.length) :
    (b.spin text (as.map arrival)).map (fun r => r.iteration.disposal.passedCounter) <+:
      (verdicts (fun a => (arrival a).client) (fun a => (arrival a).datagram) b.clientCounters
        as).map Prod.snd := by
  induction as generalizing b with
  | nil => exact List.prefix_refl _
  | cons a as ih =>
    rw [List.map_cons, spin]
    split
    · exact List.nil_prefix
    · rename_i it hit
      have hverdict := spinIteration_verdict text (hsize a (by simp)) hit
      simp only [verdicts, List.map_cons, ← hverdict]
      rw [List.prefix_cons_inj]
      split_ifs
      · exact List.nil_prefix
      · exact ih it.broker fun a' ha' => hsize a' (by simp [ha'])

end Broker

/-! ## Arrivals from many nodes -/

/-- A packet of a node as it reaches the broker: whose it is, its number there
and the `sendto` results of the iteration that handles it. -/
structure NodeArrival (ι : Type) where
  node : ι
  number : ℕ
  sendto : Sendto

section Nodes

variable {ι : Type} [DecidableEq ι]
variable (text : JsonText) (address : ι → String) (nodes : ι → Node)
variable (sends : ι → ℕ → NodeSend)

def NodeArrival.arrival (a : NodeArrival ι) : Arrival :=
  ⟨address a.node, (nodes a.node).sentPacket text (sends a.node) a.number, a.sendto⟩

/-- Verdicts of a broker that has just been started. -/
def nodeVerdicts (arrivals : List (NodeArrival ι)) : List (NodeArrival ι × Bool) :=
  verdicts (fun a => (a.arrival text address nodes sends).client)
    (fun a => (a.arrival text address nodes sends).datagram) Broker.started.clientCounters arrivals

def nodeAccepted (arrivals : List (NodeArrival ι)) : List (NodeArrival ι) :=
  ((nodeVerdicts text address nodes sends arrivals).filter Prod.snd).map Prod.fst

variable {text address nodes sends}

theorem nodeVerdicts_filter (hinj : Function.Injective address) (arrivals : List (NodeArrival ι))
    (i : ι) :
    (nodeVerdicts text address nodes sends arrivals).filter (fun p => p.1.node = i) =
      nodeVerdicts text address nodes sends (arrivals.filter fun a => a.node = i) := by
  have hstart : Broker.started.clientCounters (address i) =
      Broker.started.clientCounters (address i) := rfl
  have h := CounterGate.judge_filter (· + 1)
    (fun a : NodeArrival ι => (a.arrival text address nodes sends).client)
    (fun a => packetCounter (a.arrival text address nodes sends).datagram) hstart arrivals
  simpa only [nodeVerdicts, verdicts_eq_judge, NodeArrival.arrival, hinj.eq_iff] using h

theorem nodeAccepted_filter (hinj : Function.Injective address) (arrivals : List (NodeArrival ι))
    (i : ι) :
    (nodeAccepted text address nodes sends arrivals).filter (fun a => a.node = i) =
      nodeAccepted text address nodes sends (arrivals.filter fun a => a.node = i) := by
  rw [nodeAccepted, nodeAccepted, ← nodeVerdicts_filter hinj, List.filter_map, List.filter_filter,
    List.filter_filter]
  simp only [Function.comp_def, Bool.and_comm]

omit [DecidableEq ι] in
theorem arrival_counter {a : NodeArrival ι}
    (hsize : 5 ≤ (a.arrival text address nodes sends).datagram.length) :
    packetCounter (a.arrival text address nodes sends).datagram =
      (nodes a.node).bpCounter + UInt32.ofNat (a.number + 1) :=
  (nodes a.node).sentPacket_counter text (sends a.node) a.number hsize

theorem add_ofNat_inj {c : UInt32} {j k : ℕ} :
    c + UInt32.ofNat j = c + UInt32.ofNat k ↔ j % 2 ^ 32 = k % 2 ^ 32 := by
  rw [← UInt32.toNat_inj]
  simp only [UInt32.toNat_add, UInt32.toNat_ofNat']
  have hc := c.toNat_lt
  omega

theorem add_ofNat_succ (c : UInt32) (k : ℕ) :
    c + UInt32.ofNat k + 1 = c + UInt32.ofNat (k + 1) := by
  rw [UInt32.ofNat_add k 1, ← UInt32.add_assoc]
  rfl

omit [DecidableEq ι] in
theorem nodeVerdicts_of_consecutive {arrivals : List (NodeArrival ι)} {i : ι}
    (hsize : ∀ a ∈ arrivals, 5 ≤ (a.arrival text address nodes sends).datagram.length)
    (hown : ∀ a ∈ arrivals, a.node = i)
    (hchain : (arrivals.map NodeArrival.number).IsChain
      fun j k => (j + 1) % 2 ^ 32 = k % 2 ^ 32) :
    nodeVerdicts text address nodes sends arrivals = arrivals.map fun a => (a, true) := by
  rw [nodeVerdicts, verdicts_eq_judge]
  apply CounterGate.judge_of_follows (k := address i)
  · intro a ha
    rw [NodeArrival.arrival, hown a ha]
  · have hstamps : arrivals.map (fun a =>
        packetCounter (a.arrival text address nodes sends).datagram) =
        (arrivals.map NodeArrival.number).map fun k =>
          (nodes i).bpCounter + UInt32.ofNat (k + 1) := by
      rw [List.map_map]
      apply List.map_congr_left
      intro a ha
      rw [arrival_counter (hsize a ha), hown a ha]
      rfl
    have hstart : Broker.started.clientCounters (address i) = none := rfl
    rw [hstamps, hstart, CounterGate.Follows, Option.toList_none, List.nil_append,
      List.isChain_map]
    refine hchain.imp fun j k hjk => ?_
    rw [add_ofNat_succ, add_ofNat_inj]
    omega

omit [DecidableEq ι] in
theorem nodeAccepted_consecutive {arrivals : List (NodeArrival ι)} {i : ι}
    (hsize : ∀ a ∈ arrivals, 5 ≤ (a.arrival text address nodes sends).datagram.length)
    (hown : ∀ a ∈ arrivals, a.node = i) :
    ((nodeAccepted text address nodes sends arrivals).map NodeArrival.number).IsChain
      fun j k => (j + 1) % 2 ^ 32 = k % 2 ^ 32 := by
  have hpassed : nodeAccepted text address nodes sends arrivals =
      CounterGate.passed (· + 1) (fun a : NodeArrival ι =>
        (a.arrival text address nodes sends).client)
        (fun a => packetCounter (a.arrival text address nodes sends).datagram)
        Broker.started.clientCounters arrivals := accepted_eq_passed _ _
  have hkey : ∀ a ∈ arrivals, (a.arrival text address nodes sends).client = address i :=
    fun a ha => by rw [NodeArrival.arrival, hown a ha]
  have hfollows := CounterGate.passed_follows (· + 1)
    (fun a : NodeArrival ι => (a.arrival text address nodes sends).client)
    (fun a => packetCounter (a.arrival text address nodes sends).datagram)
    (s := Broker.started.clientCounters) hkey
  rw [← hpassed] at hfollows
  have hstart : Broker.started.clientCounters (address i) = none := rfl
  rw [hstart, CounterGate.Follows, Option.toList_none, List.nil_append, List.isChain_map]
    at hfollows
  rw [List.isChain_map]
  refine hfollows.imp_of_mem_imp fun a b ha hb hab => ?_
  rw [hpassed] at ha hb
  have ha' := CounterGate.mem_of_mem_passed ha
  have hb' := CounterGate.mem_of_mem_passed hb
  rw [arrival_counter (hsize a ha'), arrival_counter (hsize b hb'), hown a ha', hown b hb',
    add_ofNat_succ, add_ofNat_inj] at hab
  omega

/-- Processing by the broker is per client, in sending order and at most once,
and a stream without losses is never rejected. -/
theorem counterCheck_perClient (hinj : Function.Injective address)
    (arrivals : List (NodeArrival ι))
    (hsize : ∀ a ∈ arrivals, 5 ≤ (a.arrival text address nodes sends).datagram.length) :
    ((Broker.started.spin text (arrivals.map (NodeArrival.arrival text address nodes sends))).map
        (fun r => r.iteration.disposal.passedCounter) <+:
      (nodeVerdicts text address nodes sends arrivals).map Prod.snd) ∧
    ∀ i : ι,
      (nodeVerdicts text address nodes sends arrivals).filter (fun p => p.1.node = i) =
        nodeVerdicts text address nodes sends (arrivals.filter fun a => a.node = i) ∧
      ((∀ a ∈ arrivals, a.node = i → a.number + 1 < 2 ^ 32) →
        (((nodeAccepted text address nodes sends arrivals).filter fun a => a.node = i).map
          NodeArrival.number).Pairwise (· < ·)) ∧
      ∀ m : ℕ, (arrivals.filter fun a => a.node = i).map NodeArrival.number = List.range m →
        ∀ p ∈ nodeVerdicts text address nodes sends arrivals, p.1.node = i → p.2 = true := by
  refine ⟨Broker.spin_verdicts text _ _ arrivals hsize, fun i => ?_⟩
  have hown : ∀ a ∈ arrivals.filter (fun a => a.node = i), a.node = i := fun a ha => by
    simpa using (List.mem_filter.mp ha).2
  have hsizes : ∀ a ∈ arrivals.filter (fun a => a.node = i),
      5 ≤ (a.arrival text address nodes sends).datagram.length := fun a ha =>
    hsize a (List.mem_filter.mp ha).1
  refine ⟨nodeVerdicts_filter hinj arrivals i, fun hfew => ?_, fun m hm p hp hi => ?_⟩
  · rw [nodeAccepted_filter hinj]
    have hchain := nodeAccepted_consecutive hsizes hown
    rw [← List.isChain_iff_pairwise]
    rw [List.isChain_map] at hchain ⊢
    refine hchain.imp_of_mem_imp fun a b ha hb hab => ?_
    have hmem : ∀ a ∈ nodeAccepted text address nodes sends (arrivals.filter fun a => a.node = i),
        a.number + 1 < 2 ^ 32 := by
      intro a ha
      rw [nodeAccepted, nodeVerdicts, verdicts_eq_judge] at ha
      have ha' := CounterGate.mem_of_mem_passed ha
      exact hfew a (List.mem_filter.mp ha').1 (hown a ha')
    have hlt := hmem a ha
    have hlt' := hmem b hb
    omega
  · have hpass := nodeVerdicts_of_consecutive hsizes hown (by
      rw [hm]
      cases m with
      | zero => simp
      | succ m =>
        rw [List.isChain_range_succ]
        exact fun _ _ => rfl)
    have hmem : p ∈ (nodeVerdicts text address nodes sends arrivals).filter
        (fun p => p.1.node = i) := List.mem_filter.mpr ⟨hp, by simpa using hi⟩
    rw [nodeVerdicts_filter hinj, hpass] at hmem
    obtain ⟨a, _, rfl⟩ := List.mem_map.mp hmem
    rfl

end Nodes

/-- Two clients for concrete runs. -/
def pairAddress : Bool → String
  | false => "10.0.0.2:40001"
  | true => "10.0.0.3:40001"

theorem pairAddress_injective : Function.Injective pairAddress := by
  intro i j h
  cases i <;> cases j <;> simp_all [pairAddress]

def pairNodes : Bool → Node
  | false => .create "talker"
  | true => .create "listener"

def pairSends : Bool → ℕ → NodeSend := fun _ _ => .control .null

theorem pairSends_size (i : Bool) (k : ℕ) :
    5 ≤ ((pairNodes i).sentPacket compactJson (pairSends i) k).length := by
  simp only [Node.sentPacket, Node.emit, pairSends, Node.sendControl, length_controlPacket]
  omega

/-- The two clients' packets interleaved, one of them duplicated. -/
def pairArrivals : List (NodeArrival Bool) :=
  [⟨false, 0, fun _ _ _ => true⟩, ⟨true, 4, fun _ _ _ => true⟩, ⟨false, 1, fun _ _ _ => true⟩,
    ⟨false, 0, fun _ _ _ => true⟩]

theorem counterCheck_perClient_pair :
    (nodeVerdicts compactJson pairAddress pairNodes pairSends pairArrivals).filter
        (fun p => p.1.node = false) =
      nodeVerdicts compactJson pairAddress pairNodes pairSends
        (pairArrivals.filter fun a => a.node = false) ∧
    (((nodeAccepted compactJson pairAddress pairNodes pairSends pairArrivals).filter
      fun a => a.node = false).map NodeArrival.number).Pairwise (· < ·) := by
  have h := (@counterCheck_perClient _ _ compactJson _ pairNodes pairSends pairAddress_injective
    pairArrivals fun a _ => pairSends_size a.node a.number).2 false
  exact ⟨h.1, h.2.1 (by decide)⟩

/-! ## Loss -/

/-- Numbers below `m` of the packets that are not lost. -/
def survivors (lost : Finset ℕ) (m : ℕ) : List ℕ := (List.range m).filter (· ∉ lost)

/-- Maximal runs of lost packets. -/
def gaps (lost : Finset ℕ) : ℕ := (lost.filter fun l => l + 1 ∉ lost).card

/-- Every run of losses after the first arrival has a length divisible by `2 ^ 32`. -/
def GapsWrap (lost : Finset ℕ) : Prop :=
  ∀ j k, j ∉ lost → k ∉ lost → j < k → (∀ l, j < l → l < k → l ∈ lost) →
    (j + 1) % 2 ^ 32 = k % 2 ^ 32

section Loss

variable {ι : Type} [DecidableEq ι]
variable (text : JsonText) (address : ι → String) (nodes : ι → Node)
variable (sends : ι → ℕ → NodeSend)

/-- The packets of node `i` below `m` reach the broker in order, without the lost ones. -/
structure InOrderWithout (i : ι) (lost : Finset ℕ) (m : ℕ) (arrivals : List (NodeArrival ι)) :
    Prop where
  size : ∀ a ∈ arrivals, 5 ≤ (a.arrival text address nodes sends).datagram.length
  numbers : (arrivals.filter fun a => a.node = i).map NodeArrival.number = survivors lost m

/-- Refused packets of node `i` behind the last loss. -/
def refusedAfterLoss (i : ι) (lost : Finset ℕ) (arrivals : List (NodeArrival ι)) : ℕ :=
  (nodeVerdicts text address nodes sends arrivals).countP fun p =>
    p.1.node = i ∧ p.2 = false ∧ ∀ l ∈ lost, l < p.1.number

/-- After the last loss at most one packet is refused for each gap. -/
def Recovers (i : ι) (lost : Finset ℕ) : Prop :=
  ∀ m arrivals, InOrderWithout text address nodes sends i lost m arrivals →
    refusedAfterLoss text address nodes sends i lost arrivals ≤ gaps lost

variable {text address nodes sends}

theorem isChain_survivors {lost : Finset ℕ} (h : GapsWrap lost) (m : ℕ) :
    (survivors lost m).IsChain fun j k => (j + 1) % 2 ^ 32 = k % 2 ^ 32 := by
  induction m with
  | zero => simp [survivors]
  | succ m ih =>
    have hsplit : survivors lost (m + 1) = survivors lost m ++ if m ∈ lost then [] else [m] := by
      simp only [survivors, List.range_succ, List.filter_append, List.filter_singleton]
      split_ifs <;> simp_all
    rw [hsplit]
    split_ifs with hm
    · rw [List.append_nil]
      exact ih
    · refine List.isChain_append.mpr ⟨ih, List.isChain_singleton _, fun j hj k hk => ?_⟩
      obtain rfl : m = k := by simpa using hk
      obtain ⟨init, hinit⟩ := List.getLast?_eq_some_iff.mp hj
      have hjmem : j ∈ survivors lost m := by simp [hinit]
      have hjs := List.mem_filter.mp hjmem
      refine h j m (by simpa using hjs.2) hm (List.mem_range.mp hjs.1) fun l hjl hlm => ?_
      by_contra hl
      have hlmem : l ∈ survivors lost m :=
        List.mem_filter.mpr ⟨List.mem_range.mpr hlm, by simpa using hl⟩
      have hsorted : (survivors lost m).Pairwise (· < ·) := List.pairwise_lt_range.filter _
      rw [hinit] at hlmem hsorted
      rcases List.mem_append.mp hlmem with hl' | hl'
      · have hlt := (List.pairwise_append.mp hsorted).2.2 l hl' j (by simp)
        omega
      · have : l = j := by simpa using hl'
        omega

theorem nodeVerdicts_of_gapsWrap (hinj : Function.Injective address) {i : ι} {lost : Finset ℕ}
    {m : ℕ} {arrivals : List (NodeArrival ι)} (hwrap : GapsWrap lost)
    (h : InOrderWithout text address nodes sends i lost m arrivals) :
    ∀ p ∈ nodeVerdicts text address nodes sends arrivals, p.1.node = i → p.2 = true := by
  intro p hp hi
  have hsize : ∀ a ∈ arrivals.filter (fun a => a.node = i),
      5 ≤ (a.arrival text address nodes sends).datagram.length :=
    fun a ha => h.size a (List.mem_filter.mp ha).1
  have hpass := nodeVerdicts_of_consecutive hsize
    (fun a ha => by simpa using (List.mem_filter.mp ha).2)
    (h.numbers ▸ isChain_survivors hwrap m)
  have hmem : p ∈ (nodeVerdicts text address nodes sends arrivals).filter
      (fun p => p.1.node = i) := List.mem_filter.mpr ⟨hp, by simpa using hi⟩
  rw [nodeVerdicts_filter hinj, hpass] at hmem
  obtain ⟨a, _, rfl⟩ := List.mem_map.mp hmem
  rfl

omit [DecidableEq ι] in
/-- A stream that loses packet `l` after its start is refused until the counter
comes round again. -/
theorem nodeVerdicts_stalled {i : ι} {x l : ℕ} {rest : List ℕ} (hxl : x ≤ l)
    (hsize : ∀ k, 5 ≤ ((nodes i).sentPacket text (sends i) k).length)
    (hrest : ∀ k ∈ rest, l + 1 < k ∧ k < l + 1 + 2 ^ 32) (sendto : Sendto) :
    nodeVerdicts text address nodes sends
        ((List.range' x (l + 1 - x) ++ rest).map fun k => ⟨i, k, sendto⟩) =
      (List.range' x (l + 1 - x)).map (fun k => (⟨i, k, sendto⟩, true)) ++
        rest.map fun k => (⟨i, k, sendto⟩, false) := by
  set arrive : ℕ → NodeArrival ι := fun k => ⟨i, k, sendto⟩ with harrive
  have hstamp : ∀ k, packetCounter ((arrive k).arrival text address nodes sends).datagram =
      (nodes i).bpCounter + UInt32.ofNat (k + 1) := fun k =>
    (nodes i).sentPacket_counter text (sends i) k (hsize k)
  have hstart : nodeVerdicts text address nodes sends ((List.range' x (l + 1 - x)).map arrive) =
      ((List.range' x (l + 1 - x)).map arrive).map fun a => (a, true) := by
    apply nodeVerdicts_of_consecutive (i := i)
    · intro a ha
      obtain ⟨k, _, rfl⟩ := List.mem_map.mp ha
      exact hsize k
    · intro a ha
      obtain ⟨k, _, rfl⟩ := List.mem_map.mp ha
      rfl
    · have hnumbers : ((List.range' x (l + 1 - x)).map arrive).map NodeArrival.number =
          List.range' x (l + 1 - x) := by
        rw [List.map_map]
        exact List.map_id _
      rw [hnumbers]
      exact (List.isChain_range' x (l + 1 - x) 1).imp fun j k hjk => by rw [hjk]
  have hsplit : List.range' x (l + 1 - x) = List.range' x (l - x) ++ [l] := by
    have hlen : l + 1 - x = l - x + 1 := by omega
    rw [hlen, List.range'_concat]
    congr 2
    omega
  have hafter : CounterGate.after (· + 1)
      (fun a : NodeArrival ι => (a.arrival text address nodes sends).client)
      (fun a => packetCounter (a.arrival text address nodes sends).datagram)
      Broker.started.clientCounters ((List.range' x (l + 1 - x)).map arrive) (address i) =
        some ((nodes i).bpCounter + UInt32.ofNat (l + 1)) := by
    rw [hsplit, List.map_append, List.map_singleton,
      CounterGate.after_of_follows (k := address i)]
    · rw [hstamp]
    · intro a ha
      rw [← List.map_singleton, ← List.map_append] at ha
      obtain ⟨k, _, rfl⟩ := List.mem_map.mp ha
      rfl
    · rw [← List.map_singleton (f := arrive), ← List.map_append, ← hsplit]
      have hstarted : Broker.started.clientCounters (address i) = none := rfl
      rw [hstarted, CounterGate.Follows, Option.toList_none, List.nil_append, List.isChain_map,
        List.isChain_map]
      refine (List.isChain_range' x (l + 1 - x) 1).imp fun j k hjk => ?_
      rw [hstamp, hstamp, hjk]
      exact (add_ofNat_succ _ _).symm
  have hkey : ∀ a ∈ rest.map arrive,
      (a.arrival text address nodes sends).client = address i := by
    intro a ha
    obtain ⟨k, _, rfl⟩ := List.mem_map.mp ha
    rfl
  have hrefused := CounterGate.judge_refused (· + 1)
    (fun a : NodeArrival ι => (a.arrival text address nodes sends).client)
    (fun a => packetCounter (a.arrival text address nodes sends).datagram) hkey hafter (by
      intro a ha
      obtain ⟨k, hk, rfl⟩ := List.mem_map.mp ha
      rw [hstamp, add_ofNat_succ, ne_eq, add_ofNat_inj]
      have hk' := hrest k hk
      omega)
  rw [List.map_append, nodeVerdicts, verdicts_eq_judge, CounterGate.judge_append, hrefused,
    ← verdicts_eq_judge]
  rw [nodeVerdicts] at hstart
  rw [hstart, List.map_map, List.map_map]
  rfl

theorem gaps_le_card (lost : Finset ℕ) : gaps lost ≤ lost.card := Finset.card_filter_le _ _

theorem gapsWrap_range (n : ℕ) : GapsWrap (Finset.range n) := by
  intro j k hj hk hjk hbetween
  simp only [Finset.mem_range, not_lt] at hj hk
  have hnext : k = j + 1 := by
    by_contra hne
    have hl := hbetween (j + 1) (by omega) (by omega)
    rw [Finset.mem_range] at hl
    omega
  rw [hnext]

theorem exists_first_loss {lost : Finset ℕ} (h : ¬ ∃ n, lost = Finset.range n) :
    ∃ x l, x ≤ l ∧ l + 1 ∈ lost ∧ (∀ k < x, k ∈ lost) ∧ ∀ k, x ≤ k → k ≤ l → k ∉ lost := by
  have hfinite : ∃ x, x ∉ lost := Infinite.exists_notMem_finset lost
  classical
  have hx := Nat.find_spec hfinite
  have hbelow : ∀ k < Nat.find hfinite, k ∈ lost := fun k hk => by
    simpa using Nat.find_min hfinite hk
  have hlater : ∃ l, Nat.find hfinite ≤ l ∧ l + 1 ∈ lost := by
    by_contra hnone
    push Not at hnone
    refine h ⟨Nat.find hfinite, Finset.ext fun k => ?_⟩
    rw [Finset.mem_range]
    refine ⟨fun hk => ?_, hbelow k⟩
    by_contra hge
    have hne : k ≠ Nat.find hfinite := fun he => hx (he ▸ hk)
    have hk' : k - 1 + 1 = k := by omega
    exact hnone (k - 1) (by omega) (by rwa [hk'])
  refine ⟨Nat.find hfinite, Nat.find hlater, (Nat.find_spec hlater).1, (Nat.find_spec hlater).2,
    hbelow, fun k hk hkl hlost => ?_⟩
  have hne : k ≠ Nat.find hfinite := fun he => hx (he ▸ hlost)
  have hk' : k - 1 + 1 = k := by omega
  exact Nat.find_min hlater (show k - 1 < _ by omega) ⟨by omega, by rwa [hk']⟩

theorem survivors_split {lost : Finset ℕ} {x l m : ℕ} (hxl : x ≤ l) (hm : l + 1 ≤ m)
    (hbelow : ∀ k < x, k ∈ lost) (hbetween : ∀ k, x ≤ k → k ≤ l → k ∉ lost) :
    survivors lost m =
      List.range' x (l + 1 - x) ++ (List.range' (l + 1) (m - (l + 1))).filter (· ∉ lost) := by
  have hsplit : List.range m =
      List.range' 0 x ++ (List.range' x (l + 1 - x) ++ List.range' (l + 1) (m - (l + 1))) := by
    have h1 := List.range'_append_1 (s := x) (m := l + 1 - x) (n := m - (l + 1))
    have h2 := List.range'_append_1 (s := 0) (m := x) (n := m - x)
    have e1 : x + (l + 1 - x) = l + 1 := by omega
    have e2 : l + 1 - x + (m - (l + 1)) = m - x := by omega
    have e3 : 0 + x = x := by omega
    have e4 : x + (m - x) = m := by omega
    rw [e1, e2] at h1
    rw [e3, e4] at h2
    rw [h1, h2, List.range_eq_range']
  have hlow : (List.range' 0 x).filter (· ∉ lost) = [] := by
    rw [List.filter_eq_nil_iff]
    intro k hk
    have hk' := List.mem_range'_1.mp hk
    simpa using hbelow k (by omega)
  have hmid : (List.range' x (l + 1 - x)).filter (· ∉ lost) = List.range' x (l + 1 - x) := by
    rw [List.filter_eq_self]
    intro k hk
    have hk' := List.mem_range'_1.mp hk
    simpa using hbetween k (by omega) (by omega)
  rw [survivors, hsplit, List.filter_append, List.filter_append, hlow, hmid, List.nil_append]

/-- A loss behind a survivor mutes the client for almost a whole round. -/
theorem not_recovers {i : ι} {lost : Finset ℕ} {x l : ℕ}
    (hsize : ∀ k, 5 ≤ ((nodes i).sentPacket text (sends i) k).length)
    (hbound : ∀ k ∈ lost, k < 2 ^ 31) (hxl : x ≤ l) (hl : l + 1 ∈ lost)
    (hbelow : ∀ k < x, k ∈ lost) (hbetween : ∀ k, x ≤ k → k ≤ l → k ∉ lost) :
    ¬ Recovers text address nodes sends i lost := by
  intro hrecovers
  have hl' := hbound _ hl
  obtain ⟨half, hhalf⟩ : ∃ half, half = 2 ^ 31 := ⟨_, rfl⟩
  rw [← hhalf] at hbound hl'
  have hround : 2 ^ 32 = half + half := by omega
  set m := l + 1 + 2 * half with hm
  let arrive : ℕ → NodeArrival ι := fun k => ⟨i, k, fun _ _ _ => true⟩
  have hsplit := survivors_split hxl (m := m) (by omega) hbelow hbetween
  set rest := (List.range' (l + 1) (m - (l + 1))).filter (· ∉ lost) with hrest
  have hbehind : ∀ k ∈ rest, l + 1 < k ∧ k < l + 1 + 2 ^ 32 := by
    intro k hk
    have hk' := List.mem_filter.mp hk
    have hrange := List.mem_range'_1.mp hk'.1
    have hne : k ≠ l + 1 := by
      rintro rfl
      simp [hl] at hk'
    omega
  have hstalled := @nodeVerdicts_stalled _ text address nodes sends _ _ _ _ hxl hsize hbehind
    fun _ _ _ => true
  have hin : InOrderWithout text address nodes sends i lost m ((survivors lost m).map arrive) := by
    refine ⟨fun a ha => ?_, ?_⟩
    · obtain ⟨k, _, rfl⟩ := List.mem_map.mp ha
      exact hsize k
    · rw [List.filter_map, List.map_map]
      have hall : ((fun a => decide (a.node = i)) ∘ arrive) = fun _ => true := by
        funext k
        simp [arrive]
      rw [hall, List.filter_true]
      exact List.map_id _
  have hcount := hrecovers m _ hin
  have htail : (List.range' half (m - half)).Sublist rest := by
    have hparts := List.range'_append_1 (s := l + 1) (m := half - (l + 1)) (n := m - half)
    have e1 : l + 1 + (half - (l + 1)) = half := by omega
    have e2 : half - (l + 1) + (m - half) = m - (l + 1) := by omega
    rw [e1, e2] at hparts
    rw [hrest, ← hparts, List.filter_append]
    have hkeep : (List.range' half (m - half)).filter (· ∉ lost) =
        List.range' half (m - half) := by
      rw [List.filter_eq_self]
      intro k hk
      have hk' := (List.mem_range'_1.mp hk).1
      simp only [decide_eq_true_eq]
      intro hlost
      have := hbound k hlost
      omega
    rw [hkeep]
    exact List.sublist_append_right _ _
  have hrefused : m - half ≤
      refusedAfterLoss text address nodes sends i lost ((survivors lost m).map arrive) := by
    rw [refusedAfterLoss, hsplit, hstalled, List.countP_append]
    refine le_trans ?_ (Nat.le_add_left _ _)
    rw [List.countP_map]
    refine le_trans ?_ (htail.countP_le)
    rw [List.countP_eq_length.mpr, List.length_range']
    intro k hk
    have hk' := (List.mem_range'_1.mp hk).1
    simp only [Function.comp_apply, decide_eq_true_eq, true_and]
    intro j hj
    have := hbound j hj
    omega
  have hcard : lost.card ≤ half := by
    calc
      lost.card ≤ (Finset.range half).card :=
        Finset.card_le_card fun k hk => Finset.mem_range.mpr (hbound k hk)
      _ = half := Finset.card_range half
  have hgaps := gaps_le_card lost
  omega

/-- When the broker recovers from loss: always if every gap behind the first
arrival wraps around, and, for losses in the first `2 ^ 31` packets, only if the
lost packets are the very first ones. -/
theorem counterCheck_recovery (hinj : Function.Injective address) {i : ι}
    (hsize : ∀ k, 5 ≤ ((nodes i).sentPacket text (sends i) k).length) (lost : Finset ℕ) :
    (GapsWrap lost → Recovers text address nodes sends i lost ∧
      ∀ m arrivals, InOrderWithout text address nodes sends i lost m arrivals →
        ∀ p ∈ nodeVerdicts text address nodes sends arrivals, p.1.node = i → p.2 = true) ∧
    ((∀ l ∈ lost, l < 2 ^ 31) →
      (Recovers text address nodes sends i lost ↔ ∃ n, lost = Finset.range n)) := by
  have hwraps : GapsWrap lost → Recovers text address nodes sends i lost := by
    intro hwrap m arrivals harrivals
    have hnone : refusedAfterLoss text address nodes sends i lost arrivals = 0 := by
      rw [refusedAfterLoss, List.countP_eq_zero]
      intro p hp
      simp only [decide_eq_true_eq, not_and]
      intro hi hrefused
      rw [nodeVerdicts_of_gapsWrap hinj hwrap harrivals p hp hi] at hrefused
      cases hrefused
    omega
  refine ⟨fun hwrap => ⟨hwraps hwrap, fun m arrivals => nodeVerdicts_of_gapsWrap hinj hwrap⟩,
    fun hbound => ⟨fun hrecovers => ?_, ?_⟩⟩
  · by_contra hrange
    obtain ⟨x, l, hxl, hl, hbelow, hbetween⟩ := exists_first_loss hrange
    exact not_recovers hsize hbound hxl hl hbelow hbetween hrecovers
  · rintro ⟨n, rfl⟩
    exact hwraps (gapsWrap_range n)

theorem counterCheck_recovery_late_start :
    Recovers compactJson pairAddress pairNodes pairSends false {0, 1} :=
  ((counterCheck_recovery pairAddress_injective (pairSends_size false) {0, 1}).2 (by decide)).mpr
    ⟨2, by decide⟩

/-- The second packet is lost: the broker goes on to refuse the third and the fourth. -/
theorem counterCheck_recovery_fails :
    ¬ ∀ lost : Finset ℕ, Recovers compactJson pairAddress pairNodes pairSends false lost := by
  intro h
  have hin : InOrderWithout compactJson pairAddress pairNodes pairSends false {1} 4
      [⟨false, 0, fun _ _ _ => true⟩, ⟨false, 2, fun _ _ _ => true⟩,
        ⟨false, 3, fun _ _ _ => true⟩] := ⟨fun a _ => pairSends_size a.node a.number, by decide⟩
  have hrefused := h {1} 4 _ hin
  revert hrefused
  decide

end Loss

end Crps
