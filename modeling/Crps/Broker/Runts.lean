import Crps.Broker.ClientCounters
import Crps.Broker.Service
import Crps.Foundation.GateNoise
import Crps.Protocol.Framing

/-!
# Datagrams without a header

A datagram shorter than its header leaves the decoder's header at zero, and
the loop looks at that counter before it looks at the type. Two runs are
compared, on a sequence of datagrams and on the same sequence with such runts
put in between.
-/

namespace Crps

open CounterGate (Noisy)

/-- A datagram of the sequence, or a runt put in between. -/
inductive Traffic where
  | original (a : Arrival)
  | runt (a : Arrival) (short : a.datagram.length < bpHeaderSize)

namespace Traffic

def arrival : Traffic → Arrival
  | original a => a
  | runt a _ => a

def isOriginal : Traffic → Bool
  | original _ => true
  | runt _ _ => false

/-- What the counter check is told of it. -/
def noisy : Traffic → Noisy String BpCounter
  | original a =>
    if a.datagram.length < bpHeaderSize then .unstamped a.client
    else .stamped a.client (packetCounter a.datagram)
  | runt a _ => .noise a.client

/-- The sequence without the runts. -/
def originals (ts : List Traffic) : List Traffic := ts.filter isOriginal

theorem originals_noisy (ts : List Traffic) :
    (originals ts).map noisy = CounterGate.Noisy.quiet (ts.map noisy) := by
  rw [originals, CounterGate.Noisy.quiet, List.filter_map]
  congr 2
  funext t
  cases t with
  | runt => rfl
  | original a =>
    simp only [isOriginal, Function.comp, noisy]
    split_ifs <;> rfl

end Traffic

namespace Broker

variable (text : JsonText)

/-- What the broker sends in reply to, or on behalf of, each original datagram. -/
def outputs (b : Broker) (ts : List Traffic) : List (List SendAttempt) :=
  ((b.spin text (ts.map Traffic.arrival)).zip ts).filterMap fun p =>
    if p.2.isOriginal then some p.1.iteration.attempts else none

variable {text}

theorem outputs_of_error {b : Broker} {t : Traffic} {fault : Fault}
    (h : b.spinIteration text t.arrival.sendto t.arrival.client t.arrival.datagram = .error fault)
    (ts : List Traffic) : b.outputs text (t :: ts) = [] := by
  simp only [outputs, List.map_cons, spin, h, List.zip_nil_left, List.filterMap_nil]

theorem outputs_of_ok {b : Broker} {t : Traffic} {it : Iteration}
    (h : b.spinIteration text t.arrival.sendto t.arrival.client t.arrival.datagram = .ok it)
    (ts : List Traffic) :
    b.outputs text (t :: ts) = (if t.isOriginal then [it.attempts] else []) ++
      if it.stopped then [] else it.broker.outputs text ts := by
  simp only [outputs, List.map_cons, spin, h, List.zip_cons_cons, List.filterMap_cons]
  cases t.isOriginal <;> cases it.stopped <;> simp

/-! ## One iteration of either run -/

/-- The brokers of the two runs, but for the counters. A runt reaches four bytes of the buffer. -/
structure Alike (b b' : Broker) : Prop where
  tables : b.tables = b'.tables
  buffer : ∀ k ≥ 4, b.buffer k = b'.buffer k

theorem Alike.load {b b' : Broker} (h : b.Alike b') {datagram : Bytes}
    (hn : 5 ≤ datagram.length) :
    Memory.load datagram b.buffer = Memory.load datagram b'.buffer := by
  funext k
  by_cases hk : k < datagram.length
  · rw [Memory.load_of_lt _ hk, Memory.load_of_lt _ hk]
  · rw [Memory.load_of_le _ (by omega), Memory.load_of_le _ (by omega)]
    exact h.buffer k (by omega)

theorem spinIteration_short {b : Broker} {sendto : Sendto} {client : String} {datagram : Bytes}
    (hn : datagram.length < 5) :
    ∃ it, b.spinIteration text sendto client datagram = .ok it ∧ it.attempts = [] ∧
      it.stopped = false ∧ it.broker = b.checked client datagram 0 := by
  have hd := decode_short text hn b.buffer
  simp only [spinIteration, hd, bind, Except.bind]
  cases (verifyAndUpdateClientCounter b.clientCounters client 0).1 with
  | false => exact ⟨_, rfl, rfl, rfl, rfl⟩
  | true => exact ⟨_, rfl, rfl, rfl, rfl⟩

theorem Alike.short {b b' : Broker} (h : b.Alike b') {datagram : Bytes}
    (hn : datagram.length < 5) (client : String) : b.Alike (b'.checked client datagram 0) where
  tables := h.tables
  buffer k hk := by
    simp only [checked]
    rw [Memory.load_of_le _ (by omega), h.buffer k hk]

theorem Alike.checked {b b' : Broker} (h : b.Alike b') (datagram : Bytes)
    (hload : ∀ k ≥ 4, Memory.load datagram b.buffer k = Memory.load datagram b'.buffer k)
    (client : String) (c : BpCounter) :
    (b.checked client datagram c).Alike (b'.checked client datagram c) where
  tables := h.tables
  buffer := hload

theorem processData_alike {b b' : Broker} (h : b.Alike b') (sendto : Sendto) (packet : Bytes)
    (header : BpDataHeader) :
    (processData b sendto packet header).attempts = (processData b' sendto packet header).attempts ∧
      (processData b sendto packet header).stopped =
        (processData b' sendto packet header).stopped := by
  simp only [processData, h.tables]
  split
  · exact ⟨rfl, rfl⟩
  · split_ifs <;> exact ⟨rfl, rfl⟩

/-- How an iteration of one run compares with that of the other. -/
inductive SameButCounters : Except Fault Iteration → Except Fault Iteration → Prop
  | faults (fault : Fault) : SameButCounters (.error fault) (.error fault)
  | completes {it it' : Iteration} : it.attempts = it'.attempts → it.stopped = it'.stopped →
      it.broker.Alike it'.broker → SameButCounters (.ok it) (.ok it')

theorem processControl_alike {b b' : Broker} (h : b.Alike b') {client : String}
    (hcounter : b.clientCounters client = b'.clientCounters client) (sendto : Sendto)
    (request : Json) :
    SameButCounters (processControl text b sendto client request)
      (processControl text b' sendto client request) := by
  simp only [processControl, h.tables, hcounter]
  cases b'.tables.processControlRequest client request with
  | error fault => exact .faults fault
  | ok reply => exact .completes rfl rfl ⟨rfl, h.buffer⟩

/-- On an original with a header the two runs differ by the verdict only. -/
theorem spinIteration_alike {b b' : Broker} (h : b.Alike b') {a : Arrival}
    (hn : 5 ≤ a.datagram.length)
    (hverdict :
      (verifyAndUpdateClientCounter b.clientCounters a.client (packetCounter a.datagram)).1 =
        (verifyAndUpdateClientCounter b'.clientCounters a.client (packetCounter a.datagram)).1) :
    SameButCounters (b.spinIteration text a.sendto a.client a.datagram)
      (b'.spinIteration text a.sendto a.client a.datagram) := by
  have hload := h.load hn
  cases hd : decodePacketBuffer text (Memory.load a.datagram b.buffer) a.datagram.length with
  | error fault =>
    have hd' := hload ▸ hd
    simp only [spinIteration, hd, hd', bind, Except.bind]
    exact .faults fault
  | ok d =>
    have hd' := hload ▸ hd
    have hcounter := decode_counter text hn b.buffer hd
    have hchecked := h.checked a.datagram (fun k _ => congrFun hload k) a.client
      d.header.counter
    rw [← hcounter] at hverdict
    simp only [spinIteration, hd, hd', bind, Except.bind]
    cases hpass : (verifyAndUpdateClientCounter b.clientCounters a.client d.header.counter).1 with
    | false =>
      rw [hpass] at hverdict
      rw [← hverdict]
      exact .completes rfl rfl hchecked
    | true =>
      rw [hpass] at hverdict
      rw [← hverdict]
      simp only [Bool.not_true, Bool.false_eq_true, if_false, Memory.slice_load_self]
      cases d.type with
      | invalid => exact .completes rfl rfl hchecked
      | other byte => exact .completes rfl rfl hchecked
      | control =>
        have hstored := (verify_iff _ _ _).mp hpass
        have hstored' := (verify_iff _ _ _).mp hverdict.symm
        refine processControl_alike hchecked ?_ a.sendto d.controlJson
        simp only [checked, verify_of_expects hstored, verify_of_expects hstored',
          Function.update_self]
      | data =>
        obtain ⟨hattempts, hstopped⟩ := processData_alike hchecked a.sendto a.datagram d.dataHeader
        refine .completes hattempts hstopped ?_
        rw [processData_broker, processData_broker]
        exact hchecked

/-! ## The two runs -/

/-- The verdicts a broker gives, in the terms of the gate. -/
abbrev heard (b : Broker) (ts : List Traffic) : List Bool :=
  CounterGate.heard (· + 1) 0 b.clientCounters (ts.map Traffic.noisy)

theorem heard_short (b : Broker) {t : Traffic} (hn : t.arrival.datagram.length < 5)
    (ts : List Traffic) :
    b.heard (t :: ts) = (b.checked t.arrival.client t.arrival.datagram 0).heard ts := by
  have hsize : t.arrival.datagram.length < bpHeaderSize := hn
  simp only [heard, checked, verifyAndUpdateClientCounter_eq_check]
  cases t with
  | runt a => rfl
  | original a =>
    have hnoisy : Traffic.noisy (.original a) = .unstamped a.client := if_pos hsize
    rw [List.map_cons, hnoisy]
    rfl

theorem heard_original (b : Broker) {a : Arrival} (hn : 5 ≤ a.datagram.length)
    (ts : List Traffic) :
    b.heard (.original a :: ts) =
      (verifyAndUpdateClientCounter b.clientCounters a.client (packetCounter a.datagram)).1 ::
        (b.checked a.client a.datagram (packetCounter a.datagram)).heard ts := by
  have hsize : ¬ a.datagram.length < bpHeaderSize := by simp only [bpHeaderSize]; omega
  have hnoisy : Traffic.noisy (.original a) = .stamped a.client (packetCounter a.datagram) :=
    if_neg hsize
  simp only [heard, checked, verifyAndUpdateClientCounter_eq_check]
  rw [List.map_cons, hnoisy]
  rfl

theorem heard_congr {b b' : Broker} (h : b.clientCounters = b'.clientCounters)
    (ts : List Traffic) : b.heard ts = b'.heard ts := by
  simp only [heard, h]

/-- Runs that give the originals the same verdicts send the same. -/
theorem outputs_of_heard (ts : List Traffic) {b b' : Broker} (h : b.Alike b')
    (hheard : b.heard (Traffic.originals ts) = b'.heard ts) :
    b.outputs text (Traffic.originals ts) = b'.outputs text ts := by
  induction ts generalizing b b' with
  | nil => rfl
  | cons t ts ih =>
    cases t with
    | runt a short =>
      obtain ⟨it, hit, hattempts, hstopped, hbroker⟩ :=
        @spinIteration_short text b' a.sendto a.client a.datagram short
      rw [heard_short b' (t := .runt a short) short] at hheard
      rw [outputs_of_ok (t := .runt a short) hit, hstopped, hbroker]
      exact ih (h.short short a.client) hheard
    | original a =>
      have horiginals : Traffic.originals (.original a :: ts) =
          .original a :: Traffic.originals ts := rfl
      rw [horiginals] at hheard ⊢
      by_cases hn : a.datagram.length < 5
      · obtain ⟨it, hit, hattempts, hstopped, hbroker⟩ :=
          @spinIteration_short text b a.sendto a.client a.datagram hn
        obtain ⟨it', hit', hattempts', hstopped', hbroker'⟩ :=
          @spinIteration_short text b' a.sendto a.client a.datagram hn
        rw [heard_short b (t := .original a) hn, heard_short b' (t := .original a) hn] at hheard
        rw [outputs_of_ok (t := .original a) hit, outputs_of_ok (t := .original a) hit',
          hattempts, hattempts', hstopped, hstopped', hbroker, hbroker']
        have halike :
            (b.checked a.client a.datagram 0).Alike (b'.checked a.client a.datagram 0) := by
          refine h.checked a.datagram (fun k hk => ?_) a.client 0
          rw [Memory.load_of_le _ (by omega), Memory.load_of_le _ (by omega), h.buffer k hk]
        exact congrArg ([[]] ++ ·) (ih halike hheard)
      · have hfive : 5 ≤ a.datagram.length := by omega
        rw [heard_original b hfive, heard_original b' hfive] at hheard
        obtain ⟨hverdict, hrest⟩ := List.cons.inj hheard
        have halike := @spinIteration_alike text b b' h a hfive hverdict
        generalize hit : b.spinIteration text a.sendto a.client a.datagram = result at halike
        generalize hit' : b'.spinIteration text a.sendto a.client a.datagram = result' at halike
        cases halike with
        | faults fault =>
          rw [outputs_of_error (t := .original a) hit, outputs_of_error (t := .original a) hit']
        | @completes it it' hattempts hstopped hbrokers =>
          rw [outputs_of_ok (t := .original a) hit, outputs_of_ok (t := .original a) hit',
            hattempts, hstopped]
          have hcounters := congrArg Prod.snd (spinIteration_verdict text hfive hit)
          have hcounters' := congrArg Prod.snd (spinIteration_verdict text hfive hit')
          have hnext : it.broker.heard (Traffic.originals ts) = it'.broker.heard ts :=
            (heard_congr hcounters _).trans (hrest.trans (heard_congr hcounters' _).symm)
          rw [ih hbrokers hnext]

/-! ## Making the verdicts visible -/

/-- A request that is answered whatever the tables hold. -/
def scopelessRequest : Json := .object [("scope", .string "")]

theorem scopelessRequest_plain : scopelessRequest.Plain := by
  simp only [scopelessRequest, Json.Plain, Json.PlainFields]
  decide

variable (text) in
/-- The traffic that carries nothing but such requests and empty datagrams. -/
def scopeless : Noisy String BpCounter → Traffic
  | .stamped client c =>
    .original ⟨client, bpControlJsonToPacketBuffer text scopelessRequest c, fun _ _ _ => true⟩
  | .unstamped client => .original ⟨client, [], fun _ _ _ => true⟩
  | .noise client => .runt ⟨client, [], fun _ _ _ => true⟩ (Nat.zero_lt_succ 4)

theorem noisy_scopeless (x : Noisy String BpCounter) : (scopeless text x).noisy = x := by
  cases x with
  | noise client => rfl
  | unstamped client => rfl
  | stamped client c =>
    have hsize : ¬ (bpControlJsonToPacketBuffer text scopelessRequest c).length < bpHeaderSize := by
      rw [length_controlPacket]
      simp only [bpHeaderSize]
      omega
    simp only [scopeless, Traffic.noisy, if_neg hsize, packetCounter_control]

theorem originals_scopeless (xs : List (Noisy String BpCounter)) :
    Traffic.originals (xs.map (scopeless text)) =
      (CounterGate.Noisy.quiet xs).map (scopeless text) := by
  rw [Traffic.originals, CounterGate.Noisy.quiet, List.filter_map]
  congr 2
  funext x
  cases x <;> rfl

theorem ofJson_scopelessRequest : ControlRequest.ofJson scopelessRequest = .ok none := rfl

theorem spinIteration_of_scopeless {b : Broker} {packet : Bytes} {d : Decoded}
    (hd : decodePacketBuffer text (Memory.load packet b.buffer) packet.length = .ok d)
    (htype : d.type = .control) (hjson : d.controlJson = scopelessRequest) (client : String) :
    ∃ it, b.spinIteration text (fun _ _ _ => true) client packet = .ok it ∧
      it.stopped = false ∧
      it.broker.clientCounters =
        (verifyAndUpdateClientCounter b.clientCounters client d.header.counter).2 ∧
      it.attempts = if (verifyAndUpdateClientCounter b.clientCounters client d.header.counter).1
        then [⟨client, bpControlJsonToPacketBuffer text .null d.header.counter, true⟩] else [] := by
  cases hpass : (verifyAndUpdateClientCounter b.clientCounters client d.header.counter).1 with
  | true =>
    have hstored := verify_of_expects ((verify_iff _ _ _).mp hpass)
    rw [spinIteration_of_control _ hd hpass htype, hjson]
    simp only [processControl, Tables.processControlRequest_eq, ofJson_scopelessRequest, bind,
      Except.bind, pure, Except.pure]
    refine ⟨_, rfl, rfl, rfl, ?_⟩
    simp only [checked, hstored, Function.update_self, Option.getD_some, if_true]
  | false =>
    simp only [spinIteration, hd, bind, Except.bind, hpass]
    exact ⟨_, rfl, rfl, rfl, rfl⟩

theorem spinIteration_scopeless (hscope : 9 + (text.dump scopelessRequest).length < 2 ^ 32)
    (b : Broker) (client : String) (c : BpCounter) :
    ∃ it, b.spinIteration text (fun _ _ _ => true) client
        (bpControlJsonToPacketBuffer text scopelessRequest c) = .ok it ∧
      it.stopped = false ∧
      it.broker.clientCounters = (verifyAndUpdateClientCounter b.clientCounters client c).2 ∧
      it.attempts = if (verifyAndUpdateClientCounter b.clientCounters client c).1
        then [⟨client, bpControlJsonToPacketBuffer text .null c, true⟩] else [] :=
  spinIteration_of_scopeless
    (decode_controlPacket text scopelessRequest_plain c b.buffer hscope) rfl rfl client

/-- Runs on such traffic that send the same have given the same verdicts. -/
theorem heard_of_outputs (hscope : 9 + (text.dump scopelessRequest).length < 2 ^ 32)
    (xs : List (Noisy String BpCounter)) {b b' : Broker}
    (h : b.outputs text ((CounterGate.Noisy.quiet xs).map (scopeless text)) =
      b'.outputs text (xs.map (scopeless text))) :
    CounterGate.heard (· + 1) 0 b.clientCounters (CounterGate.Noisy.quiet xs) =
      CounterGate.heard (· + 1) 0 b'.clientCounters xs := by
  induction xs generalizing b b' with
  | nil => rfl
  | cons x xs ih =>
    have hempty : ([] : Bytes).length < 5 := by decide
    cases x with
    | noise client =>
      obtain ⟨it', hit', _, hstopped', hbroker'⟩ :=
        @spinIteration_short text b' (fun _ _ _ => true) client [] hempty
      rw [CounterGate.quiet_cons_noise, List.map_cons,
        outputs_of_ok (t := scopeless text (.noise client)) hit', hstopped'] at h
      have hrest := ih h
      rw [hbroker'] at hrest
      rw [CounterGate.quiet_cons_noise, hrest]
      simp only [CounterGate.heard, checked, verifyAndUpdateClientCounter_eq_check]
    | unstamped client =>
      obtain ⟨it, hit, hattempts, hstopped, hbroker⟩ :=
        @spinIteration_short text b (fun _ _ _ => true) client [] hempty
      obtain ⟨it', hit', hattempts', hstopped', hbroker'⟩ :=
        @spinIteration_short text b' (fun _ _ _ => true) client [] hempty
      rw [CounterGate.quiet_cons_unstamped, List.map_cons, List.map_cons,
        outputs_of_ok (t := scopeless text (.unstamped client)) hit,
        outputs_of_ok (t := scopeless text (.unstamped client)) hit', hstopped, hstopped'] at h
      have hrest := ih (List.cons.inj h).2
      rw [hbroker, hbroker'] at hrest
      rw [CounterGate.quiet_cons_unstamped]
      simpa only [CounterGate.heard, checked, verifyAndUpdateClientCounter_eq_check] using hrest
    | stamped client c =>
      obtain ⟨it, hit, hstopped, hcounters, hattempts⟩ := spinIteration_scopeless hscope b client c
      obtain ⟨it', hit', hstopped', hcounters', hattempts'⟩ :=
        spinIteration_scopeless hscope b' client c
      rw [CounterGate.quiet_cons_stamped, List.map_cons, List.map_cons,
        outputs_of_ok (t := scopeless text (.stamped client c)) hit,
        outputs_of_ok (t := scopeless text (.stamped client c)) hit', hstopped, hstopped'] at h
      obtain ⟨hfirst, hlater⟩ := List.cons.inj h
      have hrest := ih hlater
      rw [hcounters, hcounters'] at hrest
      have hverdict : (verifyAndUpdateClientCounter b.clientCounters client c).1 =
          (verifyAndUpdateClientCounter b'.clientCounters client c).1 := by
        rw [hattempts, hattempts'] at hfirst
        revert hfirst
        cases (verifyAndUpdateClientCounter b.clientCounters client c).1 <;>
          cases (verifyAndUpdateClientCounter b'.clientCounters client c).1 <;> simp
      simp only [verifyAndUpdateClientCounter_eq_check] at hrest hverdict
      rw [CounterGate.quiet_cons_stamped]
      simp only [CounterGate.heard, hverdict, hrest]

/-- For traffic of given senders and counters, runts leave the outputs for the originals as they
are, whatever the originals carry, exactly if every runt is harmless where it is put in. -/
theorem spin_runts_iff (hscope : 9 + (text.dump scopelessRequest).length < 2 ^ 32)
    (stamps : List (Noisy String BpCounter)) :
    (∀ ts : List Traffic, ts.map Traffic.noisy = stamps →
      started.outputs text (Traffic.originals ts) = started.outputs text ts) ↔
      CounterGate.NoiseHarmless (· + 1) 0 started.clientCounters stamps := by
  rw [← CounterGate.heard_iff_noiseHarmless (by decide)]
  constructor
  · intro h
    apply heard_of_outputs hscope stamps
    rw [← originals_scopeless]
    apply h
    rw [List.map_map]
    exact List.map_id'' noisy_scopeless stamps
  · rintro hheard ts rfl
    apply outputs_of_heard ts ⟨rfl, fun k _ => rfl⟩
    rw [heard, Traffic.originals_noisy]
    exact hheard

/-- An empty datagram ahead of a client's first packet. -/
def runtFirst (counter : BpCounter) : List (Noisy String BpCounter) :=
  [.noise "10.0.0.2:40001", .stamped "10.0.0.2:40001" counter]

theorem runtFirst_harmless_iff (counter : BpCounter) :
    CounterGate.NoiseHarmless (· + 1) 0 started.clientCounters (runtFirst counter) ↔
      counter = 1 := by
  have hrest : CounterGate.NoiseHarmless (· + 1) 0 started.clientCounters
      [.stamped "10.0.0.2:40001" counter] :=
    (CounterGate.noiseHarmless_item _ rfl _).mpr (CounterGate.noiseHarmless_nil _)
  rw [runtFirst, CounterGate.noiseHarmless_noise, and_iff_left hrest]
  simp [started, CounterGate.Inaudible, CounterGate.Noisy.ofKey]

theorem compactJson_scopelessRequest :
    9 + (compactJson.dump scopelessRequest).length < 2 ^ 32 := by decide

/-- A node that starts at counter one does not notice. -/
theorem spin_runts_node :
    started.outputs compactJson
        (Traffic.originals ((runtFirst 1).map (scopeless compactJson))) =
      started.outputs compactJson ((runtFirst 1).map (scopeless compactJson)) := by
  apply (spin_runts_iff compactJson_scopelessRequest (runtFirst 1)).mpr
  · exact (runtFirst_harmless_iff 1).mpr rfl
  · rw [List.map_map]
    exact List.map_id'' noisy_scopeless _

/-- A client whose first packet has another counter is locked out. -/
theorem spin_runts_fails :
    ¬ ∀ ts : List Traffic,
      started.outputs compactJson (Traffic.originals ts) = started.outputs compactJson ts := by
  intro h
  have hall := h ((runtFirst 2).map (scopeless compactJson))
  rw [originals_scopeless] at hall
  have hheard := heard_of_outputs compactJson_scopelessRequest (runtFirst 2) hall
  rw [CounterGate.heard_iff_noiseHarmless (by decide), runtFirst_harmless_iff] at hheard
  exact absurd hheard (by decide)

end Broker

end Crps
