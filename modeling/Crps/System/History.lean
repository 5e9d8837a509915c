import Crps.System.Agreement
import Crps.System.Books

/-!
# What the ledgers record

A node that has connected is where its recorded events have brought it from the
state in which `connect` left it, and the packets it has sent are its requests
and after them what these events put on the link. A node that has not has no
events.
-/

namespace Crps

namespace Ledger

variable {ι : Type} (received : Option (MessageId ι)) (l : Ledger ι)

theorem record_trace (e : SpinEvent) : (l.record received e).trace = l.trace ++ [e] := by
  unfold record
  split <;> rfl

theorem record_sent (e : SpinEvent) : (l.record received e).sent = l.sent ++ sentPackets [e] := by
  unfold record
  split
  · exact (List.append_nil _).symm
  · exact (List.append_nil _).symm
  · rfl
  · rename_i hother
    cases e with
    | sendto k packet sent =>
      cases sent with
      | false => exact (List.append_nil _).symm
      | true => exact absurd rfl (hother k packet)
    | _ => exact (List.append_nil _).symm

theorem record_verdicts (e : SpinEvent) : (l.record received e).verdicts = l.verdicts := by
  unfold record
  split <;> rfl

theorem recordAll_trace (es : List SpinEvent) :
    (l.recordAll received es).trace = l.trace ++ es := by
  induction es generalizing l with
  | nil => exact (List.append_nil _).symm
  | cons e es ih =>
    rw [recordAll, List.foldl_cons, ← recordAll, ih, record_trace, List.append_assoc,
      List.singleton_append]

theorem recordAll_sent (es : List SpinEvent) :
    (l.recordAll received es).sent = l.sent ++ sentPackets es := by
  induction es generalizing l with
  | nil => exact (List.append_nil _).symm
  | cons e es ih =>
    have hpackets := sentPackets_append [e] es
    rw [List.singleton_append] at hpackets
    rw [recordAll, List.foldl_cons, ← recordAll, ih, record_sent, List.append_assoc, hpackets]

theorem recordAll_verdicts (es : List SpinEvent) :
    (l.recordAll received es).verdicts = l.verdicts := by
  induction es generalizing l with
  | nil => rfl
  | cons e es ih => rw [recordAll, List.foldl_cons, ← recordAll, ih, record_verdicts]

end Ledger

/-- Requests that went out with the first stamps there are. -/
structure Requested (requests : List Bytes) (counter : BpCounter) : Prop where
  stamps : requests.map packetCounter =
    CounterGate.successStamps (· + 1) 0 (List.replicate requests.length true)
  counter : counter = (· + 1)^[requests.length] 0
  long : ∀ packet ∈ requests, 5 ≤ packet.length

theorem requested_nil : Requested [] 0 := ⟨rfl, rfl, by simp⟩

theorem Requested.next {requests : List Bytes} {n : Node} (h : Requested requests n.bpCounter)
    (text : JsonText) (request : Json) :
    Requested (requests ++ [(n.sendControl text request).1]) (n.bpCounter + 1) := by
  have hstamp : packetCounter (n.sendControl text request).1 = n.bpCounter + 1 :=
    packetCounter_control text request _
  have hlength : (n.sendControl text request).1.length = 9 + (text.dump request).length :=
    length_controlPacket text request _
  refine ⟨?_, ?_, fun packet hpacket => ?_⟩
  · rw [List.map_append, List.length_append, List.length_singleton, List.replicate_add,
      CounterGate.successStamps_append, h.stamps, List.length_replicate, ← h.counter,
      List.map_singleton, hstamp]
    rfl
  · rw [List.length_append, List.length_singleton, Function.iterate_succ_apply', ← h.counter]
  · rcases List.mem_append.mp hpacket with hpacket | hpacket
    · exact h.long packet hpacket
    · rw [List.mem_singleton.mp hpacket]
      omega

namespace System

variable {ι : Type} {net : Deployment ι} {nodes : ι → Node} {s s' : System ι} {i : ι}
variable {r r' : Registry}

/-- A node whose `connect` has not returned true. -/
structure Starting (nodes : ι → Node) (s : System ι) (i : ι) : Prop where
  phase : s.phase i ≠ .connected
  trace : (s.ledger i).trace = []
  created : s.phase i = .created → s.node i = nodes i ∧ (s.ledger i).sent = []
  waiting : ∀ resume, s.phase i = .waiting resume → (s.ledger i).sent ≠ [] ∧
    Requested (s.ledger i).sent (s.node i).bpCounter ∧
    ∀ n response, (resume n response).Steady Node.bpCounter n.bpCounter

/-- A node whose `connect` has left it as `n₀`, after these requests. -/
structure Active (net : Deployment ι) (nodes : ι → Node) (s : System ι) (r : Registry) (i : ι)
    (n₀ : Node) (requests : List Bytes) : Prop where
  registered : Node.Registered (net.address i) (nodes i) n₀.publishers.length
    n₀.subscribers.length n₀ ⟨r, true⟩
  settled : s.Settled i
  performs : n₀.Performs (s.ledger i).trace (s.node i)
  sent : (s.ledger i).sent = requests ++ sentPackets (s.ledger i).trace
  asked : requests ≠ []
  requested : Requested requests n₀.bpCounter

def History (net : Deployment ι) (nodes : ι → Node) (s : System ι) (r : Registry) (i : ι) : Prop :=
  Starting nodes s i ∨ ∃ n₀ requests, Active net nodes s r i n₀ requests

/-! ## What others do -/

theorem Active.kept {n₀ : Node} {requests : List Bytes}
    (h : Active net nodes s r i n₀ requests) (hkeeps : Keeps net s s' r r')
    (hnode : s'.node i = s.node i) (htrace : (s'.ledger i).trace = (s.ledger i).trace)
    (hsent : (s'.ledger i).sent = (s.ledger i).sent) :
    Active net nodes s' r' i n₀ requests := by
  obtain ⟨hrelies, hsettled⟩ := hkeeps.settled i h.settled
  refine ⟨h.registered.stable ⟨rfl, hrelies⟩, hsettled, ?_, ?_, h.asked, h.requested⟩
  · rw [htrace, hnode]
    exact h.performs
  · rw [htrace, hsent]
    exact h.sent

theorem History.kept (h : History net nodes s r i) (hkeeps : Keeps net s s' r r')
    (hnode : s'.node i = s.node i) (hphase : s'.phase i = s.phase i)
    (htrace : (s'.ledger i).trace = (s.ledger i).trace)
    (hsent : (s'.ledger i).sent = (s.ledger i).sent) : History net nodes s' r' i := by
  rcases h with h | ⟨n₀, requests, h⟩
  · refine .inl ⟨?_, ?_, ?_, ?_⟩
    · rw [hphase]
      exact h.phase
    · rw [htrace]
      exact h.trace
    · rw [hphase, hnode, hsent]
      exact h.created
    · rw [hphase, hnode, hsent]
      exact h.waiting
  · exact .inr ⟨n₀, requests, h.kept hkeeps hnode htrace hsent⟩

/-! ## `connect` -/

variable [DecidableEq ι]

/-- The rest of `connect` draws one stamp a request, up to where it returns. -/
theorem history_continueConnect {m : Session Node Json Json Fault Bool} {n : Node} {live : Bool}
    (htrace : (s.ledger i).trace = [])
    (hsafe : SafeConnect (net.address i) (nodes i) m ⟨r, live⟩)
    (hsteady : m.Steady Node.bpCounter n.bpCounter)
    (hrequested : Requested (s.ledger i).sent n.bpCounter)
    (hup : live = true → controls ((s.up i).map Datagram.bytes) = [])
    (hsome : (s.ledger i).sent = [] → ∃ n' request resume, m = .call n' request resume) :
    History net nodes (s.continueConnect net i n m) r i := by
  have hfailed : ∀ n', advance net.text n m = (n', .failed, []) →
      History net nodes (s.continueConnect net i n m) r i := by
    intro n' hends
    refine .inl ⟨?_, ?_, ?_, ?_⟩
    · simp [continueConnect, hends]
    · simp [continueConnect, hends, Ledger.transmit, htrace]
    · simp [continueConnect, hends]
    · simp [continueConnect, hends]
  cases m with
  | ret n' ok =>
    cases ok with
    | false => exact hfailed n' rfl
    | true =>
      have hregistered := Session.Safe.post hsafe rfl
      obtain rfl : live = true := hregistered.live
      have hcounter : n'.bpCounter = n.bpCounter := hsteady
      have hsome' : (s.ledger i).sent ≠ [] := by
        intro hnil
        obtain ⟨_, _, _, hcall⟩ := hsome hnil
        cases hcall
      refine .inr ⟨n', (s.ledger i).sent, hregistered, ⟨.inl ?_, ?_⟩, ?_, ?_, hsome',
        hcounter ▸ hrequested⟩
      · simp [continueConnect, advance]
      · simpa [continueConnect, advance] using hup rfl
      · simp only [continueConnect, advance, Function.update_self, Ledger.transmit, htrace]
        exact .refl n'
      · simp [continueConnect, advance, Ledger.transmit, htrace, sentPackets]
  | throw e => exact hfailed n rfl
  | call n' request resume =>
    obtain ⟨hcounter, hresume⟩ := hsteady
    have hempty := (hsafe.empty r).2.2 (n'.sendControl net.text request).2 ⟨n'.buffer, rfl⟩
    by_cases hlen : (n'.sendControl net.text request).1.length ≤ maxDatagramSize
    · have hnext := Requested.next (hcounter ▸ hrequested) net.text request
      refine .inl ⟨?_, ?_, ?_, ?_⟩
      · simp [continueConnect, advance, hlen]
      · simp [continueConnect, advance, hlen, Ledger.transmit, htrace]
      · simp [continueConnect, advance, hlen]
      · intro resume' hphase
        simp only [continueConnect, advance, if_pos hlen, Function.update_self,
          Phase.waiting.injEq] at hphase
        subst hphase
        simp only [continueConnect, advance, if_pos hlen, Function.update_self, Ledger.transmit]
        exact ⟨by simp, hnext, hresume⟩
    · obtain ⟨n'', hdead⟩ := advance_dead hempty (n'.sendControl net.text request).2
      refine hfailed n'' ?_
      simp only [advance, if_neg hlen]
      exact hdead

theorem rpcResponse_bpCounter {text : JsonText} {n n' : Node} {reception : Reception}
    {response : Json} (h : n.rpcResponse text reception = .ok (n', response)) :
    n'.bpCounter = n.bpCounter := by
  simp only [Node.rpcResponse] at h
  cases hreceived : n.receiveMessage text true reception with
  | error fault =>
    rw [hreceived] at h
    cases h
  | ok got =>
    obtain ⟨n₁, received⟩ := got
    rw [hreceived] at h
    have hn₁ : n₁.bpCounter = n.bpCounter := by
      cases Node.receiveMessage_receives hreceived <;> rfl
    simp only [bind, Except.bind] at h
    split at h
    · split_ifs at h
      · cases h
        exact hn₁
      · cases h
        exact hn₁
    · cases h
      exact hn₁

omit [DecidableEq ι] in
theorem bpCounter_of_created {n : Node} (h : Node.Created n) : n.bpCounter = 0 := by
  induction h with
  | create => rfl
  | publisher _ _ _ _ _ ih => exact ih
  | subscriber _ _ _ _ _ ih => exact ih

theorem history_connect (hnodes : ∀ i, Node.Created (nodes i)) (h : Orderly net nodes s r)
    (hhistory : ∀ j, History net nodes s r j) (hstep : s.step net (.connect i) = some s')
    (j : ι) : History net nodes s' r j := by
  have hkeeps := (orderly_connect hnodes h hstep).2
  obtain ⟨hphase, rfl⟩ := step_connect hstep
  by_cases hji : j = i
  · subst hji
    have hi := h.dealings j
    rw [hphase] at hi
    rcases hhistory j with hstarting | ⟨n₀, requests, hactive⟩
    · obtain ⟨hnode, hsent⟩ := hstarting.created hphase
      rw [hnode] at hi ⊢
      cases hi with
      | created hup _ hfresh =>
        refine history_continueConnect hstarting.trace (safeConnect_start (hnodes j) hfresh)
          (Node.steady_connect (nodes j)) ?_ (fun _ => hup) fun _ => ⟨_, _, _, rfl⟩
        rw [hsent, bpCounter_of_created (hnodes j)]
        exact requested_nil
    · rcases hactive.settled.1 with hconnected | hfailed
      · rw [hphase] at hconnected
        cases hconnected
      · rw [hphase] at hfailed
        cases hfailed
  · refine (hhistory j).kept hkeeps ?_ ?_ ?_ ?_
    · simp [continueConnect, hji]
    · simp [continueConnect, hji]
    · simp [continueConnect, hji]
    · simp [continueConnect, hji]

theorem history_rpcReturn (h : Orderly net nodes s r) (hhistory : ∀ j, History net nodes s r j)
    (hstep : s.step net (.rpcReturn i) = some s') (j : ι) : History net nodes s' r j := by
  have hkeeps := (orderly_rpcReturn h hstep).2
  obtain ⟨resume, d, rest, hphase, hdown, hcases⟩ := step_rpcReturn hstep
  by_cases hji : j = i
  · subst hji
    have hi := h.dealings j
    rw [hphase, hdown, List.map_cons] at hi
    rcases hhistory j with hstarting | ⟨n₀, requests, hactive⟩
    · obtain ⟨hsome, hrequested, hsteady⟩ := hstarting.waiting resume hphase
      rcases hcases with ⟨fault, _, rfl⟩ | ⟨n, response, hresponse, rfl⟩
      · exact .inl ⟨by simp, hstarting.trace, by simp, by simp⟩
      · have hcounter := rpcResponse_bpCounter hresponse
        rcases hi.resumed rfl hresponse with hdead | ⟨hlive, hup, _⟩
        · refine history_continueConnect hstarting.trace hdead (hsteady n response)
            (hcounter ▸ hrequested) (fun hfalse => ?_) fun hnil => absurd hnil hsome
          cases hfalse
        · exact history_continueConnect hstarting.trace hlive (hsteady n response)
            (hcounter ▸ hrequested) (fun _ => hup) fun hnil => absurd hnil hsome
    · rcases hactive.settled.1 with hconnected | hfailed
      · rw [hphase] at hconnected
        cases hconnected
      · rw [hphase] at hfailed
        cases hfailed
  · rcases hcases with ⟨fault, _, rfl⟩ | ⟨n, response, hresponse, rfl⟩
    · refine (hhistory j).kept hkeeps rfl ?_ rfl rfl
      simp [hji]
    · refine (hhistory j).kept hkeeps ?_ ?_ ?_ ?_
      · simp [continueConnect, hji]
      · simp [continueConnect, hji]
      · simp [continueConnect, hji]
      · simp [continueConnect, hji]

/-! ## Everything else -/

theorem history_broker (h : Orderly net nodes s r) (hhistory : ∀ j, History net nodes s r j)
    (hstep : s.step net (.broker i) = some s') :
    ∃ r', Orderly net nodes s' r' ∧ Keeps net s s' r r' ∧ ∀ j, History net nodes s' r' j := by
  obtain ⟨r', horderly, hkeeps⟩ := orderly_broker h hstep
  obtain ⟨_, d, rest, _, hcases⟩ := step_broker hstep
  refine ⟨r', horderly, hkeeps, fun j => ?_⟩
  rcases hcases with ⟨fault, _, rfl⟩ | ⟨it, _, rfl⟩
  · exact (hhistory j).kept hkeeps rfl rfl rfl rfl
  · by_cases hji : j = i
    · subst hji
      refine (hhistory j).kept hkeeps rfl rfl ?_ ?_
      · simp [Ledger.judge]
      · simp [Ledger.judge]
    · refine (hhistory j).kept hkeeps rfl rfl ?_ ?_
      · simp [hji]
      · simp [hji]

omit [DecidableEq ι] in
theorem Active.performs_more {n₀ n : Node} {requests : List Bytes} {es : List SpinEvent}
    (h : Active net nodes s r i n₀ requests) (hkeeps : Keeps net s s' r r')
    (hes : (s.node i).Performs es n) (hnode : s'.node i = n)
    (htrace : (s'.ledger i).trace = (s.ledger i).trace ++ es)
    (hsent : (s'.ledger i).sent = (s.ledger i).sent ++ sentPackets es) :
    Active net nodes s' r' i n₀ requests := by
  obtain ⟨hrelies, hsettled⟩ := hkeeps.settled i h.settled
  refine ⟨h.registered.stable ⟨rfl, hrelies⟩, hsettled, ?_, ?_, h.asked, h.requested⟩
  · rw [htrace, hnode]
    exact h.performs.trans hes
  · rw [htrace, hsent, h.sent, sentPackets_append, List.append_assoc]

omit [DecidableEq ι] in
theorem History.active (h : History net nodes s r i) (hphase : s.phase i = .connected) :
    ∃ n₀ requests, Active net nodes s r i n₀ requests := by
  rcases h with h | h
  · exact absurd hphase h.phase
  · exact h

theorem history_publish {k : ℕ} {data : Memory} (h : Orderly net nodes s r)
    (hhistory : ∀ j, History net nodes s r j) (hstep : s.step net (.publish i k data) = some s') :
    ∃ r', Orderly net nodes s' r' ∧ Keeps net s s' r r' ∧ ∀ j, History net nodes s' r' j := by
  obtain ⟨r', horderly, hkeeps⟩ := orderly_publish h hstep
  obtain ⟨hphase, rfl⟩ := step_publish hstep
  refine ⟨r', horderly, hkeeps, fun j => ?_⟩
  by_cases hji : j = i
  · subst hji
    obtain ⟨n₀, requests, hactive⟩ := (hhistory j).active hphase
    refine .inr ⟨n₀, requests, hactive.performs_more hkeeps (Node.Does.publish k data).performs
      ?_ ?_ ?_⟩
    · exact Function.update_self ..
    · simp only [Function.update_self, Ledger.record_trace]
    · simp only [Function.update_self, Ledger.record_sent]
  · refine (hhistory j).kept hkeeps ?_ rfl ?_ ?_
    · simp [hji]
    · simp [hji]
    · simp [hji]

theorem history_spin {receive : Bool} {env : SpinEnvironment} (h : Orderly net nodes s r)
    (hhistory : ∀ j, History net nodes s r j)
    (hstep : s.step net (.spin i receive env) = some s') :
    ∃ r', Orderly net nodes s' r' ∧ Keeps net s s' r r' ∧ ∀ j, History net nodes s' r' j := by
  obtain ⟨r', horderly, hkeeps⟩ := orderly_spin h hstep
  obtain ⟨hphase, reception, origin, rest, _, hcases⟩ := step_spin hstep
  refine ⟨r', horderly, hkeeps, fun j => ?_⟩
  by_cases hji : j = i
  · subst hji
    obtain ⟨n₀, requests, hactive⟩ := (hhistory j).active hphase
    rcases hcases with ⟨fault, _, rfl⟩ | ⟨out, hout, rfl⟩
    · exact .inr ⟨n₀, requests, hactive.kept hkeeps rfl rfl rfl⟩
    · refine .inr ⟨n₀, requests, hactive.performs_more hkeeps (Node.spinOnce_performs hout)
        ?_ ?_ ?_⟩
      · exact Function.update_self ..
      · simp only [Function.update_self, Ledger.recordAll_trace]
      · simp only [Function.update_self, Ledger.recordAll_sent]
  · rcases hcases with ⟨fault, _, rfl⟩ | ⟨out, _, rfl⟩
    · refine (hhistory j).kept hkeeps rfl ?_ rfl rfl
      simp [hji]
    · refine (hhistory j).kept hkeeps ?_ rfl ?_ ?_
      · simp [hji]
      · simp [hji]
      · simp [hji]

theorem step_history (hnodes : ∀ i, Node.Created (nodes i)) (h : Orderly net nodes s r)
    (hhistory : ∀ j, History net nodes s r j) {a : Action ι} (hstep : s.step net a = some s') :
    ∃ r', Orderly net nodes s' r' ∧ Keeps net s s' r r' ∧ ∀ j, History net nodes s' r' j := by
  cases a with
  | connect i =>
    obtain ⟨horderly, hkeeps⟩ := orderly_connect hnodes h hstep
    exact ⟨r, horderly, hkeeps, history_connect hnodes h hhistory hstep⟩
  | rpcReturn i =>
    obtain ⟨horderly, hkeeps⟩ := orderly_rpcReturn h hstep
    exact ⟨r, horderly, hkeeps, history_rpcReturn h hhistory hstep⟩
  | broker i => exact history_broker h hhistory hstep
  | publish i k data => exact history_publish h hhistory hstep
  | spin i receive env => exact history_spin h hhistory hstep
  | loseUp i position =>
    obtain ⟨r', horderly, hkeeps⟩ := step_orderly hnodes h hstep
    injection hstep with hstep
    subst hstep
    exact ⟨r', horderly, hkeeps, fun j => (hhistory j).kept hkeeps rfl rfl rfl rfl⟩
  | loseDown i position =>
    obtain ⟨r', horderly, hkeeps⟩ := step_orderly hnodes h hstep
    injection hstep with hstep
    subst hstep
    exact ⟨r', horderly, hkeeps, fun j => (hhistory j).kept hkeeps rfl rfl rfl rfl⟩

/-- Every state of a run has a registry behind it and every node a history. -/
theorem run_history (hnodes : ∀ i, Node.Created (nodes i)) (h : Orderly net nodes s r)
    (hhistory : ∀ j, History net nodes s r j) {as : List (Action ι)}
    (hrun : s.run net as = some s') :
    ∃ r', Orderly net nodes s' r' ∧ Keeps net s s' r r' ∧ ∀ j, History net nodes s' r' j := by
  refine run_invariant (P := fun s' => ∃ r', Orderly net nodes s' r' ∧ Keeps net s s' r r' ∧
    ∀ j, History net nodes s' r' j) (fun a _ s₁ s₂ => ?_) ⟨r, h, .refl s r, hhistory⟩ hrun
  rintro ⟨r₁, h₁, hkeeps, hhistory₁⟩ hstep
  obtain ⟨r₂, h₂, hkeeps', hhistory₂⟩ := step_history hnodes h₁ hhistory₁ hstep
  exact ⟨r₂, h₂, hkeeps.trans hkeeps', hhistory₂⟩

omit [DecidableEq ι] in
theorem history_initial (net : Deployment ι) (nodes : ι → Node) (i : ι) :
    History net nodes (initial nodes) emptyRegistry i := by
  refine .inl ⟨?_, rfl, fun _ => ⟨rfl, rfl⟩, fun resume hphase => ?_⟩
  · simp [initial]
  · cases hphase

end System
end Crps
