import Crps.System.EndToEnd
import Crps.System.Uninterrupted

/-!
# A network that loses nothing

Where every `sendto` succeeds and every datagram arrives, counters follow one
another, so the broker accepts everything the nodes send. Subscriber queues are
empty between two calls of `spin_once`, so a datagram is queued once for each
subscriber it is meant for, and handed over at once.
-/

namespace Crps

/-- Nothing is lost, and no `sendto` fails. -/
def Action.IsReliable {ι : Type} : Action ι → Prop
  | .spin _ _ env => ∀ events packet, env.sendto events packet = true
  | .loseUp _ _ => False
  | .loseDown _ _ => False
  | _ => True

theorem Action.IsReliable.isLossless {ι : Type} {a : Action ι} (h : a.IsReliable) :
    a.IsLossless := by
  cases a with
  | loseUp => exact h
  | loseDown => exact h
  | _ => trivial

namespace Node

variable {text : JsonText} {n n' : Node} {env : SpinEnvironment} {s : SpinState}

theorem sendResults_publishAll (calls : List (ℕ × Memory)) :
    sendResults (n.publishAll calls).2 = [] := by
  apply List.filterMap_eq_nil_iff.mpr
  intro e he
  obtain ⟨_, _, _, rfl⟩ := mem_publishAll e he
  rfl

theorem sendResults_queueAll (data : Memory) (ks : List ℕ) :
    sendResults (n.queueAll data ks).2 = [] := by
  induction ks generalizing n with
  | nil => rfl
  | cons k ks ih =>
    have hcons := sendResults_append [(n.queueMessage k data).2]
      ((n.queueMessage k data).1.queueAll data ks).2
    rw [List.singleton_append, ih, List.append_nil] at hcons
    rw [queueAll, hcons]
    unfold queueMessage
    split
    · rfl
    · rfl

theorem visit_sendResults (hsends : ∀ events packet, env.sendto events packet = true)
    (e : Endpoint) {sent : Bool} (h : sent ∈ sendResults (visit env s e).2.events) :
    sent ∈ sendResults s.events ∨ sent = true := by
  cases e with
  | subscriber k =>
    have hvisit : visit env s (.subscriber k) = visitSubscriber env s k := rfl
    simp only [hvisit, visitSubscriber] at h
    split at h
    · exact .inl h
    · split at h
      · exact .inl h
      · rename_i message _
        have hcons := sendResults_append [SpinEvent.callback k message]
          (s.node.publishAll (env.callback s.events k message).publishes).2
        rw [List.singleton_append, sendResults_publishAll] at hcons
        rw [sendResults_append, hcons] at h
        left
        simpa [sendResults] using h
  | publisher k =>
    have hvisit : visit env s (.publisher k) = visitPublisher env s k := rfl
    simp only [hvisit, visitPublisher] at h
    split at h
    · exact .inl h
    · split at h
      · exact .inl h
      · simp only [hsends, Bool.not_true, Bool.false_eq_true, if_false, sendResults_append] at h
        rcases List.mem_append.mp h with h | h
        · exact .inl h
        · right
          simpa [sendResults] using h

theorem visitAll_sendResults (hsends : ∀ events packet, env.sendto events packet = true)
    {es : List Endpoint} {ok : Bool} {s' : SpinState} (h : visitAll env s es = (ok, s'))
    {sent : Bool} (hsent : sent ∈ sendResults s'.events) :
    sent ∈ sendResults s.events ∨ sent = true := by
  induction es generalizing s with
  | nil =>
    cases h
    exact .inl hsent
  | cons e es ih =>
    unfold visitAll at h
    rw [if_pos (visit_sends hsends e)] at h
    rcases ih h with hbefore | htrue
    · exact visit_sendResults hsends e hbefore
    · exact .inr htrue

theorem spinOnce_sendResults (hsends : ∀ events packet, env.sendto events packet = true)
    {reception : Reception} {out : SpinOutcome} (h : n.spinOnce text reception env = .ok out) :
    (∀ sent ∈ sendResults out.events, sent = true) ∧ out.result ≠ .error := by
  obtain ⟨n', events, processed, ok, s, hprocessed, hvisited, rfl⟩ := spinOnce_cases h
  have hnothing : sendResults events = [] := by
    cases processIncomingMessage_processes hprocessed with
    | dropped => rfl
    | @queued _ _ info out _ _ _ hout =>
      subst hout
      exact sendResults_queueAll _ _
  constructor
  · intro sent hsent
    rcases visitAll_sendResults hsends hvisited hsent with hbefore | htrue
    · rw [hnothing] at hbefore
      cases hbefore
    · exact htrue
  · obtain ⟨s', hall⟩ :=
      @visitAll_sends env ⟨n', events, decide (0 < processed)⟩ hsends n'.visitOrder
    rw [hvisited] at hall
    cases hall
    cases s.workDone <;> simp

end Node

namespace System

variable {ι : Type} {net : Deployment ι} {nodes : ι → Node} {s s' : System ι} {i j : ι}
variable {r : Registry} {n₀ : Node} {requests : List Bytes}

theorem Active.equipped (h : Active net nodes s r i n₀ requests)
    (hnodes : ∀ i, Node.Created (nodes i)) : (s.node i).Equipped :=
  ⟨h.indexed, (Node.capacities_of_eq (hnodes i) (h.performs.capacities.trans
    (Node.capacities_of_blueprint h.registered.blueprint))).2⟩

/-- So far nothing has gone wrong, and nothing is waiting for a callback. -/
structure Reliable (net : Deployment ι) (s : System ι) : Prop where
  judged : ∀ j, Judged net s j
  sent : ∀ j, ∀ sent ∈ sendResults (s.ledger j).trace, sent = true
  drained : ∀ j, s.phase j = .connected → ∀ k, (s.node j).incoming k = []

theorem reliable_initial (net : Deployment ι) (nodes : ι → Node) :
    Reliable net (initial nodes) := by
  refine ⟨judged_initial net nodes, fun j sent hsent => ?_, fun j hphase => ?_⟩
  · cases hsent
  · cases hphase

theorem Active.fits (h : Active net nodes s r i n₀ requests)
    (hfits : ∀ p ∈ (nodes i).publishers, p.packetSize ≤ maxDatagramSize) :
    ∀ p ∈ (s.node i).publishers, p.packetSize ≤ maxDatagramSize := by
  intro p hp
  have hinfo : p.info ∈ (s.node i).config.publishers := List.mem_map_of_mem hp
  rw [h.performs.config, Node.config] at hinfo
  obtain ⟨q, hq, hqp⟩ := List.mem_map.mp hinfo
  obtain ⟨k, hk⟩ := List.getElem?_of_mem hq
  obtain ⟨p₀, hp₀, hsame⟩ := Node.publisherAt_of_blueprint h.registered.blueprint.symm hk
  have hsize₀ : p₀.blueprint.packetSize = q.blueprint.packetSize := by rw [hsame]
  have hsize : q.info.packetHeaderSize + q.info.messageSize.toNat =
      p.info.packetHeaderSize + p.info.messageSize.toNat := by rw [hqp]
  have hcreated := hfits p₀ (List.mem_of_getElem? hp₀)
  change p₀.packetSize = q.packetSize at hsize₀
  change q.packetSize = p.packetSize at hsize
  rw [← hsize, ← hsize₀]
  exact hcreated

/-- The broker has accepted whatever it has looked at. -/
theorem Reliable.accepted (h : Reliable net s) (hnodes : ∀ i, Node.Created (nodes i))
    (hactive : Active net nodes s r i n₀ requests)
    (hfits : ∀ p ∈ (nodes i).publishers, p.packetSize ≤ maxDatagramSize) :
    ∀ v ∈ (s.ledger i).verdicts, v.2 = true := by
  obtain ⟨hdata, hlong⟩ := hactive.long hnodes
    fun k packet p _ hp => hactive.fits hfits p (List.mem_of_getElem? hp)
  have hfollows := (hactive.consecutive_iff hdata).mpr
    (CounterGate.failuresWrap_of_forall (h.sent i))
  exact ((h.judged i).gate hlong hfollows).1

variable [DecidableEq ι]

theorem Reliable.step (h : Reliable net s) (hnodes : ∀ i, Node.Created (nodes i))
    (hchronicle : Chronicle net nodes s r) {r' : Registry}
    (hchronicle' : Chronicle net nodes s' r') {a : Action ι} (ha : a.IsReliable)
    (hstep : s.step net a = some s') : Reliable net s' := by
  have hjudged := step_judged h.judged ha.isLossless hstep
  -- a node that moves without events is on its way through `connect`
  have hquiet : (∀ j, (s'.ledger j).trace = (s.ledger j).trace) →
      (∀ j, s'.phase j = .connected → (s.ledger j).trace = [] ∨
        s.phase j = .connected ∧ s'.node j = s.node j) → Reliable net s' := by
    intro htrace hphase
    refine ⟨hjudged, fun j => ?_, fun j hconnected k => ?_⟩
    · rw [htrace]
      exact h.sent j
    · rcases hphase j hconnected with hsilent | ⟨hbefore, hnode⟩
      · obtain ⟨_, _, hactive⟩ := (hchronicle'.history j).active hconnected
        exact hactive.incoming_of_silent hnodes ((htrace j).trans hsilent) k
      · rw [hnode]
        exact h.drained j hbefore k
  have hcontinue : ∀ {x : ι} {n : Node} {m : Session Node Json Json Fault Bool} {s₁ : System ι},
      s₁.ledger = s.ledger → s₁.phase = s.phase → s₁.node = s.node → (s.ledger x).trace = [] →
      s' = s₁.continueConnect net x n m → Reliable net s' := by
    intro x n m s₁ hledger hphase hnode hsilent hs'
    refine hquiet (fun j => ?_) fun j hconnected => ?_
    · by_cases hjx : j = x
      · subst hjx
        simp [hs', continueConnect, Ledger.transmit, hledger]
      · simp [hs', continueConnect, hledger, hjx]
    · by_cases hjx : j = x
      · exact .inl (hjx ▸ hsilent)
      · simp only [hs', continueConnect, Function.update_of_ne hjx, hphase, hnode] at hconnected ⊢
        exact .inr ⟨hconnected, trivial⟩
  cases a with
  | connect x =>
    obtain ⟨hphase, hs'⟩ := step_connect hstep
    exact hcontinue rfl rfl rfl
      ((hchronicle.history x).starting_trace (by simp [hphase]) (by simp [hphase])) hs'
  | rpcReturn x =>
    obtain ⟨resume, d, rest, hphase, _, hcases⟩ := step_rpcReturn hstep
    have hsilent := (hchronicle.history x).starting_trace (by simp [hphase]) (by simp [hphase])
    rcases hcases with ⟨fault, _, hs'⟩ | ⟨n, response, _, hs'⟩
    · refine hquiet (fun j => by rw [hs']) fun j hconnected => ?_
      by_cases hjx : j = x
      · exact .inl (hjx ▸ hsilent)
      · simp only [hs', Function.update_of_ne hjx] at hconnected ⊢
        exact .inr ⟨hconnected, trivial⟩
    · exact @hcontinue x n _ { s with down := Function.update s.down x rest } rfl rfl rfl hsilent
        hs'
  | broker x =>
    obtain ⟨_, d, rest, _, hcases⟩ := step_broker hstep
    rcases hcases with ⟨fault, _, rfl⟩ | ⟨it, _, rfl⟩
    · exact hquiet (fun _ => rfl) fun j hconnected => .inr ⟨hconnected, rfl⟩
    · refine hquiet (fun j => ?_) fun j hconnected => .inr ⟨hconnected, rfl⟩
      by_cases hjx : j = x
      · subst hjx
        simp [Ledger.judge]
      · simp [hjx]
  | publish x p data =>
    obtain ⟨hphase, rfl⟩ := step_publish hstep
    have hnothing : sendResults [((s.node x).publish p data).2] = [] := by
      unfold Node.publish
      split
      · rfl
      · rfl
    refine ⟨hjudged, fun j => ?_, fun j hconnected k => ?_⟩
    · by_cases hjx : j = x
      · subst hjx
        simp only [Function.update_self, Ledger.record_trace, sendResults_append, hnothing,
          List.append_nil]
        exact h.sent j
      · simp only [Function.update_of_ne hjx]
        exact h.sent j
    · by_cases hjx : j = x
      · subst hjx
        simp only [Function.update_self, Node.incoming, Node.publish_subscribers]
        exact h.drained j hphase k
      · simp only [Function.update_of_ne hjx]
        exact h.drained j hconnected k
  | spin x receive env =>
    obtain ⟨hphase, reception, origin, rest, _, hcases⟩ := step_spin hstep
    rcases hcases with ⟨fault, _, rfl⟩ | ⟨out, hout, rfl⟩
    · refine hquiet (fun _ => rfl) fun j hconnected => ?_
      by_cases hjx : j = x
      · subst hjx
        simp at hconnected
      · simp only [Function.update_of_ne hjx] at hconnected
        exact .inr ⟨hconnected, rfl⟩
    · obtain ⟨_, _, hactive⟩ := (hchronicle.history x).active hphase
      obtain ⟨hsent, hok⟩ := Node.spinOnce_sendResults ha hout
      have hafter := ((hactive.equipped hnodes).spinOnce_delivers (h.drained x hphase) hout hok).2.2
      refine ⟨hjudged, fun j => ?_, fun j hconnected k => ?_⟩
      · by_cases hjx : j = x
        · subst hjx
          simp only [Function.update_self, Ledger.recordAll_trace, sendResults_append]
          intro sent hmem
          rcases List.mem_append.mp hmem with hmem | hmem
          · exact h.sent j sent hmem
          · exact hsent sent hmem
        · simp only [Function.update_of_ne hjx]
          exact h.sent j
      · by_cases hjx : j = x
        · subst hjx
          simp only [Function.update_self]
          exact hafter k
        · simp only [Function.update_of_ne hjx]
          exact h.drained j hconnected k
  | loseUp => exact ha.elim
  | loseDown => exact ha.elim

end System
end Crps
