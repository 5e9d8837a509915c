import Crps.Benchmark.Run
import Crps.Node.Callbacks

/-!
# Where messages and samples come from

What a generator publishes is a ping with the time of that moment, what a
reflector publishes is a message it has got, with its id in it. What stands in
a histogram are differences between the time of a callback and the time stamp
in its message.
-/

namespace Crps
namespace Benchmark

variable {ι : Type}

/-! ## What is seen of one call -/

section Seen

variable {app : BenchmarkNode} {nodeId : BpNodeId} {i : ι} {n : Node} {message : Bytes}
variable {sendto : List SpinEvent → Bytes → Bool} {out : Node.SpinOutcome}

/-- The node's first publisher takes messages of the size that the process has been given. -/
def Sized (app : BenchmarkNode) (cfg : NodeConfig) : Prop :=
  ∃ info, cfg.publishers[0]? = some info ∧ info.messageSize = app.messageSize

theorem Sized.payload (h : Sized app n.config) (hlength : message.length = app.messageSize.toNat) :
    Node.publishedPayload n.config 0 (BenchmarkNode.pointer message) = message := by
  obtain ⟨info, hinfo, hsize⟩ := h
  rw [Node.publishedPayload, hinfo, Option.elim_some, hsize, ← hlength]
  exact BenchmarkNode.slice_pointer message

/-- Reflectors publish messages that they have got, with their own id in them; nobody else
publishes during `spin_once`. -/
theorem published_of_spin {text : JsonText} {reception : Reception}
    (hout : n.spinOnce text reception (environment app nodeId sendto) = .ok out)
    (hsized : Sized app n.config) {t : ℕ} {p : ι × ℕ} {payload : Bytes}
    {taken : Bool} (hpublish : (out.events.filterMap (System.observe i))[t]? =
      some (.publish p payload taken)) :
    p = (i, 0) ∧ app.benchNodeType ≠ "generator" ∧ ∃ k message,
      .callback (i, k) message ∈ (out.events.filterMap (System.observe i)).take t ∧
        message.length = app.messageSize.toNat ∧
          payload = BenchmarkHeader.stamp nodeId message := by
  obtain ⟨u, e, hevent, he, hbefore, _⟩ := System.exists_of_observed hpublish
  obtain ⟨k, rfl, rfl⟩ : ∃ k, e = .publish k payload taken ∧ p = (i, k) := by
    cases e with
    | publish k message taken' =>
      simp only [System.observe, Option.some.injEq, BusEvent.publish.injEq] at he
      obtain ⟨rfl, rfl, rfl⟩ := he
      exact ⟨k, rfl, rfl⟩
    | queueMessage => cases he
    | callback => cases he
    | sendto => cases he
  obtain ⟨t', j, message, data, ht, hcallback, hdata, hpayload⟩ :=
    Node.spinOnce_explained hout u k payload taken hevent
  obtain ⟨htype, hlength, rfl, rfl⟩ := BenchmarkNode.mem_callback hdata
  refine ⟨rfl, htype, j, message, ?_, hlength, ?_⟩
  · rw [← hbefore]
    refine List.mem_filterMap.mpr ⟨.callback j message, ?_, rfl⟩
    apply List.mem_of_getElem?
    rw [List.getElem?_take_of_lt ht]
    exact hcallback
  · rw [hpayload]
    apply hsized.payload
    rw [BenchmarkHeader.length_stamp, hlength]

end Seen

/-! ## What a process records -/

section Records

variable {app : BenchmarkNode} {clock : ℕ → UInt64} {state : BenchmarkState} {n : ℕ}
variable {events : List (BusEvent (ι × ℕ) (ι × ℕ) Bytes)}

/-- The sample of a message that arrives at a time, for the histogram of this reflector. -/
structure Sampled (app : BenchmarkNode) (now : UInt64) (message : Bytes) (reflectorId : BpNodeId)
    (value : UInt64) : Prop where
  generator : app.benchNodeType = "generator"
  length : message.length = app.messageSize.toNat
  reflector : reflectorId = (BenchmarkHeader.read message).reflectorId
  difference : value = now - (BenchmarkHeader.read message).generatorTimestamp

theorem callbackState_sound {now : UInt64} {message : Bytes} (h : state.Sound) :
    (app.callbackState now message state).Sound := by
  unfold BenchmarkNode.callbackState BenchmarkNode.pongCallback
  split_ifs
  · exact h
  · exact h.addLatency
  · exact h

theorem mem_callbackState {now : UInt64} {message : Bytes} {entry : BpNodeId × Histogram}
    {value : UInt64} (hentry : entry ∈ (app.callbackState now message state).histograms)
    (hvalue : value ∈ entry.2.samples) :
    (∃ old ∈ state.histograms, old.1 = entry.1 ∧ value ∈ old.2.samples) ∨
      Sampled app now message entry.1 value := by
  unfold BenchmarkNode.callbackState BenchmarkNode.pongCallback at hentry
  split_ifs at hentry with hgenerator hsize
  · exact .inl ⟨entry, hentry, rfl, hvalue⟩
  · rcases BenchmarkState.mem_addLatency hentry hvalue with hold | ⟨hreflector, hlatency⟩
    · exact .inl hold
    · exact .inr ⟨hgenerator, (not_not.mp hsize).symm, hreflector, hlatency⟩
  · exact .inl ⟨entry, hentry, rfl, hvalue⟩

theorem record_sound (h : state.Sound) : (record clock app n events state).Sound := by
  induction events generalizing n state with
  | nil => exact h
  | cons e events ih =>
    cases e with
    | publish => exact ih h
    | callback => exact ih (callbackState_sound h)

theorem mem_record {entry : BpNodeId × Histogram} {value : UInt64}
    (hentry : entry ∈ (record clock app n events state).histograms)
    (hvalue : value ∈ entry.2.samples) :
    (∃ old ∈ state.histograms, old.1 = entry.1 ∧ value ∈ old.2.samples) ∨
      ∃ t q message, events[t]? = some (.callback q message) ∧
        Sampled app (clock (n + t)) message entry.1 value := by
  induction events generalizing n state with
  | nil => exact .inl ⟨entry, hentry, rfl, hvalue⟩
  | cons e events ih =>
    have hlater : ∀ {t q message}, events[t]? = some (.callback q message) →
        Sampled app (clock (n + 1 + t)) message entry.1 value →
        ∃ t q message, (e :: events)[t]? = some (.callback q message) ∧
          Sampled app (clock (n + t)) message entry.1 value := by
      intro t q message hat hsampled
      refine ⟨t + 1, q, message, hat, ?_⟩
      rwa [Nat.add_comm t 1, ← Nat.add_assoc]
    cases e with
    | publish =>
      rcases ih hentry with hold | ⟨t, q, message, hat, hsampled⟩
      · exact .inl hold
      · exact .inr (hlater hat hsampled)
    | callback q message =>
      rcases ih hentry with ⟨old, hold, hsame, hmem⟩ | ⟨t, q', message', hat, hsampled⟩
      · rcases mem_callbackState hold hmem with ⟨older, holder, hsame', hmem'⟩ | hsampled
        · exact .inl ⟨older, holder, hsame'.trans hsame, hmem'⟩
        · exact .inr ⟨0, q, message, rfl, hsame ▸ hsampled⟩
      · exact .inr (hlater hat hsampled)

theorem Holds.callbackState {now : UInt64} {message : Bytes} {reflectorId : BpNodeId}
    {value : UInt64} (h : state.Holds reflectorId value) :
    (app.callbackState now message state).Holds reflectorId value := by
  unfold BenchmarkNode.callbackState BenchmarkNode.pongCallback
  split_ifs
  · exact h
  · exact h.addLatency
  · exact h

theorem Holds.record {reflectorId : BpNodeId} {value : UInt64}
    (h : state.Holds reflectorId value) :
    (record clock app n events state).Holds reflectorId value := by
  induction events generalizing n state with
  | nil => exact h
  | cons e events ih =>
    cases e with
    | publish => exact ih h
    | callback => exact ih (Holds.callbackState h)

theorem holds_record {t : ℕ} {q : ι × ℕ} {message : Bytes} {reflectorId : BpNodeId}
    {value : UInt64} (hat : events[t]? = some (.callback q message))
    (hsampled : Sampled app (clock (n + t)) message reflectorId value) :
    (record clock app n events state).Holds reflectorId value := by
  induction events generalizing n state t with
  | nil => cases hat
  | cons e events ih =>
    cases t with
    | zero =>
      injection hat with hat
      subst hat
      have hfirst : record clock app n (.callback q message :: events) state =
          record clock app (n + 1) events (app.callbackState (clock n) message state) := rfl
      rw [hfirst]
      apply Holds.record
      rw [hsampled.reflector, hsampled.difference]
      unfold BenchmarkNode.callbackState BenchmarkNode.pongCallback
      rw [if_pos hsampled.generator, if_neg (not_not.mpr hsampled.length.symm)]
      exact BenchmarkState.holds_addLatency _ _ _
    | succ t =>
      rw [Nat.add_comm t 1, ← Nat.add_assoc] at hsampled
      cases e with
      | publish => exact ih hat hsampled
      | callback => exact ih hat hsampled

end Records

/-! ## What is true of everything seen so far -/

section Measures

variable (apps : ι → BenchmarkNode) (clock : ℕ → UInt64)

/-- What node `i` may publish as event `n`: a generator its ping, a reflector a message that it has
got before, with its own id in it. -/
inductive Made (s : System ι) (seen : List (BusEvent (ι × ℕ) (ι × ℕ) Bytes)) (n : ℕ) (i : ι) :
    Bytes → Prop
  | ping (counter : UInt64) : (apps i).benchNodeType = "generator" →
      Made s seen n i (BenchmarkHeader.ping (apps i).messageSize.toNat (s.node i).nodeId (clock n)
        counter)
  | pong (k : ℕ) {message : Bytes} : (apps i).benchNodeType ≠ "generator" →
      .callback (i, k) message ∈ seen.take n → message.length = (apps i).messageSize.toNat →
      Made s seen n i (BenchmarkHeader.stamp (s.node i).nodeId message)

/-- Where the messages and the samples come from. -/
structure Measured (b : Benchmark ι) : Prop where
  made : ∀ n i k payload taken, b.seen[n]? = some (.publish (i, k) payload taken) →
    b.system.phase i = .connected ∧ Made apps clock b.system b.seen n i payload
  sampled : ∀ i, ∀ entry ∈ (b.state i).histograms, ∀ value ∈ entry.2.samples, ∃ n k message,
    b.seen[n]? = some (.callback (i, k) message) ∧
      Sampled (apps i) (clock n) message entry.1 value
  held : ∀ n i k message reflectorId value, b.seen[n]? = some (.callback (i, k) message) →
    Sampled (apps i) (clock n) message reflectorId value → (b.state i).Holds reflectorId value
  sound : ∀ i, (b.state i).Sound

variable {apps : ι → BenchmarkNode} {clock : ℕ → UInt64} {s s' : System ι} {n : ℕ} {i : ι}
variable {seen es : List (BusEvent (ι × ℕ) (ι × ℕ) Bytes)} {payload message : Bytes}

theorem Made.kept {seen' : List (BusEvent (ι × ℕ) (ι × ℕ) Bytes)}
    (h : Made apps clock s seen n i payload) (hid : (s'.node i).nodeId = (s.node i).nodeId)
    (hseen : seen'.take n = seen.take n) : Made apps clock s' seen' n i payload := by
  cases h with
  | ping counter hgenerator =>
    rw [← hid]
    exact .ping counter hgenerator
  | pong k hreflector hcallback hlength =>
    rw [← hid]
    exact .pong k hreflector (hseen ▸ hcallback) hlength

theorem measured_initial (nodes : ι → Node) : Measured apps clock (initial nodes) := by
  refine ⟨fun n i k payload taken h => ?_, fun i entry h => ?_,
    fun n i k message reflectorId value h => ?_, fun i => ⟨.nil, fun entry h => ?_,
      fun entry h => ?_⟩⟩
  · cases h
  · cases h
  · cases h
  · cases h
  · cases h

variable [DecidableEq ι] {net : Deployment ι} {b b' : Benchmark ι} {a : BenchmarkAction ι}

omit [DecidableEq ι] in
/-- What an action publishes is what it may publish. -/
theorem made_of_calls {action : Action ι} {es : List SpinEvent}
    (hcalls : System.Calls net.text b.system action es)
    (haction : b.action apps (clock b.seen.length) a = some action)
    (hsized : ∀ i, b.system.phase i = .connected → Sized (apps i) (b.system.node i).config)
    {t k : ℕ} {taken : Bool} (hat : (es.filterMap (System.observe action.node))[t]? =
      some (.publish (i, k) payload taken)) :
    b.system.phase i = .connected ∧ Made apps clock b.system
      (b.seen ++ es.filterMap (System.observe action.node)) (b.seen.length + t) i payload := by
  cases a with
  | ping x =>
    simp only [Benchmark.action] at haction
    split_ifs at haction with hgenerator
    injection haction with haction
    subst haction
    cases hcalls with
    | nothing => cases hat
    | publish _ _ _ hphase =>
      obtain ⟨taken', hevent⟩ := Node.publish_event (b.system.node x) 0 (BenchmarkNode.pointer
        (BenchmarkHeader.ping (apps x).messageSize.toNat (b.system.node x).nodeId
          (clock b.seen.length) (b.state x).counter))
      rw [(hsized x hphase).payload (BenchmarkHeader.length_ping ..)] at hevent
      rw [hevent] at hat
      cases t with
      | zero =>
        simp only [System.observe, List.filterMap_cons, List.getElem?_cons_zero, Option.some.injEq,
          BusEvent.publish.injEq, Prod.mk.injEq] at hat
        obtain ⟨⟨rfl, _⟩, rfl, _⟩ := hat
        exact ⟨hphase, .ping _ hgenerator⟩
      | succ t => cases hat
  | spin x receive sendto =>
    injection haction with haction
    subst haction
    cases hcalls with
    | nothing => cases hat
    | spin _ _ _ hphase hout =>
      obtain ⟨hp, htype, j, message, hmem, hlength, rfl⟩ :=
        published_of_spin hout (hsized x hphase) hat
      rw [Prod.mk.injEq] at hp
      obtain ⟨rfl, rfl⟩ := hp
      refine ⟨hphase, .pong j htype ?_ hlength⟩
      rw [List.take_length_add_append]
      exact List.mem_append_right _ hmem
  | _ =>
    injection haction with haction
    subst haction
    cases hcalls
    cases hat

variable {nodes : ι → Node} {r : Registry}

omit [DecidableEq ι] in
theorem sized_of_connected (hsetUp : ∀ i, (apps i).setUp = some (nodes i))
    (h : System.Chronicle net nodes s r) (hphase : s.phase i = .connected) :
    Sized (apps i) (s.node i).config := by
  obtain ⟨n₀, requests, hactive⟩ := (h.history i).active hphase
  have hpublisher : (nodes i).publishers[0]? = some (.create (apps i).publishedTopic
      (apps i).messageTypeName (apps i).messageSize (apps i).topicPriority
      (bpHeaderSize + bpDataHeaderSize)) := by
    rw [(BenchmarkNode.equips_of_setUp (hsetUp i)).publishers]
    rfl
  obtain ⟨q, hq, hsame⟩ :=
    Node.publisherAt_of_blueprint hactive.registered.blueprint hpublisher
  refine ⟨q.info, ?_, congrArg Publisher.messageSize hsame⟩
  rw [hactive.performs.config, Node.config, List.getElem?_map, hq]
  rfl

theorem Measured.step (h : Measured apps clock b)
    (hsetUp : ∀ i, (apps i).setUp = some (nodes i))
    (hchronicle : System.Chronicle net nodes b.system r)
    (hstep : b.step net apps clock a = some b') : Measured apps clock b' := by
  obtain ⟨action, es, hmoves⟩ := exists_moves hstep
  have hseen := hmoves.seen
  have hstate := hmoves.state
  have hkept := hmoves.kept hchronicle
  have hold : ∀ {n : ℕ} {e}, b.seen[n]? = some e → b'.seen[n]? = some e := by
    intro n e hat
    rw [hseen, List.getElem?_append_left (List.getElem?_eq_some_iff.mp hat).1]
    exact hat
  refine ⟨fun n i k payload taken hat => ?_, fun i entry hentry value hvalue => ?_,
    fun n i k message reflectorId value hat hsampled => ?_, fun i => ?_⟩
  · by_cases hn : n < b.seen.length
    · rw [hseen, List.getElem?_append_left hn] at hat
      obtain ⟨hphase, hmade⟩ := h.made n i k payload taken hat
      refine ⟨(hkept i hphase).1, hmade.kept (hkept i hphase).2 ?_⟩
      rw [hseen, List.take_append_of_le_length hn.le]
    · obtain ⟨t, rfl⟩ := Nat.exists_eq_add_of_le (not_lt.mp hn)
      rw [hseen, List.getElem?_append_right (Nat.le_add_right _ _), Nat.add_sub_cancel_left] at hat
      obtain ⟨hphase, hmade⟩ := made_of_calls hmoves.calls hmoves.means
        (fun i hphase => sized_of_connected hsetUp hchronicle hphase) hat
      exact ⟨(hkept i hphase).1, hmade.kept (hkept i hphase).2 (by rw [hseen])⟩
  · have hbefore : (∃ old ∈ (b.state i).histograms, old.1 = entry.1 ∧ value ∈ old.2.samples) →
        ∃ n k message, b'.seen[n]? = some (.callback (i, k) message) ∧
          Sampled (apps i) (clock n) message entry.1 value := by
      rintro ⟨old, hmem, hsame, hsample⟩
      obtain ⟨n, k, message, hat, hsampled⟩ := h.sampled i old hmem value hsample
      exact ⟨n, k, message, hold hat, hsame ▸ hsampled⟩
    rw [hstate] at hentry
    by_cases hi : i = action.node
    · subst hi
      rw [Function.update_self, histograms_count] at hentry
      rcases mem_record hentry hvalue with hsample | ⟨t, q, message, hat, hsampled⟩
      · exact hbefore hsample
      · obtain ⟨k, rfl⟩ := callback_of_observed (List.mem_of_getElem? hat)
        refine ⟨b.seen.length + t, k, message, ?_, hsampled⟩
        rw [hseen, List.getElem?_append_right (Nat.le_add_right _ _), Nat.add_sub_cancel_left]
        exact hat
    · rw [Function.update_of_ne hi] at hentry
      exact hbefore ⟨entry, hentry, rfl, hvalue⟩
  · rw [hstate]
    by_cases hi : i = action.node
    · subst hi
      rw [Function.update_self, holds_count]
      by_cases hn : n < b.seen.length
      · rw [hseen, List.getElem?_append_left hn] at hat
        exact Holds.record (h.held n action.node k message reflectorId value hat hsampled)
      · obtain ⟨t, rfl⟩ := Nat.exists_eq_add_of_le (not_lt.mp hn)
        rw [hseen, List.getElem?_append_right (Nat.le_add_right _ _),
          Nat.add_sub_cancel_left] at hat
        exact holds_record hat hsampled
    · rw [Function.update_of_ne hi]
      rw [hseen] at hat
      by_cases hn : n < b.seen.length
      · rw [List.getElem?_append_left hn] at hat
        exact h.held n i k message reflectorId value hat hsampled
      · rw [List.getElem?_append_right (not_lt.mp hn)] at hat
        obtain ⟨k', hsame⟩ := callback_of_observed (List.mem_of_getElem? hat)
        exact absurd (congrArg Prod.fst hsame) hi
  · rw [hstate]
    by_cases hi : i = action.node
    · subst hi
      rw [Function.update_self]
      exact sound_count.mpr (record_sound (h.sound _))
    · rw [Function.update_of_ne hi]
      exact h.sound i

/-! ## Runs -/

theorem run_measured (hsetUp : ∀ i, (apps i).setUp = some (nodes i))
    {as : List (BenchmarkAction ι)} (hrun : (initial nodes).run net apps clock as = some b) :
    Measured apps clock b :=
  (run_invariant (fun i => (BenchmarkNode.equips_of_setUp (hsetUp i)).created)
    (fun _ _ _ _ _ hchronicle h hstep => h.step hsetUp hchronicle hstep)
    (System.chronicle_initial net nodes) (measured_initial nodes) hrun).1

end Measures

end Benchmark
end Crps
