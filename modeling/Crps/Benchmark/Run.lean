import Crps.Benchmark.Node
import Crps.System.Deliveries

/-!
# Benchmark processes over one broker

Generators and reflectors with their nodes. What the applications have seen so
far is kept with them, and an event's position there is its place in time.
-/

namespace Crps

/-- Nodes and broker, what each process keeps, and what the applications have seen so far. -/
structure Benchmark (ι : Type) where
  system : System ι
  state : ι → BenchmarkState
  seen : List (BusEvent (ι × ℕ) (ι × ℕ) Bytes)

/-- As for the system, but the generators publish nothing but pings and the callbacks are the
benchmark's. -/
inductive BenchmarkAction (ι : Type) where
  | connect (i : ι)
  | rpcReturn (i : ι)
  | broker (i : ι)
  | ping (i : ι)
  | spin (i : ι) (receive : Bool) (sendto : List SpinEvent → Bytes → Bool)
  | loseUp (i : ι) (position : ℕ)
  | loseDown (i : ι) (position : ℕ)

namespace BenchmarkAction

variable {ι : Type}

def IsReliable : BenchmarkAction ι → Prop
  | .spin _ _ sendto => ∀ events packet, sendto events packet = true
  | .loseUp _ _ => False
  | .loseDown _ _ => False
  | _ => True

variable [DecidableEq ι]

def isSpin (i : ι) : BenchmarkAction ι → Bool
  | .spin x _ _ => x = i
  | _ => false

def isBroker (i : ι) : BenchmarkAction ι → Bool
  | .broker x => x = i
  | _ => false

def isReception (j : ι) : BenchmarkAction ι → Bool
  | .spin x true _ => x = j
  | _ => false

end BenchmarkAction

namespace Benchmark

variable {ι : Type}

def initial (nodes : ι → Node) : Benchmark ι where
  system := .initial nodes
  state := fun _ => {}
  seen := []

section Steps

variable [DecidableEq ι] (net : Deployment ι) (apps : ι → BenchmarkNode) (clock : ℕ → UInt64)

/-- The environment that a process is to its node's `spin_once`. -/
def environment (app : BenchmarkNode) (nodeId : BpNodeId)
    (sendto : List SpinEvent → Bytes → Bool) : SpinEnvironment where
  callback _ _ message := app.callback nodeId message
  sendto := sendto

/-- What an action is to nodes and broker. It is `now` when a ping gets its time stamp. -/
def action (b : Benchmark ι) (now : UInt64) : BenchmarkAction ι → Option (Action ι)
  | .connect i => some (.connect i)
  | .rpcReturn i => some (.rpcReturn i)
  | .broker i => some (.broker i)
  | .ping i =>
    if (apps i).benchNodeType = "generator" then
      some (.publish i 0 (BenchmarkNode.pointer (BenchmarkHeader.ping (apps i).messageSize.toNat
        (b.system.node i).nodeId now (b.state i).counter)))
    else none
  | .spin i receive sendto =>
    some (.spin i receive (environment (apps i) (b.system.node i).nodeId sendto))
  | .loseUp i position => some (.loseUp i position)
  | .loseDown i position => some (.loseDown i position)

/-- The process enters the messages of its callbacks; event `n` happens at `clock n`. -/
def record (app : BenchmarkNode) :
    ℕ → List (BusEvent (ι × ℕ) (ι × ℕ) Bytes) → BenchmarkState → BenchmarkState
  | _, [], state => state
  | n, .callback _ message :: events, state =>
    record app (n + 1) events (app.callbackState (clock n) message state)
  | n, .publish _ _ _ :: events, state => record app (n + 1) events state

/-- A ping counts, whether `publish` has taken it or not. -/
def count (state : BenchmarkState) : BenchmarkAction ι → BenchmarkState
  | .ping _ => { state with counter := state.counter + 1 }
  | _ => state

def step (b : Benchmark ι) (a : BenchmarkAction ι) : Option (Benchmark ι) := do
  let action ← b.action apps (clock b.seen.length) a
  let system ← b.system.step net action
  let i := action.node
  let events := b.system.seen system i
  let state := count (record clock (apps i) b.seen.length events (b.state i)) a
  return { system, state := Function.update b.state i state, seen := b.seen ++ events }

def run : Benchmark ι → List (BenchmarkAction ι) → Option (Benchmark ι)
  | b, [] => some b
  | b, a :: as => (b.step net apps clock a).bind fun b' => b'.run as

end Steps

/-! ## What a step does -/

section Cases

variable [DecidableEq ι] {net : Deployment ι} {apps : ι → BenchmarkNode} {clock : ℕ → UInt64}
variable {b b' b'' : Benchmark ι} {a : BenchmarkAction ι} {as bs : List (BenchmarkAction ι)}

/-- A step is one of nodes and broker, with the events of a call or none. -/
structure Moves (net : Deployment ι) (apps : ι → BenchmarkNode) (clock : ℕ → UInt64)
    (b b' : Benchmark ι) (a : BenchmarkAction ι) (action : Action ι) (es : List SpinEvent) :
    Prop where
  means : b.action apps (clock b.seen.length) a = some action
  system : b.system.step net action = some b'.system
  calls : System.Calls net.text b.system action es
  trace : (b'.system.ledger action.node).trace = (b.system.ledger action.node).trace ++ es
  others : ∀ x ≠ action.node, (b'.system.ledger x).trace = (b.system.ledger x).trace
  seen : b'.seen = b.seen ++ es.filterMap (System.observe action.node)
  state : b'.state = Function.update b.state action.node (count (record clock (apps action.node)
    b.seen.length (es.filterMap (System.observe action.node)) (b.state action.node)) a)

theorem exists_moves (h : b.step net apps clock a = some b') :
    ∃ action es, Moves net apps clock b b' a action es := by
  simp only [step, Option.bind_eq_bind, Option.bind_eq_some_iff] at h
  obtain ⟨action, haction, system, hsystem, hb'⟩ := h
  injection hb' with hb'
  subst hb'
  obtain ⟨es, hcalls, htrace, hothers⟩ := System.step_calls hsystem
  have hseen := System.seen_of_trace htrace
  exact ⟨action, es, haction, hsystem, hcalls, htrace, hothers, by rw [hseen], by rw [hseen]⟩

omit [DecidableEq ι] in
theorem histograms_count (state : BenchmarkState) (a : BenchmarkAction ι) :
    (count state a).histograms = state.histograms := by
  cases a <;> rfl

omit [DecidableEq ι] in
theorem holds_count {state : BenchmarkState} {reflectorId : BpNodeId} {value : UInt64} :
    (count state a).Holds reflectorId value ↔ state.Holds reflectorId value := by
  unfold BenchmarkState.Holds
  rw [histograms_count]

omit [DecidableEq ι] in
theorem sound_count {state : BenchmarkState} : (count state a).Sound ↔ state.Sound := by
  constructor
  · rintro ⟨hsorted, hsize, hfilled⟩
    rw [histograms_count] at hsorted hsize hfilled
    exact ⟨hsorted, hsize, hfilled⟩
  · rintro ⟨hsorted, hsize, hfilled⟩
    constructor
    all_goals rwa [histograms_count]

theorem run_append :
    b.run net apps clock (as ++ bs) = (b.run net apps clock as).bind fun b' =>
      b'.run net apps clock bs := by
  induction as generalizing b with
  | nil => rfl
  | cons a as ih =>
    simp only [List.cons_append, run]
    cases b.step net apps clock a with
    | none => rfl
    | some b₁ => exact ih

theorem run_trans (h : b.run net apps clock as = some b')
    (h' : b'.run net apps clock bs = some b'') : b.run net apps clock (as ++ bs) = some b'' := by
  rw [run_append, h, Option.bind_some, h']

/-- An action of nodes and broker counts as what the processes do. -/
structure Translated (a : BenchmarkAction ι) (action : Action ι) : Prop where
  reliable : a.IsReliable → action.IsReliable
  spin : ∀ i, action.isSpin i = a.isSpin i
  broker : ∀ i, action.isBroker i = a.isBroker i
  reception : ∀ i, action.isReception i = a.isReception i

theorem translated_of_action {now : UInt64} {action : Action ι}
    (h : b.action apps now a = some action) : Translated a action := by
  cases a with
  | ping i =>
    simp only [Benchmark.action] at h
    split_ifs at h
    injection h with h
    subst h
    exact ⟨fun _ => trivial, fun _ => rfl, fun _ => rfl, fun _ => rfl⟩
  | spin i receive sendto =>
    injection h with h
    subst h
    refine ⟨fun hsends => hsends, fun _ => rfl, fun _ => rfl, fun _ => ?_⟩
    cases receive <;> rfl
  | loseUp =>
    injection h with h
    subst h
    exact ⟨False.elim, fun _ => rfl, fun _ => rfl, fun _ => rfl⟩
  | loseDown =>
    injection h with h
    subst h
    exact ⟨False.elim, fun _ => rfl, fun _ => rfl, fun _ => rfl⟩
  | _ =>
    injection h with h
    subst h
    exact ⟨fun _ => trivial, fun _ => rfl, fun _ => rfl, fun _ => rfl⟩

/-- A run of the processes is one of nodes and broker, and shows what that shows. -/
theorem run_system (h : b.run net apps clock as = some b') : ∃ actions,
    List.Forall₂ Translated as actions ∧ b.system.run net actions = some b'.system ∧
      b'.seen = b.seen ++ System.observations net b.system actions := by
  induction as generalizing b with
  | nil =>
    injection h with h
    subst h
    exact ⟨[], .nil, rfl, (List.append_nil _).symm⟩
  | cons a as ih =>
    obtain ⟨b₁, hstep, hrest⟩ := Option.bind_eq_some_iff.mp h
    obtain ⟨action, es, hmoves⟩ := exists_moves hstep
    obtain ⟨actions, htranslated, hactions, hlater⟩ := ih hrest
    refine ⟨action :: actions, .cons (translated_of_action hmoves.means) htranslated, ?_, ?_⟩
    · rw [System.run, hmoves.system]
      exact hactions
    · rw [hlater, hmoves.seen, List.append_assoc]
      simp only [System.observations, hmoves.system, System.seen_of_trace hmoves.trace]

theorem reliable_of_translated {actions : List (Action ι)}
    (h : List.Forall₂ Translated as actions) (hreliable : ∀ a ∈ as, a.IsReliable) :
    ∀ action ∈ actions, action.IsReliable := by
  induction h with
  | nil => simp
  | cons hfirst _ ih =>
    rw [List.forall_mem_cons] at hreliable ⊢
    exact ⟨hfirst.reliable hreliable.1, ih hreliable.2⟩

theorem countP_of_translated {actions : List (Action ι)} (h : List.Forall₂ Translated as actions)
    {f : BenchmarkAction ι → Bool} {g : Action ι → Bool}
    (hsame : ∀ a action, Translated a action → g action = f a) :
    actions.countP g = as.countP f := by
  induction h with
  | nil => rfl
  | cons hfirst _ ih => simp only [List.countP_cons, ih, hsame _ _ hfirst]

/-! ## Whole runs -/

/-- What every step preserves, given the histories behind its state, holds after a run. -/
theorem run_invariant {nodes : ι → Node} (hnodes : ∀ i, Node.Created (nodes i)) {r : Registry}
    {P : Benchmark ι → Prop}
    (hstep : ∀ a ∈ as, ∀ b b' r, System.Chronicle net nodes b.system r → P b →
      b.step net apps clock a = some b' → P b')
    (hchronicle : System.Chronicle net nodes b.system r) (h : P b)
    (hrun : b.run net apps clock as = some b') :
    P b' ∧ ∃ r', System.Chronicle net nodes b'.system r' := by
  induction as generalizing b r with
  | nil =>
    injection hrun with hrun
    exact hrun ▸ ⟨h, r, hchronicle⟩
  | cons a as ih =>
    obtain ⟨b₁, hfirst, hrest⟩ := Option.bind_eq_some_iff.mp hrun
    obtain ⟨_, _, hmoves⟩ := exists_moves hfirst
    obtain ⟨r₁, horderly, _, hhistory⟩ :=
      System.step_history hnodes hchronicle.orderly hchronicle.history hmoves.system
    exact ih (fun a' ha' => hstep a' (List.mem_cons_of_mem a ha')) ⟨horderly, hhistory⟩
      (hstep a List.mem_cons_self b b₁ r hchronicle h hfirst) hrest

theorem Moves.kept {nodes : ι → Node} {r : Registry} {action : Action ι} {es : List SpinEvent}
    (h : Moves net apps clock b b' a action es)
    (hchronicle : System.Chronicle net nodes b.system r) (i : ι)
    (hphase : b.system.phase i = .connected) : b'.system.phase i = .connected ∧
      (b'.system.node i).nodeId = (b.system.node i).nodeId :=
  ⟨System.step_connected hchronicle.orderly h.system hphase,
    congrArg NodeConfig.nodeId (hchronicle.config_kept h.system hphase)⟩

theorem run_kept {nodes : ι → Node} (hnodes : ∀ i, Node.Created (nodes i)) {r : Registry}
    (hchronicle : System.Chronicle net nodes b.system r)
    (hrun : b.run net apps clock as = some b') :
    (∀ i, b.system.phase i = .connected → b'.system.phase i = .connected ∧
      (b'.system.node i).nodeId = (b.system.node i).nodeId) ∧
      ∃ r', System.Chronicle net nodes b'.system r' := by
  apply run_invariant hnodes _ hchronicle _ hrun
  · intro a _ b₁ b₂ r₁ h₁ hkept hstep i hphase
    obtain ⟨_, _, hmoves⟩ := exists_moves hstep
    obtain ⟨hphase₁, hid⟩ := hkept i hphase
    obtain ⟨hphase₂, hid'⟩ := hmoves.kept h₁ i hphase₁
    exact ⟨hphase₂, hid'.trans hid⟩
  · exact fun i hphase => ⟨hphase, rfl⟩

/-- Where the actions mean the same in every state, a run of nodes and broker is one of the
processes. -/
theorem exists_run_of_system {actions : List (Action ι)}
    (hmeans : List.Forall₂ (fun a action => ∀ (b : Benchmark ι) now, b.action apps now a =
      some action) as actions) {s' : System ι} (hrun : b.system.run net actions = some s') :
    ∃ b', b.run net apps clock as = some b' ∧ b'.system = s' := by
  induction hmeans generalizing b with
  | nil =>
    injection hrun with hrun
    exact ⟨b, rfl, hrun⟩
  | @cons a action as actions hfirst _ ih =>
    obtain ⟨s₁, hstep, hrest⟩ := Option.bind_eq_some_iff.mp hrun
    obtain ⟨b₁, hb₁, rfl⟩ : ∃ b₁, b.step net apps clock a = some b₁ ∧ b₁.system = s₁ := by
      simp only [step, hfirst, hstep, Option.bind_eq_bind, Option.bind_some]
      exact ⟨_, rfl, rfl⟩
    obtain ⟨b', hb', hs'⟩ := ih hrest
    exact ⟨b', by rw [run, hb₁]; exact hb', hs'⟩

theorem taken_observed (x : ι) (es : List SpinEvent) (p : ι × ℕ) :
    Bus.taken p (es.filterMap (System.observe x)) =
      if p.1 = x then acceptedPayloads es p.2 else [] := by
  obtain ⟨i, k⟩ := p
  simp only [Bus.taken, acceptedPayloads, List.filterMap_filterMap]
  by_cases hx : i = x
  · subst hx
    rw [if_pos rfl]
    congr 1
    funext e
    cases e with
    | publish j payload taken => cases taken <;> simp [System.observe]
    | _ => rfl
  · rw [if_neg hx, List.filterMap_eq_nil_iff]
    intro e _
    cases e with
    | publish j payload taken => cases taken <;> simp [System.observe, Ne.symm hx]
    | _ => rfl

theorem run_taken (h : ∀ p, Bus.taken p b.seen = acceptedPayloads (b.system.ledger p.1).trace p.2)
    (hrun : b.run net apps clock as = some b') (p : ι × ℕ) :
    Bus.taken p b'.seen = acceptedPayloads (b'.system.ledger p.1).trace p.2 := by
  induction as generalizing b with
  | nil =>
    injection hrun with hrun
    exact hrun ▸ h p
  | cons a as ih =>
    obtain ⟨b₁, hfirst, hrest⟩ := Option.bind_eq_some_iff.mp hrun
    obtain ⟨action, es, hmoves⟩ := exists_moves hfirst
    apply ih (fun q => ?_) hrest
    rw [hmoves.seen, Bus.taken_append, taken_observed, h q]
    by_cases hq : q.1 = action.node
    · rw [if_pos hq, hq, hmoves.trace, acceptedPayloads_append]
    · rw [if_neg hq, hmoves.others _ hq, List.append_nil]

theorem run_seen (hrun : b.run net apps clock as = some b') {n : ℕ}
    {event : BusEvent (ι × ℕ) (ι × ℕ) Bytes} (hat : b.seen[n]? = some event) :
    b'.seen[n]? = some event := by
  obtain ⟨_, _, _, hgrown⟩ := run_system hrun
  rw [hgrown, List.getElem?_append_left (List.getElem?_eq_some_iff.mp hat).1]
  exact hat

theorem run_bus {nodes : ι → Node} (hnodes : ∀ i, Node.Created (nodes i))
    (hrun : (initial nodes).run net apps clock as = some b)
    (hfit : ∀ x, DatagramsFit (nodes x) (b.system.ledger x).trace)
    (hsmall : b.system.broker.tables.Small) :
    Bus.Runs (System.busShape nodes) .empty b.seen (System.bus b.system.ledger) := by
  obtain ⟨actions, _, hsystem, hseen⟩ := run_system hrun
  rw [hseen]
  exact System.run_observed hnodes (System.chronicle_initial net nodes)
    (System.conveys_initial nodes) hsystem hfit hsmall

end Cases

/-! ## Round trips -/

/-- Two processes that can be each other's generator and reflector. -/
structure Partners (app app' : BenchmarkNode) : Prop where
  topicName : app.topicName = app'.topicName
  messageTypeName : app.messageTypeName = app'.messageTypeName
  messageSize : app.messageSize = app'.messageSize

theorem Partners.topic {app app' : BenchmarkNode} (h : Partners app app')
    (hother : app.benchNodeType = "generator" ↔ app'.benchNodeType ≠ "generator") :
    app.publishedTopic = app'.subscribedTopic := by
  unfold BenchmarkNode.publishedTopic BenchmarkNode.subscribedTopic
  rw [h.topicName]
  by_cases hgenerator : app.benchNodeType = "generator"
  · rw [if_pos hgenerator, if_neg (hother.mp hgenerator)]
  · rw [if_neg hgenerator, if_pos (not_not.mp (mt hother.mpr hgenerator))]

/-- Generator `g` publishes a ping as event `n₀`, reflector `r` gets it and publishes a pong,
generator `i` gets that as event `n₃`. -/
structure RoundTrip (apps : ι → BenchmarkNode) (clock : ℕ → UInt64) (b : Benchmark ι) (g r i : ι)
    (ping pong : Bytes) (n₀ n₁ n₂ n₃ : ℕ) : Prop where
  types : (apps g).benchNodeType = "generator" ∧ (apps r).benchNodeType = "reflector" ∧
    (apps i).benchNodeType = "generator"
  partners : Partners (apps g) (apps r) ∧ Partners (apps r) (apps i)
  made : ∃ counter, ping = BenchmarkHeader.ping (apps g).messageSize.toNat
    (b.system.node g).nodeId (clock n₀) counter
  stamped : pong = BenchmarkHeader.stamp (b.system.node r).nodeId ping
  order : n₀ < n₁ ∧ n₁ < n₂ ∧ n₂ < n₃
  published : b.seen[n₀]? = some (.publish (g, 0) ping true)
  arrived : b.seen[n₁]? = some (.callback (r, 0) ping)
  reflected : b.seen[n₂]? = some (.publish (r, 0) pong true)
  returned : b.seen[n₃]? = some (.callback (i, 0) pong)

section Hears

variable {apps : ι → BenchmarkNode} {nodes : ι → Node} {i : ι}

theorem callback_of_observed {es : List SpinEvent} {q : ι × ℕ} {message : Bytes}
    (h : .callback q message ∈ es.filterMap (System.observe i)) : ∃ k, q = (i, k) := by
  obtain ⟨e, _, he⟩ := List.mem_filterMap.mp h
  cases e with
  | callback k data =>
    simp only [System.observe, Option.some.injEq, BusEvent.callback.injEq] at he
    exact ⟨k, he.1.symm⟩
  | publish => cases he
  | queueMessage => cases he
  | sendto => cases he

theorem hears_cases (hsetUp : ∀ i, (apps i).setUp = some (nodes i)) {p q : ι × ℕ}
    (h : (System.busShape nodes).Hears q p) : p.2 = 0 ∧ q.2 = 0 ∧
      (apps p.1).topicName = (apps q.1).topicName ∧
      (apps p.1).messageTypeName = (apps q.1).messageTypeName ∧
      ((apps p.1).benchNodeType = "generator" ↔ (apps q.1).benchNodeType ≠ "generator") := by
  obtain ⟨pub, sub, hpub, hsub, htopic, htype⟩ := h
  rw [(BenchmarkNode.equips_of_setUp (hsetUp p.1)).publishers, List.getElem?_singleton] at hpub
  rw [(BenchmarkNode.equips_of_setUp (hsetUp q.1)).subscribers, List.getElem?_singleton] at hsub
  split_ifs at hpub with hp
  split_ifs at hsub with hq
  injection hpub with hpub
  injection hsub with hsub
  subst hpub hsub
  obtain ⟨hname, hkind⟩ := BenchmarkNode.topics_agree htopic
  exact ⟨hp, hq, hname, htype, hkind⟩

theorem RoundTrip.read {clock : ℕ → UInt64} {b : Benchmark ι} {g r : ι} {ping pong : Bytes}
    {n₀ n₁ n₂ n₃ : ℕ} (h : RoundTrip apps clock b g r i ping pong n₀ n₁ n₂ n₃)
    (hsetUp : ∀ i, (apps i).setUp = some (nodes i)) :
    pong.length = (apps i).messageSize.toNat ∧
      (BenchmarkHeader.read pong).reflectorId = (b.system.node r).nodeId ∧
      (BenchmarkHeader.read pong).generatorTimestamp = clock n₀ := by
  obtain ⟨counter, hping⟩ := h.made
  have hroom : BenchmarkHeader.size ≤ (apps g).messageSize.toNat :=
    (BenchmarkNode.equips_of_setUp (hsetUp g)).room
  have hlength : ping.length = (apps g).messageSize.toNat := by
    rw [hping, BenchmarkHeader.length_ping]
  have hread : BenchmarkHeader.read pong =
      ⟨(b.system.node g).nodeId, (b.system.node r).nodeId, clock n₀, counter⟩ := by
    rw [h.stamped, BenchmarkHeader.read_stamp (hlength ▸ hroom), hping,
      BenchmarkHeader.read_ping hroom]
  rw [hread, h.stamped, BenchmarkHeader.length_stamp, hlength, h.partners.1.messageSize,
    h.partners.2.messageSize]
  exact ⟨rfl, rfl, rfl⟩

end Hears

end Benchmark
end Crps
