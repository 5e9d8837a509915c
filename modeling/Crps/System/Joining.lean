import Crps.Broker.Service
import Crps.System.EndToEnd
import Crps.System.Planned

/-!
# A planned deployment comes up

All nodes keep to one plan, nothing gets lost, and nobody publishes before
everybody is in. However the nodes' requests interleave, no `connect` returns
false, none is ever stuck, and any that is not through can still be finished.
-/

namespace Crps

section Situations

variable {plan : Plan} {text : JsonText} {client : String} {start n : Node}
variable {x y : PlannedDesk plan} {phase : Phase} {up down : List Bytes}

/-- The rest of `connect` returns true, whoever else is served meanwhile. -/
def SafeJoin (text : JsonText) (client : String) (m : Session Node Json Json Fault Bool)
    (x : PlannedDesk plan) : Prop :=
  m.Safe (Node.plannedSetting plan text client) (fun _ ok _ => ok = true) x

/-- How far a client has come. Its links carry the open request or its answer and nothing else. -/
inductive Underway (text : JsonText) (client : String) (start : Node) (x : PlannedDesk plan) :
    Phase → Node → List Bytes → List Bytes → Prop
  | created : SafeJoin text client (Node.connect start) x →
      Underway text client start x .created start [] []
  | asked {n : Node} {request : Json} {resume : Node → Json → Session Node Json Json Fault Bool} :
      SafeJoin text client (.call n request resume) x →
      Underway text client start x (.waiting resume) n.nextBpCounter.2
        [(n.sendControl text request).1] []
  | answered {n : Node} {response : Json}
      {resume : Node → Json → Session Node Json Json Fault Bool} (counter : BpCounter) :
      response.Plain → 9 + (text.dump response).length < 2 ^ 32 →
      (∀ n', n.Counted n' → SafeJoin text client (resume n' response) x) →
      Underway text client start x (.waiting resume) n.nextBpCounter.2 []
        [bpControlJsonToPacketBuffer text response counter]
  | connected {n : Node} : Underway text client start x .connected n [] []

theorem SafeJoin.advance {m : Session Node Json Json Fault Bool} (h : SafeJoin text client m x)
    (n : Node) : Underway text client start x (advance text n m).2.1 (advance text n m).1
      (advance text n m).2.2 [] := by
  cases m with
  | ret n' ok =>
    obtain rfl : ok = true := Session.Safe.post h
    exact .connected
  | throw e => exact h.elim
  | call n' request resume =>
    obtain ⟨c, a, _, rfl, _, _, hsize, _⟩ := Node.planned_guarantees h
    have hlen : (n'.sendControl text (Node.requestJson n'.rpcId c)).1.length ≤ maxDatagramSize :=
      (System.length_sendControl n' _).trans_le hsize
    simp only [Crps.advance, if_pos hlen]
    exact .asked h

theorem Underway.others (h : Underway text client start x phase n up down)
    (hxy : (Node.plannedSetting plan text client).rely x y) :
    Underway text client start y phase n up down := by
  cases h with
  | created hsafe => exact .created (Session.Safe.stable hsafe hxy)
  | asked hsafe => exact .asked (Session.Safe.stable hsafe hxy)
  | answered counter hplain hlen hsafe =>
    exact .answered counter hplain hlen fun n' hn' => Session.Safe.stable (hsafe n' hn') hxy
  | connected => exact .connected

end Situations

namespace System

variable {ι : Type} [DecidableEq ι] {net : Deployment ι} {plan : Plan} {nodes : ι → Node}
variable {s s' : System ι} {i : ι} {r : Registry}

/-- Everybody is on the way, over tables that hold nothing unplanned. -/
structure ComingUp (net : Deployment ι) (plan : Plan) (nodes : ι → Node) (s : System ι)
    (r : Registry) : Prop where
  tables : r.tables = s.broker.tables
  covers : plan.Covers r.tables
  running : s.brokerRunning = true
  clients : ∀ i, Underway net.text (net.address i) (nodes i)
    ⟨r, covers, s.broker.clientCounters (net.address i)⟩ (s.phase i) (s.node i)
    ((s.up i).map Datagram.bytes) ((s.down i).map Datagram.bytes)

omit [DecidableEq ι] in
theorem comingUp_initial (htext : net.text.DumpsShort)
    (hnodes : ∀ i, (nodes i).Follows plan (net.address i)) :
    ComingUp net plan nodes (initial nodes) emptyRegistry := by
  refine ⟨rfl, plan.covers_empty, rfl, fun i => .created ?_⟩
  apply Node.planned_connect htext (hnodes i) (.inl rfl)
  rintro id ⟨info, hget, _⟩
  simp [emptyRegistry] at hget

theorem ComingUp.continueConnect (h : ComingUp net plan nodes s r) {n : Node}
    {m : Session Node Json Json Fault Bool} (hup : s.up i = [])
    {down : List (Datagram ι)} (hdown : down = [])
    (hsafe : SafeJoin net.text (net.address i) m
      ⟨r, h.covers, s.broker.clientCounters (net.address i)⟩) :
    ComingUp net plan nodes
      (({ s with down := Function.update s.down i down } : System ι).continueConnect net i n m)
      r := by
  refine ⟨h.tables, h.covers, h.running, fun j => ?_⟩
  by_cases hji : j = i
  · subst hji
    have hnext : Underway net.text (net.address j) (nodes j) ⟨r, h.covers, _⟩
        (advance net.text n m).2.1 (advance net.text n m).1 (advance net.text n m).2.2 [] :=
      hsafe.advance n
    simpa [System.continueConnect, hup, hdown, Function.comp_def] using hnext
  · simpa [System.continueConnect, hji] using h.clients j

/-- The broker answers the open request of a client. -/
theorem comingUp_broker (h : ComingUp net plan nodes s r)
    (hstep : s.step net (.broker i) = some s') :
    (∃ r', ComingUp net plan nodes s' r') ∧ s'.phase = s.phase ∧ s'.up i = [] := by
  obtain ⟨_, d, rest, hup, hcases⟩ := step_broker hstep
  have hi := h.clients i
  rw [hup, List.map_cons] at hi
  generalize hphase : s.phase i = phase at hi
  generalize hnode : s.node i = n at hi
  generalize hlink : (s.down i).map Datagram.bytes = down at hi
  generalize hpacket : d.bytes = packet at hi
  generalize hrest : rest.map Datagram.bytes = packets at hi
  cases hi with
  | @asked n request resume hsafe =>
    obtain ⟨c, a, hc, rfl, hresult, hlast, hsize, hanswer, hnext⟩ := Node.planned_guarantees hsafe
    rw [h.tables] at hresult
    have hexpects : s.broker.Expects (net.address i) (n.bpCounter + 1) := by
      unfold Broker.Expects
      rw [UInt32.add_sub_cancel]
      exact hlast
    have hverify := Broker.verify_of_expects hexpects
    obtain ⟨it, counter, hit, htables, hcounters, hstopped, hattempts⟩ :=
      spinIteration_granted brokerSendto (by rw [hverify]) hresult hsize
        fun counter => brokerSendto_controlPacket 0 _ counter hanswer
    rw [hverify] at hcounters
    have hrest' : rest = [] := List.map_eq_nil_iff.mp hrest
    have hdown : s.down i = [] := List.map_eq_nil_iff.mp hlink
    have hforeign : ∀ j, j ≠ i → net.address j ≠ net.address i :=
      fun j hji he => hji (net.address_injective he)
    have hit' : s.broker.spinIteration net.text brokerSendto (net.address i) d.bytes = .ok it := by
      rw [hpacket]
      exact hit
    rcases hcases with ⟨fault, hfault, _⟩ | ⟨it', hit'', rfl⟩
    · rw [hit'] at hfault
      cases hfault
    rw [hit'] at hit''
    injection hit'' with hit''
    subst hit''
    have hcovers : plan.Covers (r.handle (net.address i) c).tables :=
      h.covers.handled hc (r.tables.handle_handled _ c)
    have hregistry : (r.handle (net.address i) c).tables = it.broker.tables := by
      rw [htables, ← h.tables]
      rfl
    refine ⟨⟨r.handle (net.address i) c, hregistry, hcovers, by simp [hstopped], fun j => ?_⟩, rfl,
      by simp [hrest']⟩
    by_cases hji : j = i
    · subst hji
      have hresponse : Underway net.text (net.address j) (nodes j)
          ⟨r.handle (net.address j) c, hcovers, some (n.bpCounter + 1)⟩ (.waiting resume)
          n.nextBpCounter.2 [] [bpControlJsonToPacketBuffer net.text
            (a.response (.ofUInt32 n.rpcId)) counter] := by
        apply Underway.answered counter (Node.response_plain a n.rpcId)
          (hanswer.trans_lt (by decide))
        rintro n' ⟨buffer, rfl⟩
        exact hnext _ ⟨buffer, rfl⟩
      simpa [hcounters, hphase, hnode, hrest', hdown, arrivals, hattempts] using hresponse
    · have hhandled := r.tables.handle_handled (net.address i) c
      have hrely : (Node.plannedSetting plan net.text (net.address j)).rely
          ⟨r, h.covers, s.broker.clientCounters (net.address j)⟩
          ⟨r.handle (net.address i) c, hcovers, it.broker.clientCounters (net.address j)⟩ := by
        refine ⟨⟨hhandled.grows, fun _ => hhandled.undisturbed hc.own (hforeign j hji)⟩, ?_⟩
        rw [hcounters]
        exact (Function.update_of_ne (hforeign j hji) _ _).symm
      have hother := (h.clients j).others hrely
      simpa [hji, arrivals, hattempts, Ne.symm (hforeign j hji)] using hother

theorem comingUp_connect (h : ComingUp net plan nodes s r)
    (hstep : s.step net (.connect i) = some s') : ComingUp net plan nodes s' r := by
  obtain ⟨hphase, rfl⟩ := step_connect hstep
  have hi := h.clients i
  rw [hphase] at hi
  generalize hnode : s.node i = n at hi
  generalize hup : (s.up i).map Datagram.bytes = up at hi
  generalize hdown : (s.down i).map Datagram.bytes = down at hi
  cases hi with
  | created hsafe =>
    have hnext := h.continueConnect (n := nodes i) (List.map_eq_nil_iff.mp hup)
      (List.map_eq_nil_iff.mp hdown) hsafe
    rwa [Function.update_eq_self] at hnext

theorem comingUp_rpcReturn (h : ComingUp net plan nodes s r)
    (hstep : s.step net (.rpcReturn i) = some s') :
    ComingUp net plan nodes s' r ∧ ∃ (s₀ : System ι) (n : Node) (response : Json)
      (resume : Node → Json → Session Node Json Json Fault Bool),
      s.phase i = .waiting resume ∧ s₀.phase = s.phase ∧
        s' = s₀.continueConnect net i n (resume n response) := by
  obtain ⟨resume, d, rest, hphase, hdown, hcases⟩ := step_rpcReturn hstep
  have hi := h.clients i
  rw [hphase, hdown, List.map_cons] at hi
  generalize hnode : s.node i = n at hi
  generalize hup : (s.up i).map Datagram.bytes = up at hi
  generalize hpacket : d.bytes = packet at hi
  generalize hrest : rest.map Datagram.bytes = packets at hi
  cases hi with
  | @answered n response _ counter hplain hlen hsafe =>
    have hreturned := Node.rpcResponse_control net.text n.nextBpCounter.2 hplain counter hlen
    rw [← hnode, ← hpacket] at hreturned
    rcases hcases with ⟨fault, hfault, _⟩ | ⟨n', response', hresponse, rfl⟩
    · rw [hreturned] at hfault
      cases hfault
    rw [hreturned] at hresponse
    injection hresponse with hresponse
    injection hresponse with hn hj
    subst hn hj
    refine ⟨h.continueConnect (List.map_eq_nil_iff.mp hup) (List.map_eq_nil_iff.mp hrest) ?_,
      { s with down := Function.update s.down i rest }, _, _, resume, hphase, rfl, rfl⟩
    apply hsafe
    rw [hnode]
    exact ⟨_, rfl⟩

theorem step_comingUp {a : Action ι} (ha : a.IsHandshake) (h : ComingUp net plan nodes s r)
    (hstep : s.step net a = some s') : ∃ r', ComingUp net plan nodes s' r' := by
  cases a with
  | connect i => exact ⟨r, comingUp_connect h hstep⟩
  | rpcReturn i => exact ⟨r, (comingUp_rpcReturn h hstep).1⟩
  | broker i => exact (comingUp_broker h hstep).1
  | _ => exact ha.elim

/-- The deployment comes up along every schedule of handshakes. -/
theorem run_comingUp {as : List (Action ι)} (has : ∀ a ∈ as, a.IsHandshake)
    (h : ComingUp net plan nodes s r) (hrun : s.run net as = some s') :
    ∃ r', ComingUp net plan nodes s' r' := by
  apply run_invariant (P := fun s => ∃ r, ComingUp net plan nodes s r) ?_ ⟨r, h⟩ hrun
  rintro a ha s₁ s₂ ⟨r₁, h₁⟩ hstep
  exact step_comingUp (has a ha) h₁ hstep

/-! ## Nobody is stuck -/

omit [DecidableEq ι] in
theorem ComingUp.not_failed (h : ComingUp net plan nodes s r) (i : ι) : s.phase i ≠ .failed := by
  intro hphase
  have hi := h.clients i
  rw [hphase] at hi
  cases hi

omit [DecidableEq ι] in
theorem ComingUp.waiting (h : ComingUp net plan nodes s r)
    {resume : Node → Json → Session Node Json Json Fault Bool}
    (hphase : s.phase i = .waiting resume) :
    (∃ d, s.up i = [d]) ∨ s.up i = [] ∧ ∃ d, s.down i = [d] := by
  have hi := h.clients i
  rw [hphase] at hi
  generalize s.node i = n at hi
  generalize hup : (s.up i).map Datagram.bytes = up at hi
  generalize hdown : (s.down i).map Datagram.bytes = down at hi
  cases hi with
  | asked => exact .inl ((List.map_eq_singleton_iff.mp hup).imp fun _ hd => hd.1)
  | answered =>
    exact .inr ⟨List.map_eq_nil_iff.mp hup,
      (List.map_eq_singleton_iff.mp hdown).imp fun _ hd => hd.1⟩

theorem exists_broker {d : Datagram ι} {rest : List (Datagram ι)}
    (hrunning : s.brokerRunning = true) (hup : s.up i = d :: rest) :
    ∃ s', s.step net (.broker i) = some s' := by
  simp only [step, brokerStep, hrunning, hup]
  split
  · exact ⟨_, rfl⟩
  · exact ⟨_, rfl⟩

theorem exists_rpcReturn {resume : Node → Json → Session Node Json Json Fault Bool}
    {d : Datagram ι} {rest : List (Datagram ι)} (hphase : s.phase i = .waiting resume)
    (hdown : s.down i = d :: rest) : ∃ s', s.step net (.rpcReturn i) = some s' := by
  simp only [step, hphase, hdown]
  split
  · exact ⟨_, rfl⟩
  · exact ⟨_, rfl⟩

theorem ComingUp.exists_step (h : ComingUp net plan nodes s r) (i : ι) :
    s.phase i = .connected ∨
      ∃ a ∈ [Action.connect i, .broker i, .rpcReturn i], ∃ s', s.step net a = some s' := by
  cases hphase : s.phase i with
  | connected => exact .inl rfl
  | failed => exact absurd hphase (h.not_failed i)
  | created =>
    refine .inr ⟨.connect i, by simp, ?_⟩
    simp only [step, hphase]
    exact ⟨_, rfl⟩
  | waiting resume =>
    right
    rcases h.waiting hphase with ⟨d, hup⟩ | ⟨_, d, hdown⟩
    · exact ⟨.broker i, by simp, exists_broker h.running hup⟩
    · exact ⟨.rpcReturn i, by simp, exists_rpcReturn hphase hdown⟩

/-- Some handshake steps lead from `s` to `s'`, for node `i` alone. -/
structure Proceeds (net : Deployment ι) (plan : Plan) (nodes : ι → Node) (i : ι)
    (s s' : System ι) : Prop where
  run : ∃ as, (∀ a ∈ as, a.IsHandshake) ∧ s.run net as = some s'
  comingUp : ∃ r, ComingUp net plan nodes s' r
  others : ∀ j, j ≠ i → s'.phase j = s.phase j

theorem Proceeds.refl (h : ComingUp net plan nodes s r) (i : ι) :
    Proceeds net plan nodes i s s :=
  ⟨⟨[], by simp, rfl⟩, ⟨r, h⟩, fun _ _ => rfl⟩

theorem Proceeds.trans {s'' : System ι} (h : Proceeds net plan nodes i s s')
    (h' : Proceeds net plan nodes i s' s'') : Proceeds net plan nodes i s s'' where
  run := by
    obtain ⟨as, has, hrun⟩ := h.run
    obtain ⟨bs, hbs, hrun'⟩ := h'.run
    refine ⟨as ++ bs, List.forall_mem_append.mpr ⟨has, hbs⟩, ?_⟩
    exact run_trans hrun hrun'
  comingUp := h'.comingUp
  others j hj := (h'.others j hj).trans (h.others j hj)

theorem Proceeds.of_step {a : Action ι} (ha : a.IsHandshake) (h : ComingUp net plan nodes s r)
    (hstep : s.step net a = some s') (hothers : ∀ j, j ≠ i → s'.phase j = s.phase j) :
    Proceeds net plan nodes i s s' := by
  refine ⟨⟨[a], by simpa using ha, ?_⟩, step_comingUp ha h hstep, hothers⟩
  rw [System.run, hstep]
  rfl

theorem exists_resumed (h : ComingUp net plan nodes s r)
    {resume : Node → Json → Session Node Json Json Fault Bool}
    (hphase : s.phase i = .waiting resume) :
    ∃ (s₀ : System ι) (n : Node) (response : Json),
      Proceeds net plan nodes i s (s₀.continueConnect net i n (resume n response)) := by
  have hreturn : ∀ {s₁ : System ι} {r₁ : Registry}, ComingUp net plan nodes s₁ r₁ →
      s₁.phase i = .waiting resume → s₁.up i = [] →
      ∃ (s₀ : System ι) (n : Node) (response : Json),
        Proceeds net plan nodes i s₁ (s₀.continueConnect net i n (resume n response)) := by
    intro s₁ r₁ h₁ hphase₁ hup
    rcases h₁.waiting hphase₁ with ⟨d, hd⟩ | ⟨_, d, hdown⟩
    · rw [hup] at hd
      cases hd
    obtain ⟨s₂, hstep⟩ := exists_rpcReturn hphase₁ hdown
    obtain ⟨_, s₀, n, response, resume', hwaiting, hsame, rfl⟩ := comingUp_rpcReturn h₁ hstep
    rw [hphase₁] at hwaiting
    injection hwaiting with hwaiting
    subst hwaiting
    refine ⟨s₀, n, response, .of_step (a := .rpcReturn i) trivial h₁ hstep fun j hj => ?_⟩
    simp [continueConnect, hj, hsame]
  rcases h.waiting hphase with ⟨d, hup⟩ | ⟨hup, _⟩
  · obtain ⟨s₁, hstep⟩ := exists_broker h.running hup
    obtain ⟨⟨r₁, h₁⟩, hsame, hup₁⟩ := comingUp_broker h hstep
    obtain ⟨s₀, n, response, hproceeds⟩ := hreturn h₁ (by rw [hsame, hphase]) hup₁
    have hfirst : Proceeds net plan nodes i s s₁ :=
      .of_step (a := .broker i) trivial h hstep fun j _ => by rw [hsame]
    exact ⟨s₀, n, response, hfirst.trans hproceeds⟩
  · exact hreturn h hphase hup

/-- By induction on what is left of `connect`. -/
theorem exists_joined_of_session (m : Session Node Json Json Fault Bool) (s₀ : System ι) (n : Node)
    (h : ComingUp net plan nodes (s₀.continueConnect net i n m) r) :
    ∃ s', Proceeds net plan nodes i (s₀.continueConnect net i n m) s' ∧
      s'.phase i = .connected := by
  induction m generalizing s₀ n r with
  | ret n' ok =>
    cases ok with
    | true => exact ⟨_, .refl h i, by simp [continueConnect, advance]⟩
    | false => exact absurd (by simp [continueConnect, advance]) (h.not_failed i)
  | throw e => exact absurd (by simp [continueConnect, advance]) (h.not_failed i)
  | call n' request resume ih =>
    by_cases hlen : (n'.sendControl net.text request).1.length ≤ maxDatagramSize
    · have hphase : (s₀.continueConnect net i n (.call n' request resume)).phase i =
          .waiting resume := by
        simp [continueConnect, advance, hlen]
      obtain ⟨s₁, n₁, response, hproceeds⟩ := exists_resumed h hphase
      obtain ⟨r₁, h₁⟩ := hproceeds.comingUp
      obtain ⟨s', hrest, hconnected⟩ := ih n₁ response s₁ n₁ h₁
      exact ⟨s', hproceeds.trans hrest, hconnected⟩
    · -- a request that does not fit is answered with nothing at once
      have hsame : s₀.continueConnect net i n (.call n' request resume) =
          s₀.continueConnect net i (n'.sendControl net.text request).2
            (resume (n'.sendControl net.text request).2 .null) := by
        simp only [continueConnect, advance, if_neg hlen]
      rw [hsame] at h ⊢
      exact ih _ _ s₀ _ h

theorem exists_joined (h : ComingUp net plan nodes s r) (i : ι) :
    ∃ s', Proceeds net plan nodes i s s' ∧ s'.phase i = .connected := by
  cases hphase : s.phase i with
  | connected => exact ⟨s, .refl h i, hphase⟩
  | failed => exact absurd hphase (h.not_failed i)
  | created =>
    have hstep : s.step net (.connect i) =
        some (s.continueConnect net i (s.node i) (Node.connect (s.node i))) := by
      simp only [step, hphase]
    have hfirst : Proceeds net plan nodes i s
        (s.continueConnect net i (s.node i) (Node.connect (s.node i))) :=
      .of_step (a := .connect i) trivial h hstep fun j hj => by simp [continueConnect, hj]
    obtain ⟨r₁, h₁⟩ := hfirst.comingUp
    obtain ⟨s', hrest, hconnected⟩ := exists_joined_of_session _ s (s.node i) h₁
    exact ⟨s', hfirst.trans hrest, hconnected⟩
  | waiting resume =>
    obtain ⟨s₀, n, response, hfirst⟩ := exists_resumed h hphase
    obtain ⟨r₁, h₁⟩ := hfirst.comingUp
    obtain ⟨s', hrest, hconnected⟩ := exists_joined_of_session _ s₀ n h₁
    exact ⟨s', hfirst.trans hrest, hconnected⟩

theorem exists_all_joined (is : List ι) (h : ComingUp net plan nodes s r) :
    ∃ as s', (∀ a ∈ as, a.IsHandshake) ∧ s.run net as = some s' ∧
      (∀ i, i ∈ is ∨ s.phase i = .connected → s'.phase i = .connected) := by
  induction is generalizing s r with
  | nil => exact ⟨[], s, by simp, rfl, by simp⟩
  | cons i is ih =>
    obtain ⟨s₁, hproceeds, hconnected⟩ := exists_joined h i
    obtain ⟨as, has, hrun⟩ := hproceeds.run
    obtain ⟨r₁, h₁⟩ := hproceeds.comingUp
    obtain ⟨bs, s', hbs, hrun', hall⟩ := ih h₁
    refine ⟨as ++ bs, s', List.forall_mem_append.mpr ⟨has, hbs⟩, ?_, fun j hj => hall j ?_⟩
    · exact run_trans hrun hrun'
    · by_cases hji : j = i
      · exact .inr (hji ▸ hconnected)
      · rcases hj with hj | hj
        · exact .inl ((List.mem_cons.mp hj).resolve_left hji)
        · exact .inr ((hproceeds.others j hji).trans hj)

/-- Nobody has been turned away, whoever is not through can go on, and any number of nodes can
still be brought to their ends. -/
structure Joinable (net : Deployment ι) (s : System ι) : Prop where
  running : s.brokerRunning = true
  not_failed : ∀ i, s.phase i ≠ .failed
  enabled : ∀ i, s.phase i = .connected ∨
    ∃ a ∈ [Action.connect i, .broker i, .rpcReturn i], ∃ s', s.step net a = some s'
  completes : ∀ is : List ι, ∃ as s', (∀ a ∈ as, a.IsHandshake) ∧ s.run net as = some s' ∧
    ∀ i ∈ is, s'.phase i = .connected

/-- However the handshakes of a planned deployment interleave, all of them succeed. -/
theorem joinable_of_planned (htext : net.text.DumpsShort)
    (hnodes : ∀ i, (nodes i).Follows plan (net.address i)) {as : List (Action ι)}
    (has : ∀ a ∈ as, a.IsHandshake) (hrun : (initial nodes).run net as = some s) :
    s.Joinable net := by
  obtain ⟨r, h⟩ := run_comingUp has (comingUp_initial htext hnodes) hrun
  refine ⟨h.running, h.not_failed, h.exists_step, fun is => ?_⟩
  obtain ⟨bs, s', hbs, hrun', hall⟩ := exists_all_joined is h
  exact ⟨bs, s', hbs, hrun', fun i hi => hall i (.inl hi)⟩

/-! ## A source and a listener -/

/-- A source, and a listener that has subscribed twice. -/
def twinListeners : Bool → Node
  | false => (Node.create "source").createPublisher "pose" "pose_t" 1 5
  | true => ((Node.create "listener").createSubscriber "pose" "pose_t" 1 5).createSubscriber
      "pose" "pose_t" 1 5

theorem twinListeners_created : ∀ i, Node.Created (twinListeners i)
  | false => .publisher _ _ _ _ (.create _)
  | true => .subscriber _ _ _ _ (.subscriber _ _ _ _ (.create _))

theorem twinListeners_shortNames (i : Bool) : (twinListeners i).ShortNames := by
  cases i <;> decide

/-- The tables once both have connected. -/
def twinTables : Tables where
  nodes := [⟨"source", "a"⟩, ⟨"listener", "b"⟩]
  messageTypes := [⟨"pose_t", 1⟩]
  topics := [⟨"pose", 0, 5, [0], [1, 1]⟩]

/-- What the source and its listener have agreed on. -/
def twinPlan : Plan where
  nodes := twinTables.nodes
  messageTypes := twinTables.messageTypes
  topics := [⟨"pose", "pose_t", 5⟩]
  nodes_nodup := by decide
  messageTypes_nodup := by decide
  topics_nodup := by decide
  explicit := by decide
  nodes_length := by decide
  messageTypes_length := by decide
  topics_length := by decide

theorem twinListeners_follow (i : Bool) :
    (twinListeners i).Follows twinPlan (pairDeployment.address i) := by
  refine ⟨?_, ?_, ?_, twinListeners_shortNames i⟩
  · cases i <;> decide
  · cases i <;> decide
  · cases i <;> decide

/-- Source and listener connect. -/
theorem joinable_twins : ∃ as s, (initial twinListeners).run pairDeployment as = some s ∧
    ∀ i, s.phase i = .connected := by
  have hstart : (initial twinListeners).run pairDeployment [] = some (initial twinListeners) := rfl
  have hjoinable := joinable_of_planned compactJson_dumpsShort twinListeners_follow (by simp) hstart
  obtain ⟨as, s, _, hrun, hall⟩ := hjoinable.completes [false, true]
  exact ⟨as, s, hrun, fun i => hall i (by cases i <;> simp)⟩

/-! ## A name is a lock -/

theorem name_of_connected {i : ι} (hnodes : ∀ i, Node.Created (nodes i)) {as : List (Action ι)}
    (hrun : (initial nodes).run net as = some s) (hphase : s.phase i = .connected) :
    (s.node i).name = (nodes i).name := by
  obtain ⟨r, horderly, _⟩ := run_orderly hnodes (orderly_initial net nodes) hrun
  have hi := horderly.dealings i
  rw [hphase] at hi
  cases hi with
  | connected _ _ hregistered hconfig =>
    exact (congrArg NodeConfig.name hconfig).trans (congrArg Prod.fst hregistered.blueprint)

/-- Whoever has connected under a name keeps everybody else from connecting under it from then
on, and has its id for itself. -/
theorem sole_of_connected (hnodes : ∀ i, Node.Created (nodes i)) {as bs : List (Action ι)}
    (hrun : (initial nodes).run net as = some s) (hlater : s.run net bs = some s')
    (hsmall : s'.broker.tables.Small) {i j : ι} (hi : s.phase i = .connected)
    (hj : s'.phase j = .connected)
    (hsame : (nodes i).name = (nodes j).name ∨ (s.node i).nodeId = (s'.node j).nodeId) :
    i = j := by
  have hrun' : (initial nodes).run net (as ++ bs) = some s' := run_trans hrun hlater
  have hfirst := (confirms_of_connected hnodes hrun hi hlater hsmall).node
  have hsecond :=
    (confirms_of_connected hnodes hrun' hj (by rfl : s'.run net [] = some s') hsmall).node
  rw [name_of_connected hnodes hrun hi] at hfirst
  rw [name_of_connected hnodes hrun' hj] at hsecond
  obtain ⟨r', horderly', _⟩ := run_orderly hnodes (orderly_initial net nodes) hrun'
  have hnames := r'.names
  rw [horderly'.tables] at hnames
  have hposition : (s.node i).nodeId.toNat = (s'.node j).nodeId.toNat := by
    rcases hsame with hname | hid
    · exact index_unique hnames.nodes hfirst hsecond hname
    · rw [hid]
  rw [hposition, hsecond, Option.some.injEq, NodeInfo.mk.injEq] at hfirst
  exact net.address_injective hfirst.2.symm

/-- Source and listener go by different ids. -/
theorem sole_twins : ∃ as s, (initial twinListeners).run pairDeployment as = some s ∧
    (s.node false).nodeId ≠ (s.node true).nodeId := by
  obtain ⟨as, s, _, hrun, hphase, _, htables⟩ := exists_both_connected (u := sourceTables)
    (t := twinTables) twinListeners_shortNames (by decide) (by decide)
  have hsmall : s.broker.tables.Small := by
    rw [htables]
    exact ⟨by decide, by decide, by decide⟩
  have hlast : s.run pairDeployment [] = some s := rfl
  refine ⟨as, s, hrun, ?_⟩
  intro hid
  have hequal := sole_of_connected twinListeners_created hrun hlast hsmall (hphase false)
    (hphase true) (.inr hid)
  cases hequal

end System
end Crps
