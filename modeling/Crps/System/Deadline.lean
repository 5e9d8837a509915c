import Crps.Foundation.Backlog
import Crps.System.Progress

/-!
# How long a message takes

A message waits for at most as many calls of `spin_once` as its publisher has
messages queued, then for as many broker iterations as there are datagrams on
the link, then for as many receptions as there are datagrams on the other link.
Nothing else that happens in between can delay it further: not what other nodes
do, nor what is published later, nor the priorities of the topics.
-/

namespace Crps

section Counts

variable {ι : Type} [DecidableEq ι]

def Action.isSpin (i : ι) : Action ι → Bool
  | .spin x _ _ => x = i
  | _ => false

def Action.isBroker (i : ι) : Action ι → Bool
  | .broker x => x = i
  | _ => false

/-- A call of `spin_once` that takes in what is there. -/
def Action.isReception (j : ι) : Action ι → Bool
  | .spin x true _ => x = j
  | _ => false

end Counts

namespace System

variable {ι : Type} [DecidableEq ι] {net : Deployment ι} {nodes : ι → Node}
variable {s s' s₀ : System ι} {i j : ι} {r : Registry} {k l : ℕ}

/-- A bound that every step of some kind lowers by one. -/
theorem run_countdown {R : ℕ → System ι → Prop} {f : Action ι → Bool} {as : List (Action ι)}
    (hstep : ∀ a ∈ as, ∀ n s s', R n s → s.step net a = some s' →
      R (n - if f a then 1 else 0) s') {n : ℕ} (h : R n s) (hrun : s.run net as = some s') :
    R (n - as.countP f) s' := by
  induction as generalizing n s with
  | nil =>
    injection hrun with hrun
    exact hrun ▸ h
  | cons a as ih =>
    obtain ⟨s₁, hfirst, hrest⟩ := Option.bind_eq_some_iff.mp hrun
    have hnext := ih (fun b hb => hstep b (List.mem_cons_of_mem a hb))
      (hstep a List.mem_cons_self n s s₁ h hfirst) hrest
    rwa [Nat.sub_sub, Nat.add_comm, ← List.countP_cons] at hnext

/-! ## Steps -/

/-- The packets of a message that has not been accepted by state `bound`, or of another one. -/
def Fresh (i : ι) (l bound : ℕ) (d : Datagram ι) : Prop :=
  ∀ index, d.origin = some ⟨i, l, index⟩ → bound ≤ index

/-- The node that publishes and the node that receives are connected, and their links carry
packets. -/
structure Linked (net : Deployment ι) (nodes : ι → Node) (i j : ι) (s : System ι) : Prop where
  chronicle : ∃ r, Chronicle net nodes s r
  wired : Wired s
  sender : s.phase i = .connected
  receiver : s.phase j = .connected

theorem Linked.step (h : Linked net nodes i j s) (hnodes : ∀ i, Node.Created (nodes i))
    (hfits : ∀ i, ∀ p ∈ (nodes i).publishers, p.packetSize ≤ maxDatagramSize)
    {a : Action ι} (hstep : s.step net a = some s') : Linked net nodes i j s' := by
  obtain ⟨r, hchronicle⟩ := h.chronicle
  obtain ⟨r', horderly, _, hhistory⟩ :=
    step_history hnodes hchronicle.orderly hchronicle.history hstep
  have hfit : ∀ x, DatagramsFit (nodes x) (s'.ledger x).trace :=
    fun x _ _ p _ hp => hfits x p (List.mem_of_getElem? hp)
  exact ⟨⟨r', horderly, hhistory⟩, h.wired.step hnodes hchronicle hstep hfit,
    step_connected hchronicle.orderly hstep h.sender,
    step_connected hchronicle.orderly hstep h.receiver⟩

theorem Linked.grows (h : Linked net nodes i j s) {a : Action ι}
    (hstep : s.step net a = some s') :
    transmitted (s.ledger i).trace l ≤ transmitted (s'.ledger i).trace l ∧
      (acceptedPayloads (s.ledger i).trace l).length ≤
        (acceptedPayloads (s'.ledger i).trace l).length := by
  obtain ⟨r, hchronicle⟩ := h.chronicle
  obtain ⟨es, htrace⟩ := (hchronicle.later hstep).trace (x := i)
  rw [htrace, transmitted_append, acceptedPayloads_append, List.length_append]
  exact ⟨Nat.le_add_right _ _, Nat.le_add_right _ _⟩

theorem transmits_step (hnodes : ∀ i, Node.Created (nodes i)) (h : Linked net nodes i j s)
    {a : Action ι} (ha : a.IsReliable) (hstep : s.step net a = some s') {bound n : ℕ}
    (haccepted : bound ≤ (acceptedPayloads (s.ledger i).trace l).length)
    (hbound : bound ≤ transmitted (s.ledger i).trace l + n) :
    bound ≤ transmitted (s'.ledger i).trace l + (n - if a.isSpin i then 1 else 0) := by
  have hgrows := (h.grows (l := l) hstep).1
  obtain ⟨r, hchronicle⟩ := h.chronicle
  obtain ⟨_, _, hactive⟩ := (hchronicle.history i).active h.sender
  have hbooks := hactive.books hnodes l
  split_ifs with hspin
  · cases a with
    | spin x receive env =>
      obtain rfl : x = i := of_decide_eq_true hspin
      obtain ⟨_, reception, origin, rest, hreceipt, hcases⟩ := step_spin hstep
      rcases hcases with ⟨fault, hfault, _⟩ | ⟨out, hout, rfl⟩
      · obtain ⟨out, hout⟩ := hchronicle.orderly.spins h.sender hreceipt env
        rw [hfault] at hout
        cases hout
      · by_cases hqueued : (s.node x).queued (.publisher l) = 0
        · omega
        · have hsent := Node.spinOnce_transmits (hactive.equipped hnodes) ha hout hqueued
          simp only [Function.update_self, Ledger.recordAll_trace, transmitted_append]
          omega
    | _ => cases hspin
  · omega

/-- What a step does to the link of a connected node: the broker takes the first datagram, and what
the node adds has not been sent before. -/
theorem Linked.up_step (h : Linked net nodes i j s) {a : Action ι}
    (ha : a.IsReliable) (hstep : s.step net a = some s') :
    ∃ added, s'.up i = (if a.isBroker i then (s.up i).tail else s.up i) ++ added ∧
      ∀ d ∈ added, Fresh i l (transmitted (s.ledger i).trace l) d := by
  have hsame : s'.up i = (if a.isBroker i then (s.up i).tail else s.up i) →
      ∃ added, s'.up i = (if a.isBroker i then (s.up i).tail else s.up i) ++ added ∧
        ∀ d ∈ added, Fresh i l (transmitted (s.ledger i).trace l) d :=
    fun hup => ⟨[], by rw [hup, List.append_nil], by simp⟩
  cases a with
  | connect x =>
    obtain ⟨hphase, rfl⟩ := step_connect hstep
    have hix : i ≠ x := by
      rintro rfl
      rw [h.sender] at hphase
      cases hphase
    exact hsame (by simp [continueConnect, hix, Action.isBroker])
  | rpcReturn x =>
    obtain ⟨resume, d, rest, hphase, _, hcases⟩ := step_rpcReturn hstep
    have hix : i ≠ x := by
      rintro rfl
      rw [h.sender] at hphase
      cases hphase
    rcases hcases with ⟨fault, _, rfl⟩ | ⟨n, response, _, rfl⟩
    · exact hsame rfl
    · exact hsame (by simp [continueConnect, hix, Action.isBroker])
  | broker x =>
    obtain ⟨_, d, rest, hup, hcases⟩ := step_broker hstep
    have htaken : Function.update s.up x rest i =
        if (Action.broker x).isBroker i then (s.up i).tail else s.up i := by
      by_cases hxi : x = i
      · subst hxi
        simp [Action.isBroker, hup]
      · simp [Action.isBroker, hxi, Ne.symm hxi]
    rcases hcases with ⟨fault, _, rfl⟩ | ⟨it, _, rfl⟩
    · exact hsame htaken
    · exact hsame htaken
  | publish x p data =>
    obtain ⟨_, rfl⟩ := step_publish hstep
    exact hsame rfl
  | spin x receive env =>
    obtain ⟨_, reception, origin, rest, _, hcases⟩ := step_spin hstep
    rcases hcases with ⟨fault, _, rfl⟩ | ⟨out, _, rfl⟩
    · exact hsame rfl
    · by_cases hxi : x = i
      · subst hxi
        refine ⟨dispatched x (s.ledger x).trace out.events, by simp [Action.isBroker], ?_⟩
        intro d hd index horigin
        have hnumber : index ∈ numbers x l
            ((dispatched x (s.ledger x).trace out.events).map Datagram.origin) := by
          apply List.mem_filterMap.mpr
          exact ⟨d.origin, List.mem_map_of_mem hd, by simp [horigin, numberFrom]⟩
        rw [numbers_dispatched] at hnumber
        exact (List.mem_range'_1.mp hnumber).1
      · exact hsame (by simp [Ne.symm hxi, Action.isBroker])
  | loseUp => exact ha.elim
  | loseDown => exact ha.elim

theorem step_spin_down {x : ι} {receive : Bool} {env : SpinEnvironment}
    (h : s.step net (.spin x receive env) = some s') :
    s'.down = Function.update s.down x (if receive then (s.down x).tail else s.down x) := by
  have hspun : ∀ reception origin rest,
      (s.spinWith net x reception origin rest env).down = Function.update s.down x rest := by
    intro reception origin rest
    unfold spinWith
    cases (s.node x).spinOnce net.text reception env <;> rfl
  simp only [System.step, spinStep] at h
  split at h
  · cases receive with
    | false =>
      injection h with h
      rw [← h, hspun]
      rfl
    | true =>
      split at h
      · rename_i d rest _ hdown
        injection h with h
        rw [← h, hspun, hdown]
        rfl
      · rename_i waiting hwaiting
        injection h with h
        rw [← h, hspun]
        cases hdown : s.down x with
        | nil => rfl
        | cons d rest => exact (hwaiting d rest rfl hdown).elim
  · cases h

/-- What a step does to the link to a connected node: a reception takes the first datagram, and
what the broker adds has come over some link. -/
theorem Linked.down_step (h : Linked net nodes i j s) {a : Action ι}
    (ha : a.IsReliable) (hstep : s.step net a = some s') :
    ∃ added, s'.down j = (if a.isReception j then (s.down j).tail else s.down j) ++ added ∧
      ∀ d ∈ added, ∃ x, ∃ d' ∈ s.up x, d.origin = d'.origin := by
  have hsame : s'.down j = (if a.isReception j then (s.down j).tail else s.down j) →
      ∃ added, s'.down j = (if a.isReception j then (s.down j).tail else s.down j) ++ added ∧
        ∀ d ∈ added, ∃ x, ∃ d' ∈ s.up x, d.origin = d'.origin :=
    fun hdown => ⟨[], by rw [hdown, List.append_nil], by simp⟩
  cases a with
  | connect x =>
    obtain ⟨_, rfl⟩ := step_connect hstep
    exact hsame rfl
  | rpcReturn x =>
    obtain ⟨resume, d, rest, hphase, _, hcases⟩ := step_rpcReturn hstep
    have hjx : j ≠ x := by
      rintro rfl
      rw [h.receiver] at hphase
      cases hphase
    rcases hcases with ⟨fault, _, rfl⟩ | ⟨n, response, _, rfl⟩
    · exact hsame (by simp [hjx, Action.isReception])
    · exact hsame (by simp [continueConnect, hjx, Action.isReception])
  | broker x =>
    obtain ⟨_, d, rest, hup, hcases⟩ := step_broker hstep
    rcases hcases with ⟨fault, _, rfl⟩ | ⟨it, _, rfl⟩
    · exact hsame rfl
    · refine ⟨arrivals net it d.origin j, rfl, fun d' hd' => ⟨x, d, ?_, (mem_arrivals hd').1⟩⟩
      rw [hup]
      exact List.mem_cons_self
  | publish x p data =>
    obtain ⟨_, rfl⟩ := step_publish hstep
    exact hsame rfl
  | spin x receive env =>
    apply hsame
    rw [step_spin_down hstep]
    by_cases hxj : x = j
    · subst hxj
      cases receive with
      | true => simp [Action.isReception]
      | false => simp [Action.isReception]
    · have hnot : (Action.spin x receive env).isReception j = false := by
        cases receive with
        | true => exact decide_eq_false hxj
        | false => rfl
      rw [hnot, Function.update_of_ne (Ne.symm hxj)]
      rfl
  | loseUp => exact ha.elim
  | loseDown => exact ha.elim

/-! ## Runs -/

section Runs

variable {bound n : ℕ} {as : List (Action ι)} {topicName : String}

theorem Linked.run_transmits (h : Linked net nodes i j s)
    (hnodes : ∀ i, Node.Created (nodes i))
    (hfits : ∀ i, ∀ p ∈ (nodes i).publishers, p.packetSize ≤ maxDatagramSize)
    (hreliable : ∀ a ∈ as, a.IsReliable) (hrun : s.run net as = some s')
    (hspins : (s.node i).queued (.publisher l) ≤ as.countP fun a => a.isSpin i) :
    Linked net nodes i j s' ∧
      (acceptedPayloads (s.ledger i).trace l).length ≤ transmitted (s'.ledger i).trace l := by
  obtain ⟨r, hchronicle⟩ := h.chronicle
  obtain ⟨_, _, hactive⟩ := (hchronicle.history i).active h.sender
  have hbooks := hactive.books hnodes l
  obtain ⟨bound, hbound⟩ : ∃ bound, bound = (acceptedPayloads (s.ledger i).trace l).length :=
    ⟨_, rfl⟩
  have hcountdown := run_countdown (f := fun a => a.isSpin i)
    (R := fun n s => Linked net nodes i j s ∧
      bound ≤ (acceptedPayloads (s.ledger i).trace l).length ∧
        bound ≤ transmitted (s.ledger i).trace l + n)
    (fun a ha n s s' hs hstep => by
      obtain ⟨hlinked, haccepted, hsent⟩ := hs
      exact ⟨hlinked.step hnodes hfits hstep, haccepted.trans (hlinked.grows hstep).2,
        transmits_step hnodes hlinked (hreliable a ha) hstep haccepted hsent⟩)
    ⟨h, hbound.le, (hbound.trans hbooks).le⟩ hrun
  rw [Nat.sub_eq_zero_of_le hspins] at hcountdown
  exact ⟨hcountdown.1, hbound ▸ hcountdown.2.2⟩

theorem Linked.run_serves (h : Linked net nodes i j s) (hnodes : ∀ i, Node.Created (nodes i))
    (hfits : ∀ i, ∀ p ∈ (nodes i).publishers, p.packetSize ≤ maxDatagramSize)
    (hreliable : ∀ a ∈ as, a.IsReliable) (hrun : s.run net as = some s')
    (hsent : bound ≤ transmitted (s.ledger i).trace l)
    (hserved : (s.up i).length ≤ as.countP fun a => a.isBroker i) :
    Linked net nodes i j s' ∧ bound ≤ transmitted (s'.ledger i).trace l ∧
      ∀ d ∈ s'.up i, Fresh i l bound d := by
  have hcountdown := run_countdown (f := fun a => a.isBroker i)
    (R := fun n s => Linked net nodes i j s ∧ bound ≤ transmitted (s.ledger i).trace l ∧
      Backlog (Fresh i l bound) n (s.up i))
    (fun a ha n s s' hs hstep => by
      obtain ⟨hlinked, hsent, hbacklog⟩ := hs
      obtain ⟨added, hup, hadded⟩ := hlinked.up_step (l := l) (hreliable a ha) hstep
      refine ⟨hlinked.step hnodes hfits hstep, hsent.trans (hlinked.grows hstep).1, ?_⟩
      rw [hup]
      exact hbacklog.advance _ fun d hd index horigin => hsent.trans (hadded d hd index horigin))
    ⟨h, hsent, .length _ _⟩ hrun
  rwa [Nat.sub_eq_zero_of_le hserved] at hcountdown

theorem Linked.run_receives (h : Linked net nodes i j s) (hnodes : ∀ i, Node.Created (nodes i))
    (hfits : ∀ i, ∀ p ∈ (nodes i).publishers, p.packetSize ≤ maxDatagramSize)
    (hreliable : ∀ a ∈ as, a.IsReliable) (hrun : s.run net as = some s')
    (hsent : bound ≤ transmitted (s.ledger i).trace l) (hup : ∀ d ∈ s.up i, Fresh i l bound d)
    (hreceived : (s.down j).length ≤ as.countP fun a => a.isReception j) :
    bound ≤ transmitted (s'.ledger i).trace l ∧ (∀ d ∈ s'.up i, Fresh i l bound d) ∧
      ∀ d ∈ s'.down j, Fresh i l bound d := by
  have hcountdown := run_countdown (f := fun a => a.isReception j)
    (R := fun n s => Linked net nodes i j s ∧ bound ≤ transmitted (s.ledger i).trace l ∧
      Backlog (Fresh i l bound) 0 (s.up i) ∧ Backlog (Fresh i l bound) n (s.down j))
    (fun a ha n s s' hs hstep => by
      obtain ⟨hlinked, hsent, hup, hbacklog⟩ := hs
      obtain ⟨sent, hup', hfresh⟩ := hlinked.up_step (l := l) (hreliable a ha) hstep
      obtain ⟨added, hdown', hadded⟩ := hlinked.down_step (hreliable a ha) hstep
      refine ⟨hlinked.step hnodes hfits hstep, hsent.trans (hlinked.grows hstep).1, ?_, ?_⟩
      · rw [hup', ← Nat.zero_sub]
        exact hup.advance _ fun d hd index horigin => hsent.trans (hfresh d hd index horigin)
      · rw [hdown']
        apply hbacklog.advance
        intro d hd index horigin
        obtain ⟨x, d', hd', hsame⟩ := hadded d hd
        -- a message of the publisher's can only have come over its own node's link
        obtain rfl : i = x := (hlinked.wired.up x d' hd').2 _ (hsame ▸ horigin)
        exact hup d' hd' index (hsame ▸ horigin))
    ⟨h, hsent, hup, .length _ _⟩ hrun
  rw [Nat.sub_eq_zero_of_le hreceived] at hcountdown
  exact hcountdown.2

theorem count_of_fresh {waiting : List (Datagram ι)}
    (hfresh : ∀ d ∈ waiting, Fresh i l bound d) {index : ℕ} (hindex : index < bound) :
    (numbers i l (waiting.map Datagram.origin)).count index = 0 := by
  rw [count_numbers]
  apply List.count_eq_zero.mpr
  intro hmem
  obtain ⟨d, hd, horigin⟩ := List.mem_map.mp hmem
  exact absurd (hfresh d hd index horigin) (not_le.mpr hindex)

/-- Node `i` spins as often as its publisher has messages queued, then the broker serves it as often
as datagrams are on its link, then node `j` receives as often as datagrams are on its. -/
def Carried (net : Deployment ι) (i : ι) (l : ℕ) (j : ι) (s s' : System ι) : Prop :=
  ∃ s₁ s₂ cs ds es, (∀ a ∈ cs ++ (ds ++ es), a.IsReliable) ∧
    s.run net cs = some s₁ ∧ s₁.run net ds = some s₂ ∧ s₂.run net es = some s' ∧
    (s.node i).queued (.publisher l) ≤ cs.countP (fun a => a.isSpin i) ∧
    (s₁.up i).length ≤ ds.countP (fun a => a.isBroker i) ∧
    (s₂.down j).length ≤ es.countP (fun a => a.isReception j)

theorem Carried.exists_run (h : Carried net i l j s s') :
    ∃ as, (∀ a ∈ as, a.IsReliable) ∧ s.run net as = some s' := by
  obtain ⟨s₁, s₂, cs, ds, es, hreliable, hspin, hserve, hreceive, _⟩ := h
  exact ⟨cs ++ (ds ++ es), hreliable, run_trans hspin (run_trans hserve hreceive)⟩

theorem Linked.run_carries (h : Linked net nodes i j s) (hnodes : ∀ i, Node.Created (nodes i))
    (hfits : ∀ i, ∀ p ∈ (nodes i).publishers, p.packetSize ≤ maxDatagramSize)
    (hcarried : Carried net i l j s s')
    (hbound : bound = (acceptedPayloads (s.ledger i).trace l).length) :
    bound ≤ transmitted (s'.ledger i).trace l ∧ (∀ d ∈ s'.up i, Fresh i l bound d) ∧
      ∀ d ∈ s'.down j, Fresh i l bound d := by
  subst hbound
  obtain ⟨s₁, s₂, cs, ds, es, hreliable, hspin, hserve, hreceive, hspins, hserved, hreceived⟩ :=
    hcarried
  simp only [List.forall_mem_append] at hreliable
  obtain ⟨hcs, hds, hes⟩ := hreliable
  obtain ⟨hlinked₁, hsent₁⟩ := h.run_transmits hnodes hfits hcs hspin hspins
  obtain ⟨hlinked₂, hsent₂, hup₂⟩ :=
    hlinked₁.run_serves hnodes hfits hds hserve hsent₁ hserved
  exact hlinked₂.run_receives hnodes hfits hes hreceive hsent₂ hup₂ hreceived

theorem handed_of_carried (hnodes : ∀ i, Node.Created (nodes i))
    (hfits : ∀ i, ∀ p ∈ (nodes i).publishers, p.packetSize ≤ maxDatagramSize)
    {as bs : List (Action ι)} (hreliable : ∀ a ∈ as ++ bs, a.IsReliable)
    (hrun : (initial nodes).run net as = some s₀) (hlater : s₀.run net bs = some s)
    (hcarried : Carried net i l j s s') (hsmall : s'.broker.tables.Small)
    (hi : s₀.phase i = .connected) (hj : s₀.phase j = .connected)
    (hpublisher : (nodes i).topicName (.publisher l) = some topicName)
    (hsubscriber : (nodes j).topicName (.subscriber k) = some topicName) :
    ∀ index, (acceptedPayloads (s₀.ledger i).trace l).length ≤ index →
      index < (acceptedPayloads (s.ledger i).trace l).length →
        handed s' i l j k index = (nodes j).copiesOf topicName := by
  obtain ⟨cs, hcs, hcarries⟩ := hcarried.exists_run
  have hwhole : s₀.run net (bs ++ cs) = some s' := run_trans hlater hcarries
  have hreliable' : ∀ a ∈ as ++ (bs ++ cs), a.IsReliable := by
    rw [← List.append_assoc]
    exact List.forall_mem_append.mpr ⟨hreliable, hcs⟩
  obtain ⟨r', h', hs', hcontinues⟩ :=
    run_continues hnodes hfits hreliable' hrun hwhole hi hj hpublisher hsubscriber
  obtain ⟨hconveys₀, hconveys, hcontinues⟩ := hcontinues hsmall
  obtain ⟨r₀, horderly₀, _, hhistory₀⟩ := run_history hnodes (orderly_initial net nodes)
    (history_initial net nodes) hrun
  obtain ⟨_, _, hactive₀⟩ := (hhistory₀ i).active hi
  have hbefore := hactive₀.books hnodes l
  have hlinked : Linked net nodes i j s := by
    apply run_invariant _ _ hlater
    · intro a _ s s' hs hstep
      exact hs.step hnodes hfits hstep
    · exact ⟨⟨r₀, horderly₀, hhistory₀⟩, hconveys₀.wired, hi, hj⟩
  obtain ⟨hsent, hup, hdown⟩ := hlinked.run_carries hnodes hfits hcarried rfl
  intro index hindex hlt
  have hunsent : transmitted (s₀.ledger i).trace l ≤ index := by omega
  have hcopies := hcontinues.whereabouts hconveys₀ hconveys hs'
    (horderly₀.run_connected hnodes hj hwhole) hunsent
  rw [count_copied, count_of_fresh hup hlt, count_of_fresh hdown hlt,
    if_pos (hlt.trans_le hsent)] at hcopies
  simpa using hcopies

/-- A message is handed over as often as it has to be once its publisher's node has spun as often
as it has messages queued, then the broker has served the node as often as datagrams are on its
link, and then the subscriber's node has received as often as datagrams are on its. -/
theorem handed_in_time (hnodes : ∀ i, Node.Created (nodes i))
    (hfits : ∀ i, ∀ p ∈ (nodes i).publishers, p.packetSize ≤ maxDatagramSize)
    {s₁ s₂ s₃ : System ι} {as bs cs ds es : List (Action ι)}
    (hreliable : ∀ a ∈ as ++ (bs ++ (cs ++ (ds ++ es))), a.IsReliable)
    (hrun : (initial nodes).run net as = some s₀) (hlater : s₀.run net bs = some s)
    (hspin : s.run net cs = some s₁) (hserve : s₁.run net ds = some s₂)
    (hreceive : s₂.run net es = some s₃) (hsmall : s₃.broker.tables.Small)
    (hi : s₀.phase i = .connected) (hj : s₀.phase j = .connected)
    (hpublisher : (nodes i).topicName (.publisher l) = some topicName)
    (hsubscriber : (nodes j).topicName (.subscriber k) = some topicName)
    (hspins : (s.node i).queued (.publisher l) ≤ cs.countP fun a => a.isSpin i)
    (hserved : (s₁.up i).length ≤ ds.countP fun a => a.isBroker i)
    (hreceived : (s₂.down j).length ≤ es.countP fun a => a.isReception j) :
    ∀ index, (acceptedPayloads (s₀.ledger i).trace l).length ≤ index →
      index < (acceptedPayloads (s.ledger i).trace l).length →
        handed s₃ i l j k index = (nodes j).copiesOf topicName := by
  rw [← List.append_assoc] at hreliable
  obtain ⟨hbefore, hstretches⟩ := List.forall_mem_append.mp hreliable
  have hcarried : Carried net i l j s s₃ :=
    ⟨s₁, s₂, cs, ds, es, hstretches, hspin, hserve, hreceive, hspins, hserved, hreceived⟩
  exact handed_of_carried hnodes hfits hbefore hrun hlater hcarried hsmall hi hj hpublisher
    hsubscriber

end Runs

/-! ## Keeping the time -/

theorem exists_spin_step (hphase : s.phase j = .connected) (receive : Bool)
    (env : SpinEnvironment) : ∃ s', s.step net (.spin j receive env) = some s' ∧
      s'.broker = s.broker ∧ s'.brokerRunning = s.brokerRunning := by
  obtain ⟨s', hstep⟩ : ∃ s', s.step net (.spin j receive env) = some s' := by
    simp only [System.step, spinStep, hphase]
    split
    · exact ⟨_, rfl⟩
    · exact ⟨_, rfl⟩
  refine ⟨s', hstep, ?_⟩
  obtain ⟨_, _, _, _, _, hcases⟩ := step_spin hstep
  rcases hcases with ⟨_, _, rfl⟩ | ⟨_, _, rfl⟩
  · exact ⟨rfl, rfl⟩
  · exact ⟨rfl, rfl⟩

theorem exists_spins (hnodes : ∀ i, Node.Created (nodes i)) (h : Chronicle net nodes s r)
    (hphase : s.phase j = .connected) (receive : Bool) (n : ℕ) :
    ∃ s', s.run net (List.replicate n (.spin j receive (sending true))) = some s' ∧
      s'.broker = s.broker ∧ s'.brokerRunning = s.brokerRunning := by
  induction n generalizing s r with
  | zero => exact ⟨s, rfl, rfl, rfl⟩
  | succ n ih =>
    obtain ⟨s₁, hstep, hbroker, hrunning⟩ :=
      @exists_spin_step _ _ net _ _ hphase receive (sending true)
    obtain ⟨r₁, horderly, _, hhistory⟩ := step_history hnodes h.orderly h.history hstep
    obtain ⟨s', hrun, hbroker', hrunning'⟩ :=
      ih ⟨horderly, hhistory⟩ (step_connected h.orderly hstep hphase)
    refine ⟨s', ?_, hbroker'.trans hbroker, hrunning'.trans hrunning⟩
    rw [List.replicate_succ, run, hstep]
    exact hrun

end System
end Crps
