import Crps.Node.Receipt
import Crps.System.Retries

/-!
# What the datagrams carry

Every datagram on a link is a control packet or a packet some publisher has
filled in, unchanged: its header names the publisher's topic and message type,
and behind it stands the payload whose number it bears. Broker and links do not
touch the bytes, and what a node has accepted is never taken back.
-/

namespace Crps

/-- The packet is message number `index` of publisher `k`, whose node has this trace. -/
def Consigned (cfg : NodeConfig) (trace : List SpinEvent) (k index : ℕ) (packet : Bytes) : Prop :=
  ∃ p payload counter, cfg.publishers[k]? = some p ∧ p.Fits ∧
    (acceptedPayloads trace k)[index]? = some payload ∧ payload.length = p.messageSize.toNat ∧
    packet = dataHeaderBytes counter p.topicId p.messageTypeId p.messageSize ++ payload

theorem Consigned.more {cfg : NodeConfig} {trace : List SpinEvent} {k index : ℕ} {packet : Bytes}
    (h : Consigned cfg trace k index packet) (es : List SpinEvent) :
    Consigned cfg (trace ++ es) k index packet := by
  obtain ⟨p, payload, counter, hp, hfits, haccepted, hlength, hpacket⟩ := h
  refine ⟨p, payload, counter, hp, hfits, ?_, hlength, hpacket⟩
  have hlt := (List.getElem?_eq_some_iff.mp haccepted).1
  rw [acceptedPayloads_append, List.getElem?_append_left hlt]
  exact haccepted

theorem Consigned.head? {cfg : NodeConfig} {trace : List SpinEvent} {k index : ℕ} {packet : Bytes}
    (h : Consigned cfg trace k index packet) : packet.head? = some 2 := by
  obtain ⟨p, payload, counter, _, _, _, _, rfl⟩ := h
  rfl

namespace Node

variable {n n₀ n' : Node} {past es : List SpinEvent}

theorem Does.consigned {k : ℕ} {packet : Bytes} (h : n.Does (.sendto k packet true) n')
    (hpast : n₀.Performs past n) (hempty : n₀.outgoing k = []) (hfits : n.config.FitsAt k) :
    Consigned n.config past k (transmitted past k) packet := by
  have hadvances := h.advances fun j hj => by
    injection hj with hj
    exact hj ▸ hfits
  obtain ⟨p, payload, hp, hhead, hlength, hpacket⟩ :
      NodeQueues.Allows n.config n.queues (.sendto k packet true) := hadvances.runs.1
  have hbooks := hpast.outgoing (k := k) (hpast.config ▸ hfits)
  rw [hempty, List.nil_append] at hbooks
  obtain ⟨rest, hrest⟩ : ∃ rest, n.outgoing k = payload :: rest := List.head?_eq_some_iff.mp hhead
  refine ⟨p, payload, _, hp, hfits p hp, ?_, hlength, hpacket⟩
  rw [hbooks, ← length_payloadsSent, hrest, List.getElem?_append_right (Nat.le_refl _),
    Nat.sub_self]
  rfl

theorem Performs.consigned {ι : Type} {i : ι} (h : n.Performs es n') (hpast : n₀.Performs past n)
    (hempty : ∀ k, n₀.outgoing k = [])
    (hfits : ∀ k packet, .sendto k packet true ∈ es → n.config.FitsAt k) {d : Datagram ι}
    (hd : d ∈ dispatched i past es) : ∃ k index, d.origin = some ⟨i, k, index⟩ ∧
      Consigned n.config (past ++ es) k index d.bytes := by
  induction h generalizing past with
  | nil => cases hd
  | @cons n n₁ n₂ e es buffer hdoes _ ih =>
    have hbuffer : n₀.Performs past { n with buffer } := by
      simpa using hpast.trans (.nil n buffer)
    have hrest : d ∈ dispatched i (past ++ [e]) es → ∃ k index,
        d.origin = some ⟨i, k, index⟩ ∧ Consigned n.config (past ++ e :: es) k index d.bytes := by
      intro hd
      have hconfig : n₁.config = n.config := hdoes.config
      have hlater := ih (hbuffer.trans hdoes.performs)
        (fun k packet hmem => hconfig ▸ hfits k packet (List.mem_cons_of_mem _ hmem)) hd
      simpa [hconfig] using hlater
    simp only [dispatched] at hd
    split at hd
    · rename_i k packet
      rcases List.mem_cons.mp hd with rfl | hd
      · exact ⟨k, _, rfl, (hdoes.consigned hbuffer (hempty k)
          (hfits k packet List.mem_cons_self)).more _⟩
      · exact hrest hd
    · exact hrest hd

end Node

namespace System

variable {ι : Type} {net : Deployment ι} {nodes : ι → Node} {s s' : System ι} {i : ι}
variable {r r' : Registry}

/-- A registry and the histories behind a state of a run. -/
structure Chronicle (net : Deployment ι) (nodes : ι → Node) (s : System ι) (r : Registry) :
    Prop where
  orderly : Orderly net nodes s r
  history : ∀ j, History net nodes s r j

theorem chronicle_initial (net : Deployment ι) (nodes : ι → Node) :
    Chronicle net nodes (initial nodes) emptyRegistry :=
  ⟨orderly_initial net nodes, history_initial net nodes⟩

/-- What the steps between chronicled states preserve holds of all states of a run. -/
theorem run_chronicle [DecidableEq ι] {P : System ι → Prop}
    (hnodes : ∀ i, Node.Created (nodes i)) {as : List (Action ι)} (hinitial : P (initial nodes))
    (hstep : ∀ a ∈ as, ∀ s s' r r', Chronicle net nodes s r → Chronicle net nodes s' r' →
      Keeps net s s' r r' → P s → s.step net a = some s' → P s')
    (hrun : (initial nodes).run net as = some s) :
    ∃ r, Chronicle net nodes s r ∧ P s := by
  refine run_invariant (P := fun s => ∃ r, Chronicle net nodes s r ∧ P s)
    (fun a ha s₁ s₂ => ?_)
    ⟨_, chronicle_initial net nodes, hinitial⟩ hrun
  rintro ⟨r₁, h₁, hP⟩ htaken
  obtain ⟨r₂, horderly, hkeeps, hhistory⟩ := step_history hnodes h₁.orderly h₁.history htaken
  exact ⟨r₂, ⟨horderly, hhistory⟩, hstep a ha s₁ s₂ r₁ r₂ h₁ ⟨horderly, hhistory⟩ hkeeps hP htaken⟩

/-! ## What stays -/

/-- A node that has events keeps its endpoints and its events. -/
def Later (s s' : System ι) : Prop :=
  ∀ x, (s.ledger x).trace = [] ∨ (s'.node x).config = (s.node x).config ∧
    ∃ es, (s'.ledger x).trace = (s.ledger x).trace ++ es

theorem History.starting_trace (h : History net nodes s r i)
    (hphase : s.phase i ≠ .connected) (hphase' : s.phase i ≠ .failed) :
    (s.ledger i).trace = [] := by
  rcases h with h | ⟨n₀, requests, h⟩
  · exact h.trace
  · rcases h.settled.1 with hsettled | hsettled
    · exact absurd hsettled hphase
    · exact absurd hsettled hphase'

theorem Later.trace {x : ι} (h : Later s s') :
    ∃ es, (s'.ledger x).trace = (s.ledger x).trace ++ es := by
  rcases h x with hnone | ⟨_, hmore⟩
  · exact ⟨_, by rw [hnone, List.nil_append]⟩
  · exact hmore

theorem DatagramsFit.of_later (h : Later s s')
    (hfit : ∀ x, DatagramsFit (nodes x) (s'.ledger x).trace) :
    ∀ x, DatagramsFit (nodes x) (s.ledger x).trace := by
  intro x k packet p hsent hp
  obtain ⟨es, hes⟩ := h.trace (x := x)
  exact hfit x k packet p (hes ▸ List.mem_append_left es hsent) hp

/-- A control packet, or the message its origin names. -/
def Sound (s : System ι) (d : Datagram ι) : Prop :=
  d.origin = none ∧ d.bytes.head? = some 1 ∨ ∃ m, d.origin = some m ∧
    Consigned (s.node m.node).config (s.ledger m.node).trace m.publisher m.index d.bytes

theorem Sound.later {d : Datagram ι} (h : s.Sound d) (hlater : Later s s') : s'.Sound d := by
  rcases h with hcontrol | ⟨m, horigin, hconsigned⟩
  · exact .inl hcontrol
  · refine .inr ⟨m, horigin, ?_⟩
    rcases hlater m.node with hnone | ⟨hconfig, es, hes⟩
    · obtain ⟨_, _, _, _, _, haccepted, _⟩ := hconsigned
      rw [hnone] at haccepted
      cases haccepted
    · rw [hconfig, hes]
      exact hconsigned.more es

theorem Active.outgoing {n₀ : Node} {requests : List Bytes}
    (h : Active net nodes s r i n₀ requests) (hnodes : ∀ i, Node.Created (nodes i)) (k : ℕ) :
    n₀.outgoing k = [] := Node.outgoing_of_blueprint (hnodes i) h.registered.blueprint k

theorem Active.books {n₀ : Node} {requests : List Bytes}
    (h : Active net nodes s r i n₀ requests) (hnodes : ∀ i, Node.Created (nodes i)) (k : ℕ) :
    (acceptedPayloads (s.ledger i).trace k).length =
      transmitted (s.ledger i).trace k + (s.node i).queued (.publisher k) := by
  have hqueued := h.performs.queued k
  rw [Node.queued_of_blueprint h.registered.blueprint, Node.queued_of_created (hnodes i),
    Nat.zero_add] at hqueued
  rw [Node.length_acceptedPayloads]
  exact hqueued

theorem Active.fitsAt {n₀ : Node} {requests : List Bytes}
    (h : Active net nodes s r i n₀ requests) (hnodes : ∀ i, Node.Created (nodes i))
    {trace : List SpinEvent} (hfit : DatagramsFit (nodes i) trace) {k : ℕ} {packet : Bytes}
    (hsent : .sendto k packet true ∈ trace) : (s.node i).config.FitsAt k := by
  intro info hinfo
  have hroom := h.headerRoom hnodes info (List.mem_of_getElem? hinfo)
  rw [h.performs.config, Node.config, List.getElem?_map] at hinfo
  obtain ⟨p, hp, rfl⟩ := Option.map_eq_some_iff.mp hinfo
  obtain ⟨q, hq, hqp⟩ := Node.publisherAt_of_blueprint h.registered.blueprint.symm hp
  have hsize := hfit k packet q hsent hq
  have hsame : q.blueprint.packetSize = p.blueprint.packetSize := by rw [hqp]
  change q.packetSize = p.packetSize at hsame
  have hpacket : p.info.packetHeaderSize + p.info.messageSize.toNat = p.packetSize := rfl
  refine ⟨hroom, ?_⟩
  rw [hpacket, ← hsame]
  simp only [maxDatagramSize] at hsize
  omega

/-! ## Bytes on the links -/

/-- Links hold sound datagrams, and on its way up a message comes from the link's own node. -/
structure Wired (s : System ι) : Prop where
  up : ∀ x, ∀ d ∈ s.up x, s.Sound d ∧ ∀ m, d.origin = some m → m.node = x
  down : ∀ x, ∀ d ∈ s.down x, s.Sound d

theorem head?_of_advance {text : JsonText} {m : Session Node Json Json Fault Bool} {n : Node} :
    ∀ packet ∈ (advance text n m).2.2, packet.head? = some 1 := by
  induction m generalizing n with
  | ret n' ok =>
    cases ok with
    | false =>
      intro packet hpacket
      cases hpacket
    | true =>
      intro packet hpacket
      cases hpacket
  | throw e =>
    intro packet hpacket
    cases hpacket
  | call n' request resume ih =>
    by_cases hlen : (n'.sendControl text request).1.length ≤ maxDatagramSize
    · simp only [advance, if_pos hlen]
      intro packet hpacket
      rw [List.mem_singleton.mp hpacket]
      rfl
    · simp only [advance, if_neg hlen]
      exact ih _ _

theorem head?_of_attempt {text : JsonText} {b : Broker} {sendto : Sendto} {client : String}
    {packet : Bytes} {it : Iteration}
    (hit : b.spinIteration text sendto client packet = .ok it) (hpacket : packet.head? = some 1) :
    ∀ a ∈ it.attempts, a.packet.head? = some 1 := by
  obtain ⟨d, hd, hiterates⟩ := Broker.spinIteration_iterates hit
  cases hiterates with
  | refused => simp
  | invalid => simp
  | unknownType => simp
  | control _ _ hcontrol =>
    obtain ⟨reply, _, answer, rfl, rfl⟩ := Broker.processControl_ok hcontrol
    intro a ha
    rw [List.mem_singleton.mp ha]
    exact head?_controlPacket _ _ _
  | data _ htype =>
    have hdata := head?_of_data _ hd htype
    rw [hpacket] at hdata
    cases hdata

theorem mem_arrivals {it : Iteration} {origin : Option (MessageId ι)} {j : ι} {d : Datagram ι}
    (h : d ∈ arrivals net it origin j) :
    d.origin = origin ∧ ∃ a ∈ it.attempts, d.bytes = a.packet := by
  obtain ⟨a, ha, rfl⟩ := List.mem_map.mp h
  exact ⟨rfl, a, (List.mem_filter.mp ha).1, rfl⟩

theorem Sound.arrives {d d' : Datagram ι} (h : s.Sound d) {it : Iteration} {client : String} {j : ι}
    (hit : s.broker.spinIteration net.text brokerSendto client d.bytes = .ok it)
    (hd' : d' ∈ arrivals net it d.origin j) : s.Sound d' := by
  obtain ⟨horigin, a, ha, hbytes⟩ := mem_arrivals hd'
  unfold Sound
  rw [horigin, hbytes]
  rcases h with ⟨hnone, hcontrol⟩ | ⟨m, hm, hconsigned⟩
  · exact .inl ⟨hnone, head?_of_attempt hit hcontrol a ha⟩
  · have hdata : d.bytes.head? ≠ some 1 := by
      rw [hconsigned.head?]
      decide
    rw [(Broker.spinIteration_notControl hdata hit).2.2 a ha]
    exact .inr ⟨m, hm, hconsigned⟩

variable [DecidableEq ι]

/-- Nodes that have connected go on from where they were. -/
theorem Chronicle.onward {a : Action ι} (h : Chronicle net nodes s r)
    (hstep : s.step net a = some s') (x : ι) :
    (s.ledger x).trace = [] ∧ s.phase x ≠ .connected ∨
      (s'.node x).config = (s.node x).config ∧
        ∃ es, (s'.ledger x).trace = (s.ledger x).trace ++ es := by
  have hstay : (s'.node x).config = (s.node x).config →
      (s'.ledger x).trace = (s.ledger x).trace →
      (s.ledger x).trace = [] ∧ s.phase x ≠ .connected ∨
        (s'.node x).config = (s.node x).config ∧
          ∃ es, (s'.ledger x).trace = (s.ledger x).trace ++ es :=
    fun hconfig htrace => .inr ⟨hconfig, [], by rw [htrace, List.append_nil]⟩
  cases a with
  | connect i =>
    obtain ⟨hphase, rfl⟩ := step_connect hstep
    by_cases hxi : x = i
    · subst hxi
      exact .inl ⟨(h.history x).starting_trace (by simp [hphase]) (by simp [hphase]),
        by simp [hphase]⟩
    · exact hstay (by simp [continueConnect, hxi]) (by simp [continueConnect, hxi])
  | rpcReturn i =>
    obtain ⟨resume, d, rest, hphase, _, hcases⟩ := step_rpcReturn hstep
    by_cases hxi : x = i
    · subst hxi
      exact .inl ⟨(h.history x).starting_trace (by simp [hphase]) (by simp [hphase]),
        by simp [hphase]⟩
    · rcases hcases with ⟨fault, _, rfl⟩ | ⟨n, response, _, rfl⟩
      · exact hstay rfl rfl
      · exact hstay (by simp [continueConnect, hxi]) (by simp [continueConnect, hxi])
  | broker i =>
    obtain ⟨_, d, rest, _, hcases⟩ := step_broker hstep
    rcases hcases with ⟨fault, _, rfl⟩ | ⟨it, _, rfl⟩
    · exact hstay rfl rfl
    · by_cases hxi : x = i
      · subst hxi
        exact hstay rfl (by simp [Ledger.judge])
      · exact hstay rfl (by simp [hxi])
  | publish i k data =>
    obtain ⟨_, rfl⟩ := step_publish hstep
    by_cases hxi : x = i
    · subst hxi
      simp only [Function.update_self, Ledger.record_trace]
      exact .inr ⟨(Node.Does.publish k data).config, _, rfl⟩
    · exact hstay (by simp [hxi]) (by simp [hxi])
  | spin i receive env =>
    obtain ⟨_, reception, origin, rest, _, hcases⟩ := step_spin hstep
    rcases hcases with ⟨fault, _, rfl⟩ | ⟨out, hout, rfl⟩
    · exact hstay rfl rfl
    · by_cases hxi : x = i
      · subst hxi
        simp only [Function.update_self, Ledger.recordAll_trace]
        exact .inr ⟨(Node.spinOnce_performs hout).config, _, rfl⟩
      · exact hstay (by simp [hxi]) (by simp [hxi])
  | loseUp i position =>
    injection hstep with hstep
    subst hstep
    exact hstay rfl rfl
  | loseDown i position =>
    injection hstep with hstep
    subst hstep
    exact hstay rfl rfl

theorem Chronicle.later {a : Action ι} (h : Chronicle net nodes s r)
    (hstep : s.step net a = some s') : Later s s' :=
  fun x => (h.onward hstep x).imp_left And.left

theorem Chronicle.config_kept {a : Action ι} (h : Chronicle net nodes s r)
    (hstep : s.step net a = some s') (hphase : s.phase i = .connected) :
    (s'.node i).config = (s.node i).config := by
  rcases h.onward hstep i with ⟨_, hconnecting⟩ | ⟨hconfig, _⟩
  · exact absurd hphase hconnecting
  · exact hconfig

omit [DecidableEq ι] in
theorem Wired.fewer (h : Wired s) (hlater : Later s s') (hup : ∀ x, s'.up x ⊆ s.up x)
    (hdown : ∀ x, s'.down x ⊆ s.down x) : Wired s' where
  up x d hd := ⟨((h.up x d (hup x hd)).1).later hlater, (h.up x d (hup x hd)).2⟩
  down x d hd := (h.down x d (hdown x hd)).later hlater

theorem subset_update {links : ι → List (Datagram ι)} {rest : List (Datagram ι)}
    (h : rest ⊆ links i) (x : ι) : Function.update links i rest x ⊆ links x := by
  by_cases hxi : x = i
  · subst hxi
    rw [Function.update_self]
    exact h
  · rw [Function.update_of_ne hxi]
    exact List.Subset.refl _

theorem Wired.continueConnect (h : Wired s) {n : Node} {m : Session Node Json Json Fault Bool}
    (hlater : Later s (s.continueConnect net i n m)) : Wired (s.continueConnect net i n m) := by
  refine ⟨fun x d hd => ?_, fun x d hd => (h.down x d hd).later hlater⟩
  by_cases hxi : x = i
  · subst hxi
    simp only [System.continueConnect, Function.update_self] at hd
    rcases List.mem_append.mp hd with hd | hd
    · exact ⟨(h.up x d hd).1.later hlater, (h.up x d hd).2⟩
    · obtain ⟨packet, hpacket, rfl⟩ := List.mem_map.mp hd
      refine ⟨.inl ⟨rfl, head?_of_advance packet hpacket⟩, ?_⟩
      intro m hm
      cases hm
  · simp only [System.continueConnect, Function.update_of_ne hxi] at hd
    exact ⟨(h.up x d hd).1.later hlater, (h.up x d hd).2⟩

/-- No step damages what is on the links. -/
theorem Wired.step (h : Wired s) (hnodes : ∀ i, Node.Created (nodes i))
    (hchronicle : Chronicle net nodes s r) {a : Action ι} (hstep : s.step net a = some s')
    (hfit : ∀ x, DatagramsFit (nodes x) (s'.ledger x).trace) : Wired s' := by
  have hlater := hchronicle.later hstep
  cases a with
  | connect i =>
    obtain ⟨_, rfl⟩ := step_connect hstep
    exact h.continueConnect hlater
  | rpcReturn i =>
    obtain ⟨resume, d, rest, hphase, hdown, hcases⟩ := step_rpcReturn hstep
    have hsub : ∀ x, Function.update s.down i rest x ⊆ s.down x :=
      subset_update (by rw [hdown]; exact List.subset_cons_self _ _)
    rcases hcases with ⟨fault, _, rfl⟩ | ⟨n, response, _, rfl⟩
    · exact h.fewer hlater (fun _ => List.Subset.refl _) hsub
    · have hreceived : Wired ({ s with down := Function.update s.down i rest } : System ι) :=
        h.fewer (fun x => .inr ⟨rfl, [], (List.append_nil _).symm⟩)
          (fun _ => List.Subset.refl _) hsub
      refine hreceived.continueConnect fun x => ?_
      exact hlater x
  | broker i =>
    obtain ⟨_, d, rest, hup, hcases⟩ := step_broker hstep
    have hsub : ∀ x, Function.update s.up i rest x ⊆ s.up x :=
      subset_update (by rw [hup]; exact List.subset_cons_self _ _)
    rcases hcases with ⟨fault, _, rfl⟩ | ⟨it, hit, rfl⟩
    · exact h.fewer hlater hsub fun _ => List.Subset.refl _
    · have hd := (h.up i d (by rw [hup]; exact List.mem_cons_self)).1
      refine ⟨fun x d' hd' => ?_, fun x d' hd' => ?_⟩
      · have hbefore := h.up x d' (hsub x hd')
        exact ⟨hbefore.1.later hlater, hbefore.2⟩
      · rcases List.mem_append.mp hd' with hd' | hd'
        · exact (h.down x d' hd').later hlater
        · exact (hd.arrives hit hd').later hlater
  | publish i k data =>
    obtain ⟨_, rfl⟩ := step_publish hstep
    exact h.fewer hlater (fun _ => List.Subset.refl _) fun _ => List.Subset.refl _
  | spin i receive env =>
    obtain ⟨hphase, reception, origin, rest, hreceipt, hcases⟩ := step_spin hstep
    have hsub : ∀ x, Function.update s.down i rest x ⊆ s.down x := subset_update hreceipt.subset
    rcases hcases with ⟨fault, _, rfl⟩ | ⟨out, hout, rfl⟩
    · exact h.fewer hlater (fun _ => List.Subset.refl _) hsub
    · obtain ⟨n₀, requests, hactive⟩ := (hchronicle.history i).active hphase
      have hperforms := Node.spinOnce_performs hout
      have hfiti := hfit i
      simp only [Function.update_self, Ledger.recordAll_trace] at hfiti
      refine ⟨fun x d hd => ?_, fun x d hd => (h.down x d (hsub x hd)).later hlater⟩
      by_cases hxi : x = i
      · subst hxi
        simp only [Function.update_self] at hd
        rcases List.mem_append.mp hd with hd | hd
        · exact ⟨(h.up x d hd).1.later hlater, (h.up x d hd).2⟩
        · obtain ⟨k, index, horigin, hconsigned⟩ := hperforms.consigned hactive.performs
            (hactive.outgoing hnodes) (fun k packet hmem =>
              hactive.fitsAt hnodes hfiti (List.mem_append_right _ hmem)) hd
          refine ⟨.inr ⟨_, horigin, ?_⟩, fun m hm => ?_⟩
          · simp only [Function.update_self, Ledger.recordAll_trace, hperforms.config]
            exact hconsigned
          · rw [horigin, Option.some.injEq] at hm
            rw [← hm]
      · simp only [Function.update_of_ne hxi] at hd
        exact ⟨(h.up x d hd).1.later hlater, (h.up x d hd).2⟩
  | loseUp i position =>
    injection hstep with hstep
    subst hstep
    exact h.fewer hlater (subset_update (List.eraseIdx_subset ..)) fun _ => List.Subset.refl _
  | loseDown i position =>
    injection hstep with hstep
    subst hstep
    exact h.fewer hlater (fun _ => List.Subset.refl _) (subset_update (List.eraseIdx_subset ..))

end System
end Crps
