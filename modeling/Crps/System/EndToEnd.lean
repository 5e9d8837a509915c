import Crps.System.Passage

/-!
# From `publish` to the callback

Every message handed to a subscriber is, byte for byte, one that a publisher of
the same topic and message type has accepted, and the messages of one publisher
arrive in the order in which they were accepted. This holds on every network
that does not invent, change or reorder datagrams, lossy or not, and whenever
the nodes connect.
-/

namespace Crps
namespace System

variable {ι : Type} {net : Deployment ι} {nodes : ι → Node} {s s' : System ι} {i j : ι}

section Steps

variable [DecidableEq ι] {r : Registry}

/-- No step invents a message or lets one overtake another. -/
theorem step_inOrder (hnodes : ∀ i, Node.Created (nodes i)) (h : Chronicle net nodes s r)
    (hsmall : r.tables.Small) (hwired : Wired s) (hrecorded : ∀ j, Recorded s j)
    (hinOrder : ∀ i l j k, InOrder i l s j k) {a : Action ι} (hstep : s.step net a = some s') :
    (∀ j, Recorded s' j) ∧ ∀ i l j k, InOrder i l s' j k := by
  have hlater := h.later hstep
  have hfewer : (∀ j, s'.ledger j = s.ledger j) → s'.node = s.node →
      (∀ j, (s'.up j).Sublist (s.up j)) → (∀ j, (s'.down j).Sublist (s.down j)) →
      (∀ j, Recorded s' j) ∧ ∀ i l j k, InOrder i l s' j k := by
    intro hledger hnode hup hdown
    refine ⟨fun j => ?_, fun i l j k => (hinOrder i l j k).passes ?_⟩
    · exact (hrecorded j).kept hlater (by rw [hledger]) (by rw [hledger]) (by rw [hledger])
        (.inr (by rw [hnode]))
    · exact .fewer (by rw [hledger]) (hdown j) (((hup i).map _).filterMap _) (by rw [hledger])
  cases a with
  | connect x =>
    obtain ⟨hphase, rfl⟩ := step_connect hstep
    have hsilent := (h.history x).starting_trace (by simp [hphase]) (by simp [hphase])
    obtain ⟨hrecorded', hpasses⟩ := continueConnect_passes hrecorded hlater hsilent
    exact ⟨hrecorded', fun i l j k => (hinOrder i l j k).passes (hpasses i l j k)⟩
  | rpcReturn x =>
    obtain ⟨resume, d, rest, hphase, hdown, hcases⟩ := step_rpcReturn hstep
    have hsub : ∀ j, (Function.update s.down x rest j).Sublist (s.down j) :=
      sublist_update (by rw [hdown]; exact List.sublist_cons_self _ _)
    rcases hcases with ⟨fault, _, rfl⟩ | ⟨n, response, _, rfl⟩
    · exact hfewer (fun _ => rfl) rfl (fun _ => List.Sublist.refl _) hsub
    · have hsilent := (h.history x).starting_trace (by simp [hphase]) (by simp [hphase])
      obtain ⟨hrecorded', hpasses⟩ := @continueConnect_passes _ net
        { s with down := Function.update s.down x rest } _ x n (resume n response)
        (fun j => (hrecorded j).kept (fun _ => .inr ⟨rfl, [], (List.append_nil _).symm⟩) rfl rfl rfl
          (.inr rfl)) hlater hsilent
      refine ⟨hrecorded', fun i l j k => InOrder.passes ?_ (hpasses i l j k)⟩
      exact (hinOrder i l j k).passes (.fewer rfl (hsub j) (List.Sublist.refl _) rfl)
  | broker x =>
    obtain ⟨_, d, rest, hup, hcases⟩ := step_broker hstep
    rcases hcases with ⟨fault, _, rfl⟩ | ⟨it, _, rfl⟩
    · exact hfewer (fun _ => rfl) rfl
        (sublist_update (by rw [hup]; exact List.sublist_cons_self _ _))
        fun _ => List.Sublist.refl _
    · have hledger : ∀ j, (Function.update s.ledger x
          ((s.ledger x).judge d.bytes it.disposal.passedCounter) j).trace = (s.ledger j).trace ∧
          (Function.update s.ledger x
            ((s.ledger x).judge d.bytes it.disposal.passedCounter) j).inbox = (s.ledger j).inbox ∧
          (Function.update s.ledger x ((s.ledger x).judge d.bytes
            it.disposal.passedCounter) j).delivered = (s.ledger j).delivered := by
        intro j
        by_cases hjx : j = x
        · subst hjx
          simp [Ledger.judge]
        · simp [hjx]
      refine ⟨fun j => ?_, fun i l j k => (hinOrder i l j k).passes ?_⟩
      · obtain ⟨htrace, hinbox, hdelivered⟩ := hledger j
        exact (hrecorded j).kept hlater htrace hinbox hdelivered (.inr rfl)
      · obtain ⟨_, hinbox, hdelivered⟩ := hledger j
        exact broker_passes hwired hup rfl (fun _ => rfl)
          (Ledger.origins_same hinbox hdelivered k) (hledger i).1
  | publish x p data =>
    obtain ⟨hphase, hs'⟩ := step_publish hstep
    obtain ⟨n₀, requests, hactive⟩ := (h.history x).active hphase
    have hpublish : ∃ payload taken, ((s.node x).publish p data).2 = .publish p payload taken := by
      unfold Node.publish
      split
      · exact ⟨_, _, rfl⟩
      · exact ⟨_, _, rfl⟩
    obtain ⟨payload, taken, hevent⟩ := hpublish
    rw [hevent] at hs'
    have hperforms : (s.node x).Performs [.publish p payload taken] (s'.node x) := by
      rw [← hevent, hs']
      simp only [Function.update_self]
      exact (Node.Does.publish p data).performs
    have hledger : s'.ledger x = (s.ledger x).recordAll none [.publish p payload taken] := by
      rw [hs']
      exact Function.update_self ..
    obtain ⟨hown, horigins⟩ := (hrecorded x).moves hactive hnodes hlater hperforms hledger
      fun k message hmem => by simp at hmem
    have hother : ∀ j, j ≠ x → s'.node j = s.node j ∧ s'.ledger j = s.ledger j := by
      intro j hjx
      subst hs'
      simp [hjx]
    have hlinks : s'.up = s.up ∧ s'.down = s.down := by
      rw [hs']
      exact ⟨rfl, rfl⟩
    refine ⟨fun j => ?_, fun i l j k => (hinOrder i l j k).passes (.fewer ?_ ?_ ?_ ?_)⟩
    · by_cases hjx : j = x
      · exact hjx ▸ hown
      · obtain ⟨hnode, hsame⟩ := hother j hjx
        exact (hrecorded j).kept hlater (by rw [hsame]) (by rw [hsame]) (by rw [hsame])
          (.inr hnode)
    · by_cases hjx : j = x
      · subst hjx
        rw [horigins]
        exact List.append_nil _
      · rw [(hother j hjx).2]
    · rw [hlinks.2]
    · rw [hlinks.1]
    · by_cases hix : i = x
      · subst hix
        rw [hledger, Ledger.recordAll_trace, transmitted_append]
        rfl
      · rw [(hother i hix).2]
  | spin x receive env =>
    obtain ⟨hphase, reception, origin, rest, hreceipt, hcases⟩ := step_spin hstep
    rcases hcases with ⟨fault, _, rfl⟩ | ⟨out, hout, hs'⟩
    · refine hfewer (fun _ => rfl) rfl (fun _ => List.Sublist.refl _) (sublist_update ?_)
      cases hreceipt with
      | nothing => exact List.Sublist.refl _
      | datagram hwaiting =>
        rw [hwaiting]
        exact List.sublist_cons_self _ _
    · obtain ⟨hrecorded', hpasses⟩ := spin_passes hnodes h hsmall hwired hrecorded hphase hreceipt
        hout hlater hs'
      exact ⟨hrecorded', fun i l j k => (hinOrder i l j k).passes (hpasses i l j k)⟩
  | loseUp x position =>
    injection hstep with hstep
    subst hstep
    exact hfewer (fun _ => rfl) rfl (sublist_update (List.eraseIdx_sublist _ _))
      fun _ => List.Sublist.refl _
  | loseDown x position =>
    injection hstep with hstep
    subst hstep
    exact hfewer (fun _ => rfl) rfl (fun _ => List.Sublist.refl _)
      (sublist_update (List.eraseIdx_sublist _ _))

/-- What holds of links and ledgers as long as datagrams fit and ids suffice. -/
structure Conveys (s : System ι) : Prop where
  wired : Wired s
  recorded : ∀ j, Recorded s j
  inOrder : ∀ i l j k, InOrder i l s j k

theorem conveys_initial (nodes : ι → Node) : Conveys (initial nodes) := by
  refine ⟨⟨fun x d hd => ?_, fun x d hd => ?_⟩, recorded_initial nodes,
    fun i l j k => ⟨.nil, fun x hx => ?_⟩⟩
  · cases hd
  · cases hd
  · cases hx

theorem Conveys.step (h : Conveys s) (hnodes : ∀ i, Node.Created (nodes i))
    (hchronicle : Chronicle net nodes s r) (hsmall : r.tables.Small) {a : Action ι}
    (hstep : s.step net a = some s')
    (hfit : ∀ x, DatagramsFit (nodes x) (s'.ledger x).trace) : Conveys s' := by
  obtain ⟨hrecorded, hinOrder⟩ :=
    step_inOrder hnodes hchronicle hsmall h.wired h.recorded h.inOrder hstep
  exact ⟨h.wired.step hnodes hchronicle hstep hfit, hrecorded, hinOrder⟩

theorem run_conveys (hnodes : ∀ i, Node.Created (nodes i)) {as : List (Action ι)}
    (hrun : (initial nodes).run net as = some s)
    (hfit : ∀ x, DatagramsFit (nodes x) (s.ledger x).trace) (hsmall : s.broker.tables.Small) :
    Conveys s := by
  obtain ⟨_, _, hconveys⟩ := run_chronicle
    (P := fun s => (∀ x, DatagramsFit (nodes x) (s.ledger x).trace) → s.broker.tables.Small →
      Conveys s)
    hnodes (fun _ _ => conveys_initial nodes)
    (fun a _ s s' r r' h h' hkeeps ih hstep hfit hsmall => by
      rw [← h'.orderly.tables] at hsmall
      have hsmall := hsmall.of_grows hkeeps.grows
      have hconveys := ih (DatagramsFit.of_later (h.later hstep) hfit) (h.orderly.tables ▸ hsmall)
      exact hconveys.step hnodes h hsmall hstep hfit) hrun
  exact hconveys hfit hsmall

end Steps

/-- What the callback of subscriber `k` of node `j` has got are messages that publishers of its
topic and message type have accepted, those of each publisher in the order of acceptance. -/
structure EndToEnd (s : System ι) (j : ι) (k : ℕ) [DecidableEq ι] : Prop where
  callbacks : ((s.ledger j).delivered k).map Prod.snd = deliveredTo k (s.ledger j).trace
  intact : ∀ m ∈ (s.ledger j).delivered k, s.Received j k m.1 m.2
  inOrder : ∀ i l, (numbers i l (((s.ledger j).delivered k).map Prod.fst)).Pairwise (· ≤ ·)

/-- Whatever gets lost on the way and whoever connects when, what arrives is what was accepted,
in order. -/
theorem endToEnd_of_small [DecidableEq ι] (hnodes : ∀ i, Node.Created (nodes i))
    {as : List (Action ι)} (hrun : (initial nodes).run net as = some s)
    (hfit : ∀ x, DatagramsFit (nodes x) (s.ledger x).trace) (hsmall : s.broker.tables.Small)
    (j : ι) (k : ℕ) : s.EndToEnd j k := by
  obtain ⟨_, hrecorded, hinOrder⟩ := run_conveys hnodes hrun hfit hsmall
  refine ⟨(hrecorded j).callbacks k, fun m hm => ?_, fun i l => ?_⟩
  · by_cases htrace : (s.ledger j).trace = []
    · rw [((hrecorded j).silent htrace k).2] at hm
      cases hm
    · exact ((hrecorded j).tallies htrace).handed k m hm
  · have hsorted := (hinOrder i l j k).sorted
    simp only [passage, Ledger.origins, numbers_append, List.append_assoc] at hsorted
    exact (List.pairwise_append.mp hsorted).1

end System
end Crps
