import Crps.Foundation.Relay
import Crps.System.Reception

/-!
# The way of a publisher's messages

The messages of one publisher on their way to one subscriber stand in a row:
those handed over or queued, those between broker and node, those between the
publisher's node and the broker. Every step relays this row, and what a node
sends is put at its end.
-/

namespace Crps
namespace System

variable {ι : Type} {net : Deployment ι} {nodes : ι → Node} {s s' : System ι} {i j : ι}
variable {r : Registry}

/-! ## Numbers -/

section Numbers

variable [DecidableEq ι] (i : ι) (l : ℕ)

/-- The number of a message among those of publisher `l` of node `i`. -/
def numberFrom (origin : Option (MessageId ι)) : Option ℕ :=
  origin.bind fun m => if m.node = i ∧ m.publisher = l then some m.index else none

def numbers (origins : List (Option (MessageId ι))) : List ℕ := origins.filterMap (numberFrom i l)

/-- The messages of publisher `l` of node `i` on their way to subscriber `k` of node `j`, furthest
first: handed over or queued, on the way from the broker, on the way to it. -/
def passage (s : System ι) (j : ι) (k : ℕ) : List ℕ :=
  numbers i l ((s.ledger j).origins k) ++ numbers i l ((s.down j).map Datagram.origin) ++
    numbers i l ((s.up i).map Datagram.origin)

theorem numbers_append (os os' : List (Option (MessageId ι))) :
    numbers i l (os ++ os') = numbers i l os ++ numbers i l os' := List.filterMap_append

theorem numbers_cons (o : Option (MessageId ι)) (os : List (Option (MessageId ι))) :
    numbers i l (o :: os) = numbers i l [o] ++ numbers i l os := numbers_append i l [o] os

theorem numbers_eq_nil {os : List (Option (MessageId ι))}
    (h : ∀ o ∈ os, ∀ m, o = some m → m.node ≠ i) : numbers i l os = [] := by
  apply List.filterMap_eq_nil_iff.mpr
  intro o ho
  cases o with
  | none => rfl
  | some m =>
    simp only [numberFrom, Option.bind_some, ite_eq_right_iff, reduceCtorEq, imp_false, not_and]
    exact fun hm => absurd hm (h _ ho m rfl)

theorem numbers_replicate (o : Option (MessageId ι)) (copies : ℕ) :
    numbers i l (List.replicate copies o) = copied copies (numbers i l [o]) := by
  unfold numbers
  rw [List.filterMap_replicate]
  cases ho : numberFrom i l o with
  | none => simp [ho, copied]
  | some x => simp [ho, copied]

theorem relayed_numbers (o : Option (MessageId ι)) (copies : ℕ) :
    Relayed (numbers i l [o]) (numbers i l (List.replicate copies o)) := by
  rw [numbers_replicate]
  unfold numbers
  cases ho : numberFrom i l o with
  | none =>
    simp only [ho, List.filterMap_cons, List.filterMap_nil]
    exact .nil
  | some x =>
    simp only [ho, List.filterMap_cons, List.filterMap_nil, copied, List.flatMap_cons,
      List.flatMap_nil, List.append_nil]
    exact .copies x copies

theorem numbers_dispatched (past es : List SpinEvent) :
    numbers i l ((dispatched i past es).map Datagram.origin) =
      List.range' (transmitted past l) (transmitted es l) := by
  induction es generalizing past with
  | nil => rfl
  | cons e es ih =>
    have hcount := transmitted_append [e] es l
    have hpast := transmitted_append past [e] l
    rw [List.singleton_append] at hcount
    rw [hcount]
    simp only [dispatched]
    split
    · rename_i k packet
      rw [List.map_cons, numbers_cons, ih, hpast]
      by_cases hkl : k = l
      · subst hkl
        have hone : transmitted [SpinEvent.sendto k packet true] k = 1 := by simp [transmitted]
        rw [hone, Nat.add_comm 1, List.range'_succ]
        simp [numbers, numberFrom]
      · have hnone : transmitted [SpinEvent.sendto k packet true] l = 0 := by
          simp [transmitted, hkl]
        rw [hnone, Nat.add_zero, Nat.zero_add]
        simp [numbers, numberFrom, hkl]
    · rename_i hother
      have hnone : transmitted [e] l = 0 := by
        cases e with
        | sendto k packet sent =>
          cases sent with
          | false => rfl
          | true => exact absurd rfl (hother k packet)
        | _ => rfl
      rw [ih, hpast, hnone, Nat.add_zero, Nat.zero_add]

omit [DecidableEq ι] in
theorem map_origin_arrivals (it : Iteration) (origin : Option (MessageId ι)) (j : ι) :
    (arrivals net it origin j).map Datagram.origin =
      List.replicate (arrivals net it origin j).length origin := by
  apply List.eq_replicate_iff.mpr
  refine ⟨List.length_map _, fun o ho => ?_⟩
  obtain ⟨d, hd, rfl⟩ := List.mem_map.mp ho
  exact (mem_arrivals hd).1

/-- One step of the passage: what is on its way is relayed, and what goes out comes last. -/
def Passes (s s' : System ι) (j : ι) (k : ℕ) : Prop :=
  ∃ ys count, Relayed (passage i l s j k) ys ∧
    passage i l s' j k = ys ++ List.range' (transmitted (s.ledger i).trace l) count ∧
    transmitted (s'.ledger i).trace l = transmitted (s.ledger i).trace l + count

variable {i l} {k : ℕ}

/-- Nothing goes out. -/
theorem Passes.quiet (h : Relayed (passage i l s j k) (passage i l s' j k))
    (htransmitted : transmitted (s'.ledger i).trace l = transmitted (s.ledger i).trace l) :
    Passes i l s s' j k :=
  ⟨_, 0, h, (List.append_nil _).symm, htransmitted⟩

theorem Passes.fewer (horigins : (s'.ledger j).origins k = (s.ledger j).origins k)
    (hdown : (s'.down j).Sublist (s.down j))
    (hup : (numbers i l ((s'.up i).map Datagram.origin)).Sublist
      (numbers i l ((s.up i).map Datagram.origin)))
    (htransmitted : transmitted (s'.ledger i).trace l = transmitted (s.ledger i).trace l) :
    Passes i l s s' j k := by
  refine .quiet ?_ htransmitted
  unfold passage
  rw [horigins]
  apply Relayed.of_sublist
  exact ((List.Sublist.refl _).append ((hdown.map _).filterMap _)).append hup

theorem Passes.moves (count : ℕ)
    (harrives : Relayed
      (numbers i l ((s.ledger j).origins k) ++ numbers i l ((s.down j).map Datagram.origin))
      (numbers i l ((s'.ledger j).origins k) ++ numbers i l ((s'.down j).map Datagram.origin)))
    (hup : numbers i l ((s'.up i).map Datagram.origin) =
      numbers i l ((s.up i).map Datagram.origin) ++
        List.range' (transmitted (s.ledger i).trace l) count)
    (htransmitted : transmitted (s'.ledger i).trace l =
      transmitted (s.ledger i).trace l + count) : Passes i l s s' j k := by
  refine ⟨_, count, harrives.append (.refl _), ?_, htransmitted⟩
  rw [passage, hup, ← List.append_assoc]

/-- In the order of their numbers, none of which is yet to be given. -/
structure InOrder (i : ι) (l : ℕ) (s : System ι) (j : ι) (k : ℕ) : Prop where
  sorted : (passage i l s j k).Pairwise (· ≤ ·)
  given : ∀ x ∈ passage i l s j k, x < transmitted (s.ledger i).trace l

theorem InOrder.passes (h : InOrder i l s j k) (hpasses : Passes i l s s' j k) :
    InOrder i l s' j k := by
  obtain ⟨ys, count, hrelayed, hpassage, htransmitted⟩ := hpasses
  have hgiven : ∀ y ∈ ys, y < transmitted (s.ledger i).trace l :=
    fun y hy => h.given y (hrelayed.subset hy)
  constructor
  · rw [hpassage]
    refine List.pairwise_append.mpr ⟨hrelayed.pairwise le_refl h.sorted, ?_, fun y hy x hx => ?_⟩
    · exact (List.pairwise_lt_range' 1).imp fun hlt => hlt.le
    · have hge := (List.mem_range'_1.mp hx).1
      exact (hgiven y hy).le.trans hge
  · intro x hx
    rw [htransmitted]
    rw [hpassage] at hx
    rcases List.mem_append.mp hx with hx | hx
    · exact (hgiven x hx).trans_le (Nat.le_add_right _ _)
    · exact (List.mem_range'_1.mp hx).2

end Numbers

/-! ## Steps -/

variable [DecidableEq ι] {l k : ℕ}

theorem queuedAt_eq_zero {events : List SpinEvent}
    (h : ∀ message, .queueMessage k message true ∉ events) : queuedAt k events = 0 := by
  apply List.countP_eq_zero.mpr
  intro e he
  cases e with
  | queueMessage j message taken =>
    cases taken with
    | false => simp
    | true =>
      have hjk : j ≠ k := by
        rintro rfl
        exact h message he
      simp [hjk]
  | _ => simp

theorem sublist_update {links : ι → List (Datagram ι)} {rest : List (Datagram ι)} {x : ι}
    (h : rest.Sublist (links x)) (y : ι) : (Function.update links x rest y).Sublist (links y) := by
  by_cases hyx : y = x
  · subst hyx
    rw [Function.update_self]
    exact h
  · rw [Function.update_of_ne hyx]

theorem continueConnect_ledger (s : System ι) (x : ι) (n : Node)
    (m : Session Node Json Json Fault Bool) (y : ι) :
    ((s.continueConnect net x n m).ledger y).trace = (s.ledger y).trace ∧
      ((s.continueConnect net x n m).ledger y).inbox = (s.ledger y).inbox ∧
      ((s.continueConnect net x n m).ledger y).delivered = (s.ledger y).delivered := by
  by_cases hyx : y = x
  · subst hyx
    simp [continueConnect, Ledger.transmit]
  · simp [continueConnect, hyx]

theorem continueConnect_passes {x : ι} {n : Node} {m : Session Node Json Json Fault Bool}
    (hrecorded : ∀ j, Recorded s j) (hlater : Later s (s.continueConnect net x n m))
    (hsilent : (s.ledger x).trace = []) :
    (∀ j, Recorded (s.continueConnect net x n m) j) ∧
      ∀ i l j k, Passes i l s (s.continueConnect net x n m) j k := by
  have hledger := @continueConnect_ledger _ net _ s x n m
  refine ⟨fun j => ?_, fun i l j k => ?_⟩
  · obtain ⟨htrace, hinbox, hdelivered⟩ := hledger j
    refine (hrecorded j).kept hlater htrace hinbox hdelivered ?_
    by_cases hjx : j = x
    · exact .inl (hjx ▸ hsilent)
    · exact .inr (by simp [continueConnect, hjx])
  · obtain ⟨_, hinbox, hdelivered⟩ := hledger j
    refine .fewer (Ledger.origins_same hinbox hdelivered k) (List.Sublist.refl _) ?_
      (by rw [(hledger i).1])
    by_cases hix : i = x
    · subst hix
      have hnone : numbers i l (((advance net.text n m).2.2.map
          fun packet => (⟨packet, none⟩ : Datagram ι)).map Datagram.origin) = [] := by
        apply numbers_eq_nil
        intro o ho
        rw [List.map_map] at ho
        obtain ⟨packet, _, rfl⟩ := List.mem_map.mp ho
        intro m hm
        cases hm
      simp only [continueConnect, Function.update_self, List.map_append, numbers_append, hnone,
        List.append_nil]
      exact List.Sublist.refl _
    · simp only [continueConnect, Function.update_of_ne hix]
      exact List.Sublist.refl _

theorem broker_passes {x : ι} {d : Datagram ι} {rest : List (Datagram ι)} {it : Iteration}
    (hwired : Wired s) (hup : s.up x = d :: rest) (hup' : s'.up = Function.update s.up x rest)
    (hdown : ∀ j, s'.down j = s.down j ++ arrivals net it d.origin j)
    (horigins : (s'.ledger j).origins k = (s.ledger j).origins k)
    (htrace : (s'.ledger i).trace = (s.ledger i).trace) : Passes i l s s' j k := by
  refine .quiet ?_ (by rw [htrace])
  unfold passage
  rw [horigins, hdown, List.map_append, numbers_append, map_origin_arrivals, hup']
  by_cases hix : i = x
  · subst hix
    rw [Function.update_self, hup, List.map_cons, numbers_cons, List.append_assoc,
      List.append_assoc, List.append_assoc]
    exact (Relayed.refl _).append ((Relayed.refl _).append
      ((relayed_numbers i l d.origin _).append (.refl _)))
  · have hforeign : numbers i l (List.replicate (arrivals net it d.origin j).length d.origin) =
        [] := by
      apply numbers_eq_nil
      intro o ho m hm
      rw [List.eq_of_mem_replicate ho] at hm
      have hnode := (hwired.up x d (by rw [hup]; exact List.mem_cons_self)).2 m hm
      rw [hnode]
      exact Ne.symm hix
    rw [Function.update_of_ne hix, hforeign, List.append_nil]
    exact .refl _

omit [DecidableEq ι] in
theorem spin_records {x : ι} {reception : Reception} {origin : Option (MessageId ι)}
    {rest : List (Datagram ι)} {env : SpinEnvironment} {out : Node.SpinOutcome}
    (hnodes : ∀ i, Node.Created (nodes i)) (hchronicle : Chronicle net nodes s r)
    (hsmall : r.tables.Small) (hwired : Wired s) (hrecorded : ∀ j, Recorded s j)
    (hphase : s.phase x = .connected) (hreceipt : Receipt (s.down x) reception origin rest)
    (hout : (s.node x).spinOnce net.text reception env = .ok out) (hlater : Later s s')
    (hnode : s'.node x = out.node)
    (hledger : s'.ledger x = (s.ledger x).recordAll origin out.events) :
    Recorded s' x ∧ ∀ k, (s'.ledger x).origins k =
      (s.ledger x).origins k ++ List.replicate (queuedAt k out.events) origin := by
  obtain ⟨n₀, requests, hactive⟩ := (hchronicle.history x).active hphase
  obtain ⟨n', events, hprocesses, hqueues⟩ := Node.spinOnce_queues hout
  refine (hrecorded x).moves hactive hnodes hlater (hnode.symm ▸ Node.spinOnce_performs hout)
    hledger fun k message hmem => ?_
  have hmem' := hqueues k message true hmem
  cases hreceipt with
  | nothing =>
    rw [hprocesses.eq_nil_of_wouldBlock] at hmem'
    cases hmem'
  | @datagram d _ hwaiting =>
    have hsound := hwired.down x d (by rw [hwaiting]; exact List.mem_cons_self)
    exact hsound.received hchronicle hsmall hphase hprocesses hmem'

theorem queuedAt_of_wouldBlock {n : Node} {text : JsonText} {env : SpinEnvironment}
    {out : Node.SpinOutcome} (hout : n.spinOnce text .wouldBlock env = .ok out) (k : ℕ) :
    queuedAt k out.events = 0 := by
  obtain ⟨n', events, hprocesses, hqueues⟩ := Node.spinOnce_queues hout
  apply queuedAt_eq_zero
  intro message hmem
  have hmem' := hqueues k message true hmem
  rw [hprocesses.eq_nil_of_wouldBlock] at hmem'
  cases hmem'

/-- A call of `spin_once` takes in at most the oldest datagram. -/
theorem spin_passes {x : ι} {reception : Reception} {origin : Option (MessageId ι)}
    {rest : List (Datagram ι)} {env : SpinEnvironment} {out : Node.SpinOutcome}
    (hnodes : ∀ i, Node.Created (nodes i)) (hchronicle : Chronicle net nodes s r)
    (hsmall : r.tables.Small) (hwired : Wired s) (hrecorded : ∀ j, Recorded s j)
    (hphase : s.phase x = .connected) (hreceipt : Receipt (s.down x) reception origin rest)
    (hout : (s.node x).spinOnce net.text reception env = .ok out) (hlater : Later s s')
    (hs' : s' = { s with
      down := Function.update s.down x rest
      node := Function.update s.node x out.node
      up := Function.update s.up x (s.up x ++ dispatched x (s.ledger x).trace out.events)
      ledger := Function.update s.ledger x ((s.ledger x).recordAll origin out.events) }) :
    (∀ j, Recorded s' j) ∧ ∀ i l j k, Passes i l s s' j k := by
  have hnode : s'.node x = out.node := by
    rw [hs']
    exact Function.update_self ..
  have hledger : s'.ledger x = (s.ledger x).recordAll origin out.events := by
    rw [hs']
    exact Function.update_self ..
  have hother : ∀ j, j ≠ x → s'.node j = s.node j ∧ s'.ledger j = s.ledger j ∧
      s'.down j = s.down j ∧ s'.up j = s.up j := by
    intro j hjx
    subst hs'
    simp [hjx]
  obtain ⟨hown, horigins⟩ := spin_records hnodes hchronicle hsmall hwired hrecorded hphase hreceipt
    hout hlater hnode hledger
  refine ⟨fun j => ?_, fun i l j k => ?_⟩
  · by_cases hjx : j = x
    · exact hjx ▸ hown
    · obtain ⟨hsame, hledgers, _, _⟩ := hother j hjx
      exact (hrecorded j).kept hlater (by rw [hledgers]) (by rw [hledgers]) (by rw [hledgers])
        (.inr hsame)
  · have harrives : Relayed
        (numbers i l ((s.ledger j).origins k) ++ numbers i l ((s.down j).map Datagram.origin))
        (numbers i l ((s'.ledger j).origins k) ++
          numbers i l ((s'.down j).map Datagram.origin)) := by
      by_cases hjx : j = x
      · subst hjx
        have hdown : s'.down j = rest := by
          rw [hs']
          exact Function.update_self ..
        rw [horigins, hdown, numbers_append, List.append_assoc]
        refine (Relayed.refl _).append ?_
        cases hreceipt with
        | nothing =>
          rw [queuedAt_of_wouldBlock hout]
          exact .refl _
        | @datagram d _ hwaiting =>
          rw [hwaiting, List.map_cons, numbers_cons]
          exact (relayed_numbers i l d.origin _).append (.refl _)
      · obtain ⟨_, hledgers, hdowns, _⟩ := hother j hjx
        rw [hledgers, hdowns]
        exact .refl _
    by_cases hix : i = x
    · subst hix
      refine .moves (transmitted out.events l) harrives ?_ ?_
      · rw [hs']
        simp only [Function.update_self, List.map_append, numbers_append, numbers_dispatched]
      · rw [hledger, Ledger.recordAll_trace, transmitted_append]
    · obtain ⟨_, hledgers, _, hups⟩ := hother i hix
      refine .moves 0 harrives ?_ ?_
      · rw [hups]
        exact (List.append_nil _).symm
      · rw [hledgers]
        rfl

end System
end Crps
