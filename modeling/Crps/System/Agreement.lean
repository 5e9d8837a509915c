import Crps.System.Handshake

/-!
# Agreement between connected nodes and the broker

The situations of all clients are kept by every step of the system, so the
registration of a node that has connected is never taken back: whatever happens
later, the broker's tables say about it what the node believes.
-/

namespace Crps
namespace System

variable {ι : Type} {net : Deployment ι} {nodes : ι → Node} {s s' : System ι}
variable {i : ι} {r : Registry}

/-- All clients' situations against one set of tables. -/
structure Orderly (net : Deployment ι) (nodes : ι → Node) (s : System ι) (r : Registry) : Prop where
  tables : r.tables = s.broker.tables
  dealings : ∀ i, Dealings net.text (net.address i) (nodes i) r (s.phase i) (s.node i)
    ((s.up i).map Datagram.bytes) ((s.down i).map Datagram.bytes)

/-- The node is through with `connect`, and with its requests. -/
def Settled (s : System ι) (i : ι) : Prop :=
  (s.phase i = .connected ∨ s.phase i = .failed) ∧ controls ((s.up i).map Datagram.bytes) = []

/-- From one state to a later one the tables have done to settled nodes only
what others may do. -/
structure Keeps (net : Deployment ι) (s s' : System ι) (r r' : Registry) : Prop where
  grows : r.tables.Grows r'.tables
  settled : ∀ i, s.Settled i → r.Relies (net.address i) r' ∧ s'.Settled i

theorem Keeps.refl (s : System ι) (r : Registry) : Keeps net s s r r :=
  ⟨Tables.Grows.refl _, fun _ h => ⟨.refl _ r, h⟩⟩

theorem Keeps.trans {s'' : System ι} {r' r'' : Registry} (h : Keeps net s s' r r')
    (h' : Keeps net s' s'' r' r'') : Keeps net s s'' r r'' where
  grows := h.grows.trans h'.grows
  settled i hi := by
    obtain ⟨hr, hi'⟩ := h.settled i hi
    obtain ⟨hr', hi''⟩ := h'.settled i hi'
    exact ⟨hr.trans hr', hi''⟩

theorem mem_dispatched {past events : List SpinEvent} {d : Datagram ι}
    (h : d ∈ dispatched i past events) : ∃ k, .sendto k d.bytes true ∈ events := by
  induction events generalizing past with
  | nil => cases h
  | cons e es ih =>
    unfold dispatched at h
    split at h
    · rcases List.mem_cons.mp h with rfl | h
      · exact ⟨_, List.mem_cons_self⟩
      · obtain ⟨k, hk⟩ := ih h
        exact ⟨k, List.mem_cons_of_mem _ hk⟩
    · obtain ⟨k, hk⟩ := ih h
      exact ⟨k, List.mem_cons_of_mem _ hk⟩

theorem controls_dispatched {n n' : Node} {past events : List SpinEvent}
    (h : n.Performs events n') : controls ((dispatched i past events).map Datagram.bytes) = [] := by
  rw [controls_eq_nil]
  intro packet hpacket
  obtain ⟨d, hd, rfl⟩ := List.mem_map.mp hpacket
  obtain ⟨k, hk⟩ := mem_dispatched hd
  exact h.head?_ne hk

theorem map_arrivals (it : Iteration) (origin : Option (MessageId ι)) (j : ι) :
    (arrivals net it origin j).map Datagram.bytes =
      (it.attempts.filter fun a => a.sent && a.address == net.address j).map
        SendAttempt.packet := by
  simp [arrivals, Function.comp_def]

/-! ## Every step keeps order -/

variable [DecidableEq ι]

theorem orderly_connect (hnodes : ∀ i, Node.Created (nodes i)) (h : Orderly net nodes s r)
    (hstep : s.step net (.connect i) = some s') :
    Orderly net nodes s' r ∧ Keeps net s s' r r := by
  obtain ⟨hphase, rfl⟩ := step_connect hstep
  have hi := h.dealings i
  rw [hphase] at hi
  refine ⟨⟨h.tables, fun j => ?_⟩, ⟨Tables.Grows.refl _, fun j hj => ⟨.refl _ r, ?_⟩⟩⟩
  · by_cases hji : j = i
    · subst hji
      generalize s.node j = n at hi
      cases hi with
      | created hup hdown hfresh =>
        have hadvance := advance_live net.text (safeConnect_start (hnodes j) hfresh)
          (nodes j) hup hdown
        simpa [continueConnect, Function.comp_def] using hadvance
    · simpa [continueConnect, hji] using h.dealings j
  · have hji : j ≠ i := by
      rintro rfl
      rcases hj.1 with hj | hj <;> simp [hphase] at hj
    simpa [Settled, continueConnect, hji] using hj

theorem orderly_rpcReturn (h : Orderly net nodes s r)
    (hstep : s.step net (.rpcReturn i) = some s') :
    Orderly net nodes s' r ∧ Keeps net s s' r r := by
  obtain ⟨resume, d, rest, hphase, hdown, hcases⟩ := step_rpcReturn hstep
  have hi := h.dealings i
  rw [hphase, hdown, List.map_cons] at hi
  have hne : ∀ j, s.Settled j → j ≠ i := by
    rintro j hj rfl
    rcases hj.1 with hj | hj <;> simp [hphase] at hj
  rcases hcases with ⟨fault, _, rfl⟩ | ⟨n, response, hresponse, rfl⟩
  · refine ⟨⟨h.tables, fun j => ?_⟩, ⟨Tables.Grows.refl _, fun j hj => ⟨.refl _ r, ?_⟩⟩⟩
    · by_cases hji : j = i
      · subst hji
        simpa using Dealings.failed fun packet hpacket => hi.request hpacket
      · simpa [hji] using h.dealings j
    · simpa [Settled, hne j hj] using hj
  · refine ⟨⟨h.tables, fun j => ?_⟩, ⟨Tables.Grows.refl _, fun j hj => ⟨.refl _ r, ?_⟩⟩⟩
    · by_cases hji : j = i
      · subst hji
        simpa [continueConnect, Function.comp_def] using hi.returned rfl hresponse
      · simpa [continueConnect, hji] using h.dealings j
    · simpa [Settled, continueConnect, hne j hj] using hj

/-- A datagram that is no control packet passes through the broker. -/
theorem orderly_broker_notControl {d : Datagram ι} {rest : List (Datagram ι)} {it : Iteration}
    (h : Orderly net nodes s r) (hup : s.up i = d :: rest) (hd : d.bytes.head? ≠ some 1)
    (hit : s.broker.spinIteration net.text brokerSendto (net.address i) d.bytes = .ok it)
    (hs' : s' = { s with
      up := Function.update s.up i rest
      broker := it.broker
      brokerRunning := !it.stopped
      down := fun j => s.down j ++ arrivals net it d.origin j
      ledger := Function.update s.ledger i
        ((s.ledger i).judge d.bytes it.disposal.passedCounter) }) :
    ∃ r', Orderly net nodes s' r' ∧ Keeps net s s' r r' := by
  subst hs'
  obtain ⟨htables, _, hattempts⟩ := Broker.spinIteration_notControl hd hit
  have harrivals : ∀ j, controls ((arrivals net it d.origin j).map Datagram.bytes) = [] := by
    intro j
    rw [controls_eq_nil, map_arrivals]
    intro packet hpacket
    obtain ⟨a, ha, rfl⟩ := List.mem_map.mp hpacket
    rw [hattempts a (List.mem_of_mem_filter ha)]
    exact hd
  have hrest : controls ((s.up i).map Datagram.bytes) = controls (rest.map Datagram.bytes) := by
    rw [hup, List.map_cons, controls_cons_of_ne hd]
  have hlink : ∀ j, controls ((Function.update s.up i rest j).map Datagram.bytes) =
      controls ((s.up j).map Datagram.bytes) := by
    intro j
    by_cases hji : j = i
    · subst hji
      rw [Function.update_self, hrest]
    · rw [Function.update_of_ne hji]
  refine ⟨r, ⟨h.tables.trans htables.symm, fun j => ?_⟩,
    ⟨Tables.Grows.refl _, fun j hj => ⟨.refl _ r, ?_⟩⟩⟩
  · refine (h.dealings j).others (.refl _ r) ?_ ?_
    · rw [hlink]
    · rw [List.map_append, controls_append, harrivals, List.append_nil]
  · exact ⟨hj.1, (hlink j).trans hj.2⟩

theorem orderly_broker (h : Orderly net nodes s r) (hstep : s.step net (.broker i) = some s') :
    ∃ r', Orderly net nodes s' r' ∧ Keeps net s s' r r' := by
  obtain ⟨_, d, rest, hup, hcases⟩ := step_broker hstep
  have hsub : (controls (rest.map Datagram.bytes)).Sublist
      (controls ((s.up i).map Datagram.bytes)) := by
    rw [hup, List.map_cons]
    exact (List.sublist_cons_self _ _).filter _
  rcases hcases with ⟨fault, _, rfl⟩ | ⟨it, hit, hs'⟩
  · refine ⟨r, ⟨h.tables, fun j => ?_⟩, ⟨Tables.Grows.refl _, fun j hj => ⟨.refl _ r, hj.1, ?_⟩⟩⟩
    · by_cases hji : j = i
      · subst hji
        refine (h.dealings j).others (.refl _ r) ?_ (List.Sublist.refl _)
        simpa using hsub
      · simpa [hji] using h.dealings j
    · by_cases hji : j = i
      · subst hji
        rw [hj.2, List.sublist_nil] at hsub
        simpa using hsub
      · simpa [hji] using hj.2
  · by_cases hd : d.bytes.head? = some 1
    · have hi := h.dealings i
      have hbytes : (s.up i).map Datagram.bytes = d.bytes :: rest.map Datagram.bytes := by
        rw [hup, List.map_cons]
      obtain ⟨r', htables, hothers, haddress, hserved⟩ := hi.served hbytes hd h.tables.symm hit
      have hne : ∀ j, s.Settled j → j ≠ i := by
        rintro j ⟨_, hj⟩ rfl
        rw [hbytes, controls_cons_of_eq hd] at hj
        cases hj
      have hforeign : ∀ j, j ≠ i → net.address j ≠ net.address i :=
        fun j hji he => hji (net.address_injective he)
      have harrivals : ∀ j, j ≠ i → arrivals net it d.origin j = [] := by
        intro j hji
        simp only [arrivals, List.map_eq_nil_iff, List.filter_eq_nil_iff]
        intro a ha
        simp [haddress a ha, Ne.symm (hforeign j hji)]
      have hgrows : r.tables.Grows r'.tables := by
        rw [h.tables, htables]
        exact Broker.spinIteration_grows hit
      subst hs'
      refine ⟨r', ⟨htables, fun j => ?_⟩, ⟨hgrows, fun j hj => ⟨?_, hj.1, ?_⟩⟩⟩
      · by_cases hji : j = i
        · subst hji
          simp only [Function.update_self]
          refine hserved _ ?_
          rw [List.map_append, controls_append, map_arrivals]
          congr 3
          apply List.filter_congr
          intro a ha
          simp [haddress a ha]
        · simp only [Function.update_of_ne hji, harrivals j hji, List.append_nil]
          exact (h.dealings j).others (hothers _ (hforeign j hji)) (List.Sublist.refl _)
            (List.Sublist.refl _)
      · exact hothers _ (hforeign j (hne j hj))
      · simpa [hne j hj] using hj.2
    · exact orderly_broker_notControl h hup hd hit hs'

omit [DecidableEq ι] in
theorem Orderly.connected_moves (h : Orderly net nodes s r) (hphase : s.phase i = .connected)
    {n : Node} {events : List SpinEvent} (hn : (s.node i).Performs events n)
    {up down : List (Datagram ι)} (hup : controls (up.map Datagram.bytes) = [])
    (hdown : down ⊆ s.down i) :
    Dealings net.text (net.address i) (nodes i) r .connected n (up.map Datagram.bytes)
      (down.map Datagram.bytes) := by
  have hi := h.dealings i
  rw [hphase] at hi
  cases hi with
  | connected _ hd hregistered hconfig =>
    refine .connected hup ?_ hregistered (hn.config.trans hconfig)
    rw [controls_eq_nil] at hd ⊢
    exact fun packet hpacket => hd packet (List.map_subset _ hdown hpacket)

omit [DecidableEq ι] in
theorem Orderly.connected_up (h : Orderly net nodes s r) (hphase : s.phase i = .connected) :
    controls ((s.up i).map Datagram.bytes) = [] := by
  have hi := h.dealings i
  rw [hphase] at hi
  cases hi with
  | connected hu => exact hu

theorem orderly_publish {k : ℕ} {data : Memory} (h : Orderly net nodes s r)
    (hstep : s.step net (.publish i k data) = some s') :
    ∃ r', Orderly net nodes s' r' ∧ Keeps net s s' r r' := by
  obtain ⟨hphase, rfl⟩ := step_publish hstep
  refine ⟨r, ⟨h.tables, fun j => ?_⟩, ⟨Tables.Grows.refl _, fun _ hj => ⟨.refl _ r, hj⟩⟩⟩
  by_cases hji : j = i
  · subst hji
    simp only [Function.update_self, hphase]
    exact h.connected_moves hphase (Node.Does.publish k data).performs (h.connected_up hphase)
      (List.Subset.refl _)
  · simpa [hji] using h.dealings j

theorem orderly_spin {receive : Bool} {env : SpinEnvironment} (h : Orderly net nodes s r)
    (hstep : s.step net (.spin i receive env) = some s') :
    ∃ r', Orderly net nodes s' r' ∧ Keeps net s s' r r' := by
  obtain ⟨hphase, reception, origin, rest, hreceipt, hcases⟩ := step_spin hstep
  have hup := h.connected_up hphase
  rcases hcases with ⟨fault, _, rfl⟩ | ⟨out, hout, rfl⟩
  · refine ⟨r, ⟨h.tables, fun j => ?_⟩, ⟨Tables.Grows.refl _, fun j hj => ⟨.refl _ r, ?_, hj.2⟩⟩⟩
    · by_cases hji : j = i
      · subst hji
        simpa using Dealings.failed fun packet hpacket => by simp [hup] at hpacket
      · simpa [hji] using h.dealings j
    · by_cases hji : j = i
      · subst hji
        simp
      · simpa [hji] using hj.1
  · have hperforms := Node.spinOnce_performs hout
    have hsent : controls
        ((s.up i ++ dispatched i (s.ledger i).trace out.events).map Datagram.bytes) = [] := by
      rw [List.map_append, controls_append, hup, controls_dispatched hperforms, List.append_nil]
    refine ⟨r, ⟨h.tables, fun j => ?_⟩, ⟨Tables.Grows.refl _, fun j hj => ⟨.refl _ r, hj.1, ?_⟩⟩⟩
    · by_cases hji : j = i
      · subst hji
        simp only [Function.update_self, hphase]
        exact h.connected_moves hphase hperforms hsent hreceipt.subset
      · simpa [hji] using h.dealings j
    · by_cases hji : j = i
      · subst hji
        simpa using hsent
      · simpa [hji] using hj.2

omit [DecidableEq ι] in
theorem orderly_lose {up down : ι → List (Datagram ι)} (h : Orderly net nodes s r)
    (hup : ∀ j, (up j).Sublist (s.up j)) (hdown : ∀ j, (down j).Sublist (s.down j)) :
    Orderly net nodes { s with up := up, down := down } r ∧
      Keeps net s { s with up := up, down := down } r r := by
  have hsub : ∀ {xs ys : List (Datagram ι)}, xs.Sublist ys →
      (controls (xs.map Datagram.bytes)).Sublist (controls (ys.map Datagram.bytes)) :=
    fun hxy => (hxy.map _).filter _
  refine ⟨⟨h.tables, fun j => ?_⟩, ⟨Tables.Grows.refl _, fun j hj => ⟨.refl _ r, hj.1, ?_⟩⟩⟩
  · exact (h.dealings j).others (.refl _ r) (hsub (hup j)) (hsub (hdown j))
  · have hlost := hsub (hup j)
    rw [hj.2, List.sublist_nil] at hlost
    exact hlost

theorem sublist_eraseIdx_update {links : ι → List (Datagram ι)} (position : ℕ) (j : ι) :
    (Function.update links i ((links i).eraseIdx position) j).Sublist (links j) := by
  by_cases hji : j = i
  · subst hji
    rw [Function.update_self]
    exact List.eraseIdx_sublist _ _
  · rw [Function.update_of_ne hji]

theorem step_orderly (hnodes : ∀ i, Node.Created (nodes i)) (h : Orderly net nodes s r)
    {a : Action ι} (hstep : s.step net a = some s') :
    ∃ r', Orderly net nodes s' r' ∧ Keeps net s s' r r' := by
  cases a with
  | connect i => exact ⟨r, orderly_connect hnodes h hstep⟩
  | rpcReturn i => exact ⟨r, orderly_rpcReturn h hstep⟩
  | broker i => exact orderly_broker h hstep
  | publish i k data => exact orderly_publish h hstep
  | spin i receive env => exact orderly_spin h hstep
  | loseUp i position =>
    injection hstep with hstep
    subst hstep
    exact ⟨r, orderly_lose h (sublist_eraseIdx_update position) fun _ => List.Sublist.refl _⟩
  | loseDown i position =>
    injection hstep with hstep
    subst hstep
    exact ⟨r, orderly_lose h (fun _ => List.Sublist.refl _) (sublist_eraseIdx_update position)⟩

theorem run_orderly (hnodes : ∀ i, Node.Created (nodes i)) (h : Orderly net nodes s r)
    {as : List (Action ι)} (hrun : s.run net as = some s') :
    ∃ r', Orderly net nodes s' r' ∧ Keeps net s s' r r' := by
  refine run_invariant (P := fun s' => ∃ r', Orderly net nodes s' r' ∧ Keeps net s s' r r')
    (fun a _ s₁ s₂ => ?_) ⟨r, h, .refl s r⟩ hrun
  rintro ⟨r₁, h₁, hkeeps⟩ hstep
  obtain ⟨r₂, h₂, hkeeps'⟩ := step_orderly hnodes h₁ hstep
  exact ⟨r₂, h₂, hkeeps.trans hkeeps'⟩

/-- The tables of a broker that has just been started. -/
def emptyRegistry : Registry :=
  ⟨{}, Tables.namesDistinct_empty, Tables.known_empty, Tables.explicit_empty⟩

omit [DecidableEq ι] in
theorem orderly_initial (net : Deployment ι) (nodes : ι → Node) :
    Orderly net nodes (initial nodes) emptyRegistry := by
  refine ⟨rfl, fun i => .created rfl rfl fun _ id hid => ?_⟩
  obtain ⟨info, hget, _⟩ := hid
  simp [emptyRegistry] at hget

end System
end Crps
