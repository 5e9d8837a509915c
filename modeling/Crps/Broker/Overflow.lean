import Crps.Broker.Atomicity

/-!
# More names than identifiers

A broker can be brought to hold any number of nodes. The one behind the last
identifier is answered with the identifier of the first.
-/

namespace Crps

namespace Node

theorem shortName_text {k : ℕ} (hk : k < 10 ^ 10) : ShortName (Decimal.text k) := by
  have hlength := CompactJson.length_dumpString_ofList_le (Decimal.digits k)
  have hdigits := Decimal.length_print_le hk (by omega)
  rw [Decimal.digits, List.length_map] at hlength
  unfold ShortName Decimal.text Decimal.digits
  omega

end Node

namespace Tables

/-- Registrations of `n` nodes, each named by its number. -/
def numberedRequests (n : ℕ) : List ControlRequest :=
  (List.range n).map fun k => .registerNode (Decimal.text k)

/-- The nodes these registrations leave. -/
def numberedNodes (client : String) (n : ℕ) : List NodeInfo :=
  (List.range n).map fun k => ⟨Decimal.text k, client⟩

theorem findNamed_numberedNodes (client : String) (n : ℕ) :
    findNamed NodeInfo.name (Decimal.text n) (numberedNodes client n) = none := by
  apply findNamed_none.mpr
  intro info hinfo
  obtain ⟨k, hk, rfl⟩ := List.mem_map.mp hinfo
  exact fun h => (List.mem_range.mp hk).ne (Decimal.text_injective h)

theorem handle_numberedNodes (client : String) (n : ℕ) :
    ((Tables.mk (numberedNodes client n) [] []).handle client
        (.registerNode (Decimal.text n))).tables = ⟨numberedNodes client (n + 1), [], []⟩ ∧
      ((Tables.mk (numberedNodes client n) [] []).handle client
        (.registerNode (Decimal.text n))).result = some (.node (UInt32.ofNat n)) := by
  have hnext : numberedNodes client (n + 1) =
      numberedNodes client n ++ [⟨Decimal.text n, client⟩] := by
    simp only [numberedNodes, List.range_succ, List.map_append, List.map_singleton]
  have hlength : (numberedNodes client n).length = n := by simp [numberedNodes]
  simp only [handle, registerNode, findNamed_numberedNodes, Reply.map, hnext, List.length_append,
    List.length_singleton, hlength, Nat.add_sub_cancel]
  exact ⟨trivial, rfl⟩

theorem serve_append (client : String) (t : Tables) (cs : List ControlRequest)
    (c : ControlRequest) :
    t.serve client (cs ++ [c]) = ((t.serve client cs).handle client c).tables := by
  induction cs generalizing t with
  | nil => rfl
  | cons c' cs ih => exact ih _

theorem serve_numberedRequests (client : String) (n : ℕ) :
    Tables.serve client {} (numberedRequests n) = ⟨numberedNodes client n, [], []⟩ := by
  induction n with
  | zero => rfl
  | succ n ih =>
    have hnext : numberedRequests (n + 1) =
        numberedRequests n ++ [.registerNode (Decimal.text n)] := by
      simp only [numberedRequests, List.range_succ, List.map_append, List.map_singleton]
    rw [hnext, serve_append, ih]
    exact (handle_numberedNodes client n).1

end Tables

namespace Broker

/-- A run of the broker, on packets a network can carry, that registers node number `n` when
there are `n` nodes. -/
theorem exists_registration {n : ℕ} (hn : n < 10 ^ 10) (client : String) :
    ∃ as, (∀ a ∈ as, a.datagram.length ≤ maxDatagramSize) ∧
      ∃ r ∈ started.spin compactJson as, ∃ rpcId : UInt32,
        r.before.tables = ⟨Tables.numberedNodes client n, [], []⟩ ∧
        r.iteration.disposal = .control (Node.requestJson rpcId (.registerNode (Decimal.text n)))
          (ControlAnswer.response (.node (UInt32.ofNat n)) (.ofUInt32 rpcId)) ∧
        r.iteration.broker.tables = ⟨Tables.numberedNodes client (n + 1), [], []⟩ := by
  have hshort : ∀ c ∈ Tables.numberedRequests n ++ [.registerNode (Decimal.text n)],
      Node.ShortName (Node.requestName c) := by
    intro c hc
    rcases List.mem_append.mp hc with hc | hc
    · obtain ⟨k, hk, rfl⟩ := List.mem_map.mp hc
      exact Node.shortName_text ((List.mem_range.mp hk).trans hn)
    · rw [List.mem_singleton.mp hc]
      exact Node.shortName_text hn
  have hfits := @length_requestArrivals client 1 _ hshort
  have hserved := Tables.serve_numberedRequests client n
  obtain ⟨htables, hresult⟩ := Tables.handle_numberedNodes client n
  rw [← hserved] at htables hresult ⊢
  obtain ⟨r, hr, rpcId, hbefore, hdisposal, hafter⟩ := spin_lastRequest
    (Tables.numberedRequests n) (show started.Expects client 1 from .inl rfl)
    (fun a ha => (hfits a ha).trans_lt (by decide)) hresult
  exact ⟨_, hfits, r, hr, rpcId, hbefore, hdisposal, hafter.trans htables⟩

/-- In the state with `2 ^ 32` nodes, registering one more is answered with the identifier 0,
which denotes the first node. -/
theorem spin_denotes_fails :
    ¬ ∀ (as : List Arrival) (r : Record), r ∈ started.spin compactJson as →
      (∀ a ∈ as, a.datagram.length ≤ maxDatagramSize) →
      ∀ (request : Json) (c : ControlRequest) (a : ControlAnswer) (rpcId : Json),
        r.iteration.disposal = .control request (a.response rpcId) →
        ControlRequest.ofJson request = .ok (some c) → r.iteration.broker.tables.Records c a := by
  intro hall
  obtain ⟨n, hn⟩ : ∃ n : ℕ, n = 2 ^ 32 := ⟨_, rfl⟩
  have hzero : (UInt32.ofNat n).toNat = 0 := by rw [UInt32.toNat_ofNat', hn, Nat.mod_self]
  obtain ⟨as, hfits, r, hr, rpcId, _, hdisposal, htables⟩ :=
    exists_registration (show n < 10 ^ 10 by omega) "10.0.0.2:40001"
  have hrecords := hall as r hr hfits _ _ _ _ hdisposal (Node.ofJson_requestJson rpcId _)
  rw [htables] at hrecords
  obtain ⟨info, hinfo, hname⟩ := hrecords
  rw [hzero, Tables.numberedNodes, List.getElem?_map, List.getElem?_range (Nat.succ_pos n)]
    at hinfo
  injection hinfo with hinfo
  rw [← hinfo] at hname
  have hnumber : 0 = n := Decimal.text_injective hname
  omega

end Broker

end Crps
