import Crps.Node.Pointers
import Crps.System.History

/-!
# Systems of nodes on their storage

A run of the system keeps each node with its lists. The application of a node
has set it up call by call, though, and its storage comes through what the node
does once it is connected only if no endpoint has moved. So a result about the
nodes of a run is one about the program where their storage backs them.
-/

namespace Crps
namespace System

variable {ι : Type} {net : Deployment ι} {setups : ι → NodeSetup} {g : Growth} {s : System ι}
  {i : ι}

/-- Of every connected node, the storage has come through what the node has done. -/
def Backed (setups : ι → NodeSetup) (s : System ι) : Prop :=
  ∀ i, s.phase i = .connected → (setups i).Backs (s.ledger i).trace (s.node i)

theorem Active.joined {nodes : ι → Node} {r : Registry} {n₀ : Node} {requests : List Bytes}
    (h : Active net nodes s r i n₀ requests) (hnodes : ∀ i, Node.Created (nodes i)) :
    NodeSetup.Joined (nodes i) n₀ :=
  ⟨hnodes i, h.registered.blueprint, h.registered.indexed⟩

variable [DecidableEq ι]

/-- In every run the storage of a connected node backs it exactly if no vector has outgrown its
first block. -/
theorem run_backs_iff (hbuilt : ∀ i, (setups i).Built g) {as : List (Action ι)}
    (hrun : (initial fun i => (setups i).node).run net as = some s)
    (hphase : s.phase i = .connected) :
    (setups i).Backs (s.ledger i).trace (s.node i) ↔ (setups i).Roomy g := by
  have hnodes : ∀ i, Node.Created (setups i).node := fun i => (hbuilt i).created
  obtain ⟨r, _, _, hhistory⟩ := run_history hnodes (orderly_initial net _) (history_initial net _)
    hrun
  obtain ⟨n₀, requests, hactive⟩ := (hhistory i).active hphase
  exact NodeSetup.backs_iff (hbuilt i) (hactive.joined hnodes) hactive.performs

theorem run_backed_iff (hbuilt : ∀ i, (setups i).Built g) {as : List (Action ι)}
    (hrun : (initial fun i => (setups i).node).run net as = some s) :
    s.Backed setups ↔ ∀ i, s.phase i = .connected → (setups i).Roomy g :=
  forall_congr' fun _ => forall_congr' fun hphase => run_backs_iff hbuilt hrun hphase

end System
end Crps
