import Crps.Node.Registration
import Crps.Node.Rpc
import Crps.Node.View
import Crps.System.State

/-!
# The steps of the system

What each action does, guards included, and what it leaves alone. Everything
that is shown of whole runs later goes by these cases.
-/

namespace Crps
namespace System

variable {ι : Type} [DecidableEq ι] {net : Deployment ι} {s s' : System ι} {i : ι}

/-! ## One step -/

theorem step_connect (h : s.step net (.connect i) = some s') :
    s.phase i = .created ∧
      s' = s.continueConnect net i (s.node i) (Node.connect (s.node i)) := by
  simp only [step] at h
  split at h
  · rename_i hphase
    injection h with h
    exact ⟨hphase, h.symm⟩
  · cases h

theorem step_rpcReturn (h : s.step net (.rpcReturn i) = some s') :
    ∃ resume d rest, s.phase i = .waiting resume ∧ s.down i = d :: rest ∧
      ((∃ fault, (s.node i).rpcResponse net.text (.datagram d.bytes) = .error fault ∧
          s' = { s with
            down := Function.update s.down i rest
            phase := Function.update s.phase i .failed }) ∨
        ∃ n response, (s.node i).rpcResponse net.text (.datagram d.bytes) = .ok (n, response) ∧
          s' = ({ s with down := Function.update s.down i rest } : System ι).continueConnect net i
            n (resume n response)) := by
  simp only [step] at h
  split at h
  · rename_i resume d rest hphase hdown
    refine ⟨resume, d, rest, hphase, hdown, ?_⟩
    split at h
    · rename_i fault hresponse
      injection h with h
      exact .inl ⟨fault, hresponse, h.symm⟩
    · rename_i n response hresponse
      injection h with h
      exact .inr ⟨n, response, hresponse, h.symm⟩
  · cases h

theorem step_broker (h : s.step net (.broker i) = some s') :
    s.brokerRunning = true ∧ ∃ d rest, s.up i = d :: rest ∧
      ((∃ fault, s.broker.spinIteration net.text brokerSendto (net.address i) d.bytes =
            .error fault ∧
          s' = { s with up := Function.update s.up i rest, brokerRunning := false }) ∨
        ∃ it, s.broker.spinIteration net.text brokerSendto (net.address i) d.bytes = .ok it ∧
          s' = { s with
            up := Function.update s.up i rest
            broker := it.broker
            brokerRunning := !it.stopped
            down := fun j => s.down j ++ arrivals net it d.origin j
            ledger := Function.update s.ledger i
              ((s.ledger i).judge d.bytes it.disposal.passedCounter) }) := by
  simp only [step, brokerStep] at h
  split at h
  · rename_i d rest hrunning hup
    refine ⟨hrunning, d, rest, hup, ?_⟩
    split at h
    · rename_i fault hit
      injection h with h
      exact .inl ⟨fault, hit, h.symm⟩
    · rename_i it hit
      injection h with h
      exact .inr ⟨it, hit, h.symm⟩
  · cases h

theorem step_publish {k : ℕ} {data : Memory} (h : s.step net (.publish i k data) = some s') :
    s.phase i = .connected ∧
      s' = { s with
        node := Function.update s.node i ((s.node i).publish k data).1
        ledger := Function.update s.ledger i
          ((s.ledger i).record none ((s.node i).publish k data).2) } := by
  simp only [step, publishStep] at h
  split at h
  · rename_i hphase
    injection h with h
    exact ⟨hphase, h.symm⟩
  · cases h

/-- What a `spin_once` finds at the node's socket, and what stays there. -/
inductive Receipt (waiting : List (Datagram ι)) :
    Reception → Option (MessageId ι) → List (Datagram ι) → Prop
  | nothing : Receipt waiting .wouldBlock none waiting
  | datagram {d : Datagram ι} {rest : List (Datagram ι)} :
      waiting = d :: rest → Receipt waiting (.datagram d.bytes) d.origin rest

theorem step_spin {receive : Bool} {env : SpinEnvironment}
    (h : s.step net (.spin i receive env) = some s') :
    s.phase i = .connected ∧ ∃ reception origin rest,
      Receipt (s.down i) reception origin rest ∧
        ((∃ fault, (s.node i).spinOnce net.text reception env = .error fault ∧
            s' = { s with
              down := Function.update s.down i rest
              phase := Function.update s.phase i .failed }) ∨
          ∃ out, (s.node i).spinOnce net.text reception env = .ok out ∧
            s' = { s with
              down := Function.update s.down i rest
              node := Function.update s.node i out.node
              up := Function.update s.up i
                (s.up i ++ dispatched i (s.ledger i).trace out.events)
              ledger := Function.update s.ledger i
                ((s.ledger i).recordAll origin out.events) }) := by
  simp only [step, spinStep] at h
  split at h
  · rename_i hphase
    refine ⟨hphase, ?_⟩
    have hspin : ∃ reception origin rest, Receipt (s.down i) reception origin rest ∧
        s' = s.spinWith net i reception origin rest env := by
      split at h
      · rename_i d rest hdown
        injection h with h
        exact ⟨_, _, _, .datagram hdown, h.symm⟩
      · injection h with h
        exact ⟨_, _, _, .nothing, h.symm⟩
    obtain ⟨reception, origin, rest, hreceipt, rfl⟩ := hspin
    refine ⟨reception, origin, rest, hreceipt, ?_⟩
    unfold spinWith
    cases hout : (s.node i).spinOnce net.text reception env with
    | error fault => exact .inl ⟨fault, rfl, rfl⟩
    | ok out => exact .inr ⟨out, rfl, rfl⟩
  · cases h

omit [DecidableEq ι] in
theorem Receipt.subset {waiting rest : List (Datagram ι)} {reception : Reception}
    {origin : Option (MessageId ι)} (h : Receipt waiting reception origin rest) :
    rest ⊆ waiting := by
  cases h with
  | nothing => exact List.Subset.refl _
  | datagram hwaiting =>
    rw [hwaiting]
    exact List.subset_cons_self _ _

/-! ## Runs -/

theorem run_append (as bs : List (Action ι)) :
    s.run net (as ++ bs) = (s.run net as).bind fun s' => s'.run net bs := by
  induction as generalizing s with
  | nil => rfl
  | cons a as ih =>
    simp only [List.cons_append, run]
    cases s.step net a with
    | none => rfl
    | some s₁ => exact ih

theorem run_trans {s'' : System ι} {as bs : List (Action ι)} (h : s.run net as = some s')
    (h' : s'.run net bs = some s'') : s.run net (as ++ bs) = some s'' := by
  rw [run_append, h, Option.bind_some, h']

/-- What every step of a schedule preserves holds after it. -/
theorem run_invariant {P : System ι → Prop} {as : List (Action ι)}
    (hstep : ∀ a ∈ as, ∀ s s', P s → s.step net a = some s' → P s') (hs : P s)
    (h : s.run net as = some s') : P s' := by
  induction as generalizing s with
  | nil =>
    injection h with h
    exact h ▸ hs
  | cons a as ih =>
    simp only [run] at h
    cases hfirst : s.step net a with
    | none =>
      rw [hfirst] at h
      cases h
    | some s₁ =>
      rw [hfirst] at h
      exact ih (fun b hb => hstep b (List.mem_cons_of_mem a hb))
        (hstep a List.mem_cons_self s s₁ hs hfirst) h

end System
end Crps
