import Mathlib.Tactic
import Mathlib.Data.List.Basic

/-!
# Bounded FIFO queues

A bounded queue of arbitrary items as a labelled transition system. Its labels
are what a caller sees; the label of a push carries the item that was appended,
so an implementation may leave part of an item unspecified. The simulation rule
turns a fact about one operation into a fact about every sequence of them.
-/

namespace Crps

variable {α : Type*}

inductive FifoAction (α : Type*) where
  | push (appended : Option α)
  | pop (removed : Option α)
  | get (front : Option α)
  | size (items : ℕ)
  | empty (answer : Bool)
  | full (answer : Bool)
  | change (f : α → α)

/-- One operation on a queue of `capacity` places, oldest item first. -/
inductive FifoStep (capacity : ℕ) : List α → FifoAction α → List α → Prop
  | pushed {items : List α} (a : α) :
      items.length < capacity → FifoStep capacity items (.push (some a)) (items ++ [a])
  | refused {items : List α} :
      capacity ≤ items.length → FifoStep capacity items (.push none) items
  | pop (items : List α) : FifoStep capacity items (.pop items.head?) items.tail
  | get (items : List α) : FifoStep capacity items (.get items.head?) items
  | size (items : List α) : FifoStep capacity items (.size items.length) items
  | empty (items : List α) : FifoStep capacity items (.empty items.isEmpty) items
  | full (items : List α) :
      FifoStep capacity items (.full (decide (capacity ≤ items.length))) items
  | change (items : List α) (f : α → α) :
      FifoStep capacity items (.change f) (items.modifyHead f)

inductive FifoRun (capacity : ℕ) : List α → List (FifoAction α) → List α → Prop
  | nil (items : List α) : FifoRun capacity items [] items
  | cons {items next final : List α} {action : FifoAction α} {actions : List (FifoAction α)} :
      FifoStep capacity items action next → FifoRun capacity next actions final →
        FifoRun capacity items (action :: actions) final

/-- The items a list of actions put in, and those it took out. -/
def appendedBy : List (FifoAction α) → List α
  | [] => []
  | .push a :: actions => a.toList ++ appendedBy actions
  | _ :: actions => appendedBy actions

def removedBy : List (FifoAction α) → List α
  | [] => []
  | .pop a :: actions => a.toList ++ removedBy actions
  | _ :: actions => removedBy actions

/-- First in, first out: unless the front is changed in place, the items come out in the order
they went in, and what has not come out is still there. -/
theorem FifoRun.conserves {capacity : ℕ} {items final : List α} {actions : List (FifoAction α)}
    (h : FifoRun capacity items actions final) (hkept : ∀ f, .change f ∉ actions) :
    items ++ appendedBy actions = removedBy actions ++ final := by
  induction h with
  | nil items => simp [appendedBy, removedBy]
  | @cons items next final action actions hstep _ ih =>
    have ih := ih fun f hf => hkept f (List.mem_cons_of_mem _ hf)
    cases hstep with
    | pushed a _ => simpa [appendedBy, removedBy] using ih
    | pop => cases items <;> simpa [appendedBy, removedBy] using ih
    | change f => exact absurd List.mem_cons_self (hkept f)
    | refused | get | size | empty | full => simpa [appendedBy, removedBy] using ih

section Simulation

variable {σ ι ω : Type*} (perform : σ → ι → ω × σ)

/-- The operations of a run, each with its answer, and the state they lead to. -/
def performAll (s : σ) : List ι → List (ι × ω) × σ
  | [] => ([], s)
  | op :: ops =>
    let done := perform s op
    let others := performAll done.2 ops
    ((op, done.1) :: others.1, others.2)

theorem performAll_operations (s : σ) (ops : List ι) :
    (performAll perform s ops).1.map Prod.fst = ops := by
  induction ops generalizing s with
  | nil => rfl
  | cons op ops ih => exact congrArg (op :: ·) (ih (perform s op).2)

theorem exists_performed {answers : ι × ω → FifoAction α → Prop} {performed : List (ι × ω)}
    {actions : List (FifoAction α)} (h : List.Forall₂ answers performed actions)
    {action : FifoAction α} (haction : action ∈ actions) :
    ∃ p ∈ performed, answers p action := by
  induction h with
  | nil => exact absurd haction List.not_mem_nil
  | @cons p other _ _ hp _ ih =>
    rcases List.mem_cons.mp haction with rfl | hmem
    · exact ⟨p, List.mem_cons_self, hp⟩
    · obtain ⟨p', hmem', hp'⟩ := ih hmem
      exact ⟨p', List.mem_cons_of_mem _ hmem', hp'⟩

/-- If every allowed operation answers as some step of the queue, every run does. -/
theorem fifoRun_of_perform {capacity : ℕ} {view : σ → List α} {invariant : σ → Prop}
    {allowed : ι → Prop} {answers : ι × ω → FifoAction α → Prop}
    (hstep : ∀ s op, invariant s → allowed op →
      invariant (perform s op).2 ∧ ∃ action, answers (op, (perform s op).1) action ∧
        FifoStep capacity (view s) action (view (perform s op).2))
    {s : σ} {ops : List ι} (hs : invariant s) (hops : ∀ op ∈ ops, allowed op) :
    invariant (performAll perform s ops).2 ∧
      ∃ actions, List.Forall₂ answers (performAll perform s ops).1 actions ∧
        FifoRun capacity (view s) actions (view (performAll perform s ops).2) := by
  induction ops generalizing s with
  | nil => exact ⟨hs, [], .nil, .nil _⟩
  | cons op ops ih =>
    obtain ⟨hnext, action, hanswer, haction⟩ := hstep s op hs (hops op List.mem_cons_self)
    obtain ⟨hfinal, actions, hanswers, hactions⟩ :=
      ih hnext fun other hother => hops other (List.mem_cons_of_mem _ hother)
    exact ⟨hfinal, action :: actions, .cons hanswer hanswers, .cons haction hactions⟩

end Simulation

end Crps
