import Mathlib.Data.List.Basic
import Mathlib.Data.List.Infix
import Mathlib.Logic.Function.Basic

/-!
# A message bus

What publishers and subscribers may rely on, whatever carries the messages. A
publisher takes messages while it holds back fewer than it has room for, and
lets go of them in order. A subscriber is handed messages that a publisher it
listens to has let go of: perhaps not all of them, perhaps one several times,
but never an older one of the same publisher after a younger one.
-/

namespace Crps

/-- Which publishers a subscriber listens to, and how many messages each holds back at most. -/
structure BusShape (P Q : Type*) where
  capacity : P → ℕ
  Hears : Q → P → Prop

inductive BusEvent (P Q M : Type*) where
  | publish (p : P) (message : M) (taken : Bool)
  | callback (q : Q) (message : M)

/-- The messages each publisher has taken, how many of them it has let go of, and which ones each
subscriber has been handed. -/
structure Bus (P Q M : Type*) where
  accepted : P → List M
  sent : P → ℕ
  handed : Q → List (P × ℕ)

namespace Bus

variable {P Q M : Type*}

def empty : Bus P Q M where
  accepted := fun _ => []
  sent := fun _ => 0
  handed := fun _ => []

section Steps

variable [DecidableEq P] [DecidableEq Q]

/-- A publisher takes a message. -/
def accept (b : Bus P Q M) (p : P) (message : M) : Bus P Q M :=
  { b with accepted := Function.update b.accepted p (b.accepted p ++ [message]) }

/-- A publisher lets go of its oldest message. -/
def letGo (b : Bus P Q M) (p : P) : Bus P Q M :=
  { b with sent := Function.update b.sent p (b.sent p + 1) }

/-- A subscriber is handed a message of a publisher, by its number there. -/
def hand (b : Bus P Q M) (q : Q) (p : P) (index : ℕ) : Bus P Q M :=
  { b with handed := Function.update b.handed q (b.handed q ++ [(p, index)]) }

/-- One step, with the event that can be seen of it. -/
inductive Step (shape : BusShape P Q) :
    Bus P Q M → Option (BusEvent P Q M) → Bus P Q M → Prop
  | accept {b : Bus P Q M} (p : P) (message : M) :
      (b.accepted p).length < b.sent p + shape.capacity p →
      Step shape b (some (.publish p message true)) (b.accept p message)
  | refuse {b : Bus P Q M} (p : P) (message : M) :
      b.sent p + shape.capacity p ≤ (b.accepted p).length →
      Step shape b (some (.publish p message false)) b
  | letGo {b : Bus P Q M} (p : P) :
      b.sent p < (b.accepted p).length → Step shape b none (b.letGo p)
  | hand {b : Bus P Q M} (q : Q) (p : P) (index : ℕ) (message : M) :
      shape.Hears q p → index < b.sent p → (b.accepted p)[index]? = some message →
      (∀ earlier, (p, earlier) ∈ b.handed q → earlier ≤ index) →
      Step shape b (some (.callback q message)) (b.hand q p index)

/-- A run, with everything that can be seen of it. -/
inductive Runs (shape : BusShape P Q) :
    Bus P Q M → List (BusEvent P Q M) → Bus P Q M → Prop
  | nil (b : Bus P Q M) : Runs shape b [] b
  | cons {b b' b'' : Bus P Q M} {event : Option (BusEvent P Q M)} {events} :
      Step shape b event b' → Runs shape b' events b'' → Runs shape b (event.toList ++ events) b''

variable {shape : BusShape P Q} {b b' b'' : Bus P Q M} {event : Option (BusEvent P Q M)}
variable {events events' : List (BusEvent P Q M)}

theorem Step.runs (h : Step shape b event b') : Runs shape b event.toList b' := by
  have hruns := Runs.cons h (.nil b')
  rwa [List.append_nil] at hruns

theorem Runs.trans (h : Runs shape b events b') (h' : Runs shape b' events' b'') :
    Runs shape b (events ++ events') b'' := by
  induction h with
  | nil => exact h'
  | cons hstep _ ih =>
    rw [List.append_assoc]
    exact .cons hstep (ih h')

/-! ## What a subscriber is handed -/

/-- The messages a publisher is seen to take. -/
def taken (p : P) (events : List (BusEvent P Q M)) : List M :=
  events.filterMap fun
    | .publish p' message true => if p' = p then some message else none
    | _ => none

omit [DecidableEq Q] in
theorem taken_append (p : P) (events events' : List (BusEvent P Q M)) :
    taken p (events ++ events') = taken p events ++ taken p events' := List.filterMap_append

omit [DecidableEq Q] in
theorem mem_taken {p : P} {message : M} :
    message ∈ taken p events ↔ .publish p message true ∈ events := by
  constructor
  · intro h
    obtain ⟨e, he, hsome⟩ := List.mem_filterMap.mp h
    cases e with
    | publish p' m taken =>
      cases taken with
      | false => cases hsome
      | true =>
        by_cases hp : p' = p
        · simp only [hp, if_true, Option.some.injEq] at hsome
          exact hsome ▸ hp ▸ he
        · simp [hp] at hsome
    | callback => cases hsome
  · intro h
    exact List.mem_filterMap.mpr ⟨_, h, by simp⟩

theorem Step.accepted (h : Step shape b event b') (p : P) :
    b'.accepted p = b.accepted p ++ taken p event.toList := by
  cases h with
  | accept p' message =>
    by_cases hp : p' = p
    · subst hp
      simp [taken, Bus.accept]
    · simp [taken, Bus.accept, hp, Ne.symm hp]
  | _ => exact (List.append_nil _).symm

/-- Nobody is handed anything that a publisher he listens to has not been seen to take before. -/
theorem Runs.callback {before after : List (BusEvent P Q M)} {q : Q} {message : M}
    (h : Runs shape b events b') (hevents : events = before ++ .callback q message :: after) :
    ∃ p, shape.Hears q p ∧ message ∈ b.accepted p ++ taken p before := by
  induction h generalizing before with
  | nil => simp at hevents
  | @cons b b₁ b₂ event events hstep hrest ih =>
    by_cases hcall : ∃ m, event = some (.callback q m) ∧ before = []
    · obtain ⟨m, rfl, rfl⟩ := hcall
      simp only [Option.toList_some, List.singleton_append, List.nil_append, List.cons.injEq,
        BusEvent.callback.injEq, true_and] at hevents
      obtain ⟨rfl, _⟩ := hevents
      cases hstep with
      | hand q p index m hhears _ hmessage _ =>
        refine ⟨p, hhears, ?_⟩
        exact List.mem_append_left _ (List.mem_of_getElem? hmessage)
    · obtain ⟨later, rfl, hlater⟩ : ∃ later, before = event.toList ++ later ∧
          events = later ++ .callback q message :: after := by
        cases event with
        | none => exact ⟨before, rfl, hevents⟩
        | some e =>
          cases before with
          | nil =>
            injection hevents with hhead _
            exact (hcall ⟨message, by rw [hhead], rfl⟩).elim
          | cons e' before =>
            injection hevents with hhead htail
            exact ⟨before, by rw [hhead]; rfl, htail⟩
      obtain ⟨p, hhears, hmem⟩ := ih hlater
      refine ⟨p, hhears, ?_⟩
      rw [hstep.accepted, List.append_assoc, ← taken_append] at hmem
      exact hmem

theorem Runs.heard {q : Q} {message : M} {n : ℕ} (h : Runs shape .empty events b')
    (hat : events[n]? = some (.callback q message)) :
    ∃ p m, m < n ∧ shape.Hears q p ∧ events[m]? = some (.publish p message true) := by
  obtain ⟨hlt, hevent⟩ := List.getElem?_eq_some_iff.mp hat
  have hevents : events = events.take n ++ .callback q message :: events.drop (n + 1) := by
    rw [← hevent, List.getElem_cons_drop, List.take_append_drop]
  obtain ⟨p, hhears, hmem⟩ := h.callback hevents
  rw [Bus.empty, List.nil_append, mem_taken] at hmem
  obtain ⟨m, hm⟩ := List.mem_iff_getElem?.mp hmem
  have hmn : m < n := by
    have hbound := (List.getElem?_eq_some_iff.mp hm).1
    rw [List.length_take] at hbound
    omega
  rw [List.getElem?_take_of_lt hmn] at hm
  exact ⟨p, m, hmn, hhears, hm⟩

theorem Step.handed {p : P} {q : Q} {index : ℕ} (h : Step shape b event b')
    (hmem : (p, index) ∈ b'.handed q) : (p, index) ∈ b.handed q ∨
      ∃ message, event = some (.callback q message) ∧ (b.accepted p)[index]? = some message := by
  cases h with
  | hand q' p' index' message _ _ hmessage _ =>
    by_cases hq : q = q'
    · subst hq
      simp only [Bus.hand, Function.update_self, List.mem_append, List.mem_singleton,
        Prod.mk.injEq] at hmem
      rcases hmem with hold | ⟨rfl, rfl⟩
      · exact .inl hold
      · exact .inr ⟨message, rfl, hmessage⟩
    · left
      simpa [Bus.hand, hq] using hmem
  | _ => exact .inl hmem

theorem Runs.called {p : P} {q : Q} {index : ℕ} (h : Runs shape b events b')
    (hmem : (p, index) ∈ b'.handed q) : (p, index) ∈ b.handed q ∨
      ∃ n message, events[n]? = some (.callback q message) ∧
        (b.accepted p ++ taken p (events.take n))[index]? = some message := by
  induction h with
  | nil => exact .inl hmem
  | @cons b b₁ b₂ event events hstep _ ih =>
    rcases ih hmem with hold | ⟨n, message, hat, hmessage⟩
    · rcases hstep.handed hold with hold | ⟨message, rfl, hmessage⟩
      · exact .inl hold
      · refine .inr ⟨0, message, rfl, ?_⟩
        rw [List.take_zero]
        exact (congrArg (fun accepted => accepted[index]?) (List.append_nil _)).trans hmessage
    · refine .inr ⟨event.toList.length + n, message, ?_, ?_⟩
      · rw [List.getElem?_append_right (Nat.le_add_right _ _), Nat.add_sub_cancel_left]
        exact hat
      · rw [List.take_length_add_append, taken_append, ← List.append_assoc, ← hstep.accepted]
        exact hmessage

omit [DecidableEq Q] in
theorem getElem?_taken {p : P} {message : M} {n : ℕ}
    (hat : events[n]? = some (.publish p message true)) :
    (taken p events)[(taken p (events.take n)).length]? = some message := by
  obtain ⟨hlt, hevent⟩ := List.getElem?_eq_some_iff.mp hat
  have hevents : events = events.take n ++ .publish p message true :: events.drop (n + 1) := by
    rw [← hevent, List.getElem_cons_drop, List.take_append_drop]
  have htaken : taken p events = taken p (events.take n) ++ taken p
      (.publish p message true :: events.drop (n + 1)) := by rw [← taken_append, ← hevents]
  rw [htaken, List.getElem?_append_right (Nat.le_refl _), Nat.sub_self]
  simp [taken]

/-- A message is handed over after it has been published. -/
theorem Runs.answered {p : P} {q : Q} {message : M} {n : ℕ} (h : Runs shape .empty events b')
    (hat : events[n]? = some (.publish p message true))
    (hmem : (p, (taken p (events.take n)).length) ∈ b'.handed q) :
    ∃ m, n < m ∧ events[m]? = some (.callback q message) := by
  rcases h.called hmem with hnone | ⟨m, message', hcallback, hmessage⟩
  · cases hnone
  · rw [Bus.empty, List.nil_append] at hmessage
    obtain ⟨hlt, hlast⟩ := List.getElem?_eq_some_iff.mp hmessage
    have hbefore : taken p (events.take m) <+: taken p events :=
      (List.take_prefix m events).filterMap _
    have hsame : message' = message := by
      obtain ⟨_, hwhole⟩ := List.getElem?_eq_some_iff.mp (getElem?_taken hat)
      rw [← hlast, hbefore.getElem hlt, hwhole]
    refine ⟨m, ?_, hsame ▸ hcallback⟩
    by_contra hle
    have hfewer : taken p (events.take m) <+: taken p (events.take n) :=
      (List.take_prefix_take_left (not_lt.mp hle)).filterMap _
    exact absurd hfewer.length_le (not_le.mpr hlt)

end Steps

end Bus
end Crps
