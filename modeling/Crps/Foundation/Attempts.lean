import Crps.Foundation.CounterGate

/-!
# Stamped attempts

A sender draws a fresh stamp for every attempt to send, and an attempt may fail
after its stamp has been drawn. The stamps that arrive follow one another
exactly if the stamps lost before each success come back around to where they
started.
-/

namespace Crps
namespace CounterGate

variable {C : Type*} (next : C → C)

/-- The stamps of the successful attempts, the last stamp drawn before being `c`. -/
def successStamps (c : C) : List Bool → List C
  | [] => []
  | true :: results => next c :: successStamps (next c) results
  | false :: results => successStamps (next c) results

/-- Before each success, the number of failures is a multiple of the period of the stamps. -/
def FailuresWrap (period : ℕ) (results : List Bool) : Prop :=
  ∀ earlier later, results = earlier ++ true :: later → period ∣ earlier.count false

variable {next} {period : ℕ}

theorem successStamps_append (c : C) (rs rs' : List Bool) :
    successStamps next c (rs ++ rs') =
      successStamps next c rs ++ successStamps next (next^[rs.length] c) rs' := by
  induction rs generalizing c with
  | nil => rfl
  | cons r rs ih =>
    cases r with
    | true =>
      simp only [List.cons_append, successStamps, ih, List.length_cons,
        Function.iterate_succ_apply]
    | false =>
      simp only [List.cons_append, successStamps, ih, List.length_cons,
        Function.iterate_succ_apply]

/-- With `lost` stamps gone since the last one that arrived. -/
theorem follows_successStamps_iterate (hperiod : ∀ c n, next^[n] c = c ↔ period ∣ n)
    (rs : List Bool) (c : C) (lost : ℕ) :
    Follows next (some c) (successStamps next (next^[lost] c) rs) ↔
      ∀ earlier later, rs = earlier ++ true :: later → period ∣ lost + earlier.count false := by
  induction rs generalizing c lost with
  | nil =>
    refine iff_of_true (follows_nil _) fun earlier later h => ?_
    cases earlier <;> cases h
  | cons r rs ih =>
    have hnext : next (next^[lost] c) = next^[lost + 1] c := (Function.iterate_succ_apply' ..).symm
    cases r with
    | false =>
      rw [successStamps, hnext, ih c (lost + 1)]
      constructor
      · intro h earlier later heq
        cases earlier with
        | nil => cases heq
        | cons r' earlier =>
          obtain ⟨rfl, htail⟩ := List.cons.inj heq
          have hlater := h earlier later htail
          rwa [List.count_cons_self, Nat.add_comm (earlier.count false), ← Nat.add_assoc]
      · intro h earlier later heq
        have hlater := h (false :: earlier) later (by rw [heq]; rfl)
        rwa [List.count_cons_self, Nat.add_comm (earlier.count false), ← Nat.add_assoc] at hlater
    | true =>
      have hstamp : next^[lost + 1] c = next c ↔ period ∣ lost := by
        rw [Function.iterate_succ_apply, hperiod]
      have hrest := ih (next (next^[lost] c)) 0
      simp only [Function.iterate_zero, id_eq, Nat.zero_add] at hrest
      rw [successStamps, follows_cons, hrest, hnext]
      simp only [Option.some.injEq, forall_eq']
      rw [hstamp]
      constructor
      · rintro ⟨hlost, h⟩ earlier later heq
        cases earlier with
        | nil => simpa using hlost
        | cons r' earlier =>
          obtain ⟨rfl, htail⟩ := List.cons.inj heq
          rw [List.count_cons_of_ne (by decide)]
          exact hlost.add (h earlier later htail)
      · intro h
        have hlost : period ∣ lost := by simpa using h [] rs rfl
        refine ⟨hlost, fun earlier later heq => ?_⟩
        have hlater := h (true :: earlier) later (by rw [heq]; rfl)
        rw [List.count_cons_of_ne (by decide)] at hlater
        exact (Nat.dvd_add_right hlost).mp hlater

theorem follows_successStamps_iff (hperiod : ∀ c n, next^[n] c = c ↔ period ∣ n)
    (rs : List Bool) (c : C) :
    Follows next (some c) (successStamps next c rs) ↔ FailuresWrap period rs := by
  have h := follows_successStamps_iterate hperiod rs c 0
  simpa [FailuresWrap] using h

theorem failuresWrap_replicate_append (m : ℕ) (rs : List Bool) :
    FailuresWrap period (List.replicate m true ++ rs) ↔ FailuresWrap period rs := by
  induction m with
  | zero => rfl
  | succ m ih =>
    rw [← ih, List.replicate_succ, List.cons_append]
    constructor
    · intro h earlier later heq
      have hlater := h (true :: earlier) later (by rw [heq]; rfl)
      rwa [List.count_cons_of_ne (by decide)] at hlater
    · intro h earlier later heq
      cases earlier with
      | nil => simp
      | cons r earlier =>
        obtain ⟨rfl, htail⟩ := List.cons.inj heq
        rw [List.count_cons_of_ne (by decide)]
        exact h earlier later htail

theorem failuresWrap_of_forall {rs : List Bool} (h : ∀ r ∈ rs, r = true) :
    FailuresWrap period rs := by
  intro earlier later heq
  have hnone : earlier.count false = 0 := by
    refine List.count_eq_zero.mpr fun hmem => ?_
    have hfalse := h false (heq ▸ List.mem_append_left _ hmem)
    cases hfalse
  rw [hnone]
  exact dvd_zero period

end CounterGate
end Crps
