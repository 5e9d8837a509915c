import Mathlib.Data.List.Basic

/-!
# What is left of a queue

A queue is only ever appended to at its end and taken from at its head. All but
the first `n` items have a property; so have the items that come, and with every
item taken one fewer is left that may lack it.
-/

namespace Crps

/-- At most the first `n` items lack the property. -/
def Backlog {α : Type*} (P : α → Prop) (n : ℕ) (xs : List α) : Prop := ∀ x ∈ xs.drop n, P x

namespace Backlog

variable {α : Type*} {P : α → Prop} {n : ℕ} {xs : List α}

theorem length (P : α → Prop) (xs : List α) : Backlog P xs.length xs := by
  intro x hx
  rw [List.drop_length] at hx
  cases hx

theorem append {ys : List α} (h : Backlog P n xs) (hys : ∀ y ∈ ys, P y) :
    Backlog P n (xs ++ ys) := by
  intro x hx
  rw [List.drop_append] at hx
  rcases List.mem_append.mp hx with hx | hx
  · exact h x hx
  · exact hys x (List.mem_of_mem_drop hx)

theorem tail (h : Backlog P n xs) : Backlog P (n - 1) xs.tail := by
  cases xs with
  | nil =>
    intro y hy
    simp at hy
  | cons x xs =>
    cases n with
    | zero => exact fun y hy => h y (List.mem_cons_of_mem x hy)
    | succ n => exact h

theorem advance (h : Backlog P n xs) (taken : Bool) {ys : List α} (hys : ∀ y ∈ ys, P y) :
    Backlog P (n - if taken then 1 else 0) ((if taken then xs.tail else xs) ++ ys) := by
  apply append _ hys
  cases taken with
  | true => exact h.tail
  | false => exact h

end Backlog
end Crps
