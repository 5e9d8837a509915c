import Mathlib.Tactic
import Mathlib.Data.List.Basic

/-!
# Items passed on in order

A stage takes the items of a sequence one after the other and passes each on
any number of times, losses and copies included. However many stages there are,
nothing overtakes. Where every item is passed on equally often, it arrives as
often as that.
-/

namespace Crps

/-- The second list is what a stage makes of the first. -/
inductive Relayed {α : Type} : List α → List α → Prop
  | nil : Relayed [] []
  | cons (x : α) (copies : ℕ) {xs ys : List α} :
      Relayed xs ys → Relayed (x :: xs) (List.replicate copies x ++ ys)

namespace Relayed

variable {α β : Type} {xs xs' ys ys' : List α}

theorem refl (xs : List α) : Relayed xs xs := by
  induction xs with
  | nil => exact .nil
  | cons x xs ih => exact .cons x 1 ih

theorem append (h : Relayed xs ys) (h' : Relayed xs' ys') : Relayed (xs ++ xs') (ys ++ ys') := by
  induction h with
  | nil => exact h'
  | cons x copies _ ih =>
    rw [List.cons_append, List.append_assoc]
    exact .cons x copies ih

theorem copies (x : α) (copies : ℕ) : Relayed [x] (List.replicate copies x) := by
  have h := cons x copies (refl [])
  rwa [List.append_nil] at h

theorem of_sublist (h : ys.Sublist xs) : Relayed xs ys := by
  induction h with
  | slnil => exact .nil
  | cons x _ ih => exact .cons x 0 ih
  | cons_cons x _ ih => exact .cons x 1 ih

theorem subset (h : Relayed xs ys) : ys ⊆ xs := by
  induction h with
  | nil => exact List.Subset.refl _
  | cons x copies _ ih =>
    intro y hy
    rcases List.mem_append.mp hy with hy | hy
    · rw [List.eq_of_mem_replicate hy]
      exact List.mem_cons_self
    · exact List.mem_cons_of_mem _ (ih hy)

theorem pairwise {R : α → α → Prop} (hrefl : ∀ x, R x x) (h : Relayed xs ys)
    (hxs : xs.Pairwise R) : ys.Pairwise R := by
  induction h with
  | nil => exact hxs
  | cons x copies hrest ih =>
    obtain ⟨hx, hxs⟩ := List.pairwise_cons.mp hxs
    refine List.pairwise_append.mpr ⟨List.pairwise_replicate.mpr (.inr (hrefl x)), ih hxs, ?_⟩
    intro a ha b hb
    rw [List.eq_of_mem_replicate ha]
    exact hx b (hrest.subset hb)

end Relayed

/-! ## Equally often -/

section Copied

variable {α : Type} (c : ℕ)

/-- Every item `c` times. -/
def copied (xs : List α) : List α := xs.flatMap (List.replicate c)

theorem copied_append (xs ys : List α) : copied c (xs ++ ys) = copied c xs ++ copied c ys :=
  List.flatMap_append

theorem copied_cons (x : α) (xs : List α) :
    copied c (x :: xs) = List.replicate c x ++ copied c xs :=
  List.flatMap_cons

theorem copied_one (xs : List α) : copied 1 xs = xs := by
  induction xs with
  | nil => rfl
  | cons x xs ih => rw [copied_cons, ih, List.replicate_one, List.singleton_append]

theorem count_copied [DecidableEq α] (x : α) (xs : List α) :
    (copied c xs).count x = c * xs.count x := by
  induction xs with
  | nil => rfl
  | cons y xs ih =>
    rw [copied_cons, List.count_append, ih, List.count_replicate, List.count_cons]
    by_cases hxy : y = x
    · simp [hxy, Nat.mul_add, Nat.add_comm]
    · simp [hxy]

end Copied

end Crps
