import Mathlib.Tactic
import Mathlib.Data.List.Nodup

/-!
# Tables with named entries

A table is a list whose positions serve as identifiers and whose entries carry
a name. `findNamed` is the linear search by name; `Extends` says that a later
table still has every earlier entry at its position, up to a relation between
the old and the new entry.
-/

namespace Crps

variable {α κ : Type*}

/-- First position and entry with the given name. -/
def findNamed [DecidableEq κ] (name : α → κ) (key : κ) : List α → Option (ℕ × α)
  | [] => none
  | x :: xs =>
    if name x = key then some (0, x)
    else (findNamed name key xs).map fun r => (r.1 + 1, r.2)

section FindNamed

variable [DecidableEq κ] {name : α → κ} {key : κ}

theorem findNamed_some {xs : List α} {i : ℕ} {x : α} (h : findNamed name key xs = some (i, x)) :
    xs[i]? = some x ∧ name x = key := by
  induction xs generalizing i with
  | nil => cases h
  | cons y ys ih =>
    rw [findNamed] at h
    split_ifs at h with hy
    · cases h
      exact ⟨rfl, hy⟩
    · obtain ⟨⟨j, z⟩, hz, he⟩ := Option.map_eq_some_iff.mp h
      cases he
      exact ih hz

theorem findNamed_none {xs : List α} : findNamed name key xs = none ↔ ∀ x ∈ xs, name x ≠ key := by
  induction xs with
  | nil => simp [findNamed]
  | cons y ys ih => by_cases hy : name y = key <;> simp [findNamed, hy, ih]

theorem findNamed_of_getElem? {xs : List α} (hnodup : (xs.map name).Nodup) {i : ℕ} {x : α}
    (h : xs[i]? = some x) : findNamed name (name x) xs = some (i, x) := by
  induction xs generalizing i with
  | nil => simp at h
  | cons y ys ih =>
    rw [List.map_cons, List.nodup_cons] at hnodup
    cases i with
    | zero =>
      rw [List.getElem?_cons_zero, Option.some.injEq] at h
      simp [findNamed, h]
    | succ j =>
      rw [List.getElem?_cons_succ] at h
      have hne : name y ≠ name x := by
        intro he
        exact hnodup.1 (he ▸ List.mem_map_of_mem (List.mem_of_getElem? h))
      simp [findNamed, hne, ih hnodup.2 h]

theorem findNamed_append {xs : List α} {x : α} (hnew : findNamed name (name x) xs = none) :
    findNamed name (name x) (xs ++ [x]) = some (xs.length, x) := by
  induction xs with
  | nil => simp [findNamed]
  | cons y ys ih =>
    have hys : findNamed name (name x) ys = none :=
      findNamed_none.mpr fun z hz => findNamed_none.mp hnew z (List.mem_cons_of_mem y hz)
    have hy : name y ≠ name x := findNamed_none.mp hnew y List.mem_cons_self
    simp [findNamed, hy, ih hys]

theorem nodup_names_append {xs : List α} {x : α} (hnodup : (xs.map name).Nodup)
    (hnew : findNamed name (name x) xs = none) : ((xs ++ [x]).map name).Nodup := by
  rw [List.map_append, List.map_singleton]
  refine List.nodup_append.mpr ⟨hnodup, List.nodup_singleton _, ?_⟩
  intro a ha b hb
  obtain ⟨y, hy, rfl⟩ := List.mem_map.mp ha
  rw [List.mem_singleton.mp hb]
  exact findNamed_none.mp hnew y hy

theorem index_unique {xs : List α} (hnodup : (xs.map name).Nodup) {i j : ℕ} {x y : α}
    (hx : xs[i]? = some x) (hy : xs[j]? = some y) (he : name x = name y) : i = j := by
  have hi := findNamed_of_getElem? hnodup hx
  have hj := findNamed_of_getElem? hnodup hy
  rw [he, hj] at hi
  simpa using (congrArg (Option.map Prod.fst) hi).symm

/-- In a table with distinct names, names identify positions and positions names. -/
theorem name_eq_iff_index {xs : List α} (hnodup : (xs.map name).Nodup) {i j : ℕ} {x y : α}
    (hx : xs[i]? = some x) (hy : xs[j]? = some y) : name x = name y ↔ i = j := by
  refine ⟨index_unique hnodup hx hy, ?_⟩
  rintro rfl
  rw [hx] at hy
  injection hy with hy
  rw [hy]

end FindNamed

/-- Every entry of `xs` is still at its position in `ys`, changed at most by `r`. -/
def Extends (r : α → α → Prop) (xs ys : List α) : Prop :=
  ∀ (i : ℕ) (x : α), xs[i]? = some x → ∃ y, ys[i]? = some y ∧ r x y

namespace Extends

variable {r : α → α → Prop}

theorem refl (hr : ∀ x, r x x) (xs : List α) : Extends r xs xs :=
  fun _ x hx => ⟨x, hx, hr x⟩

theorem trans (hr : ∀ {x y z}, r x y → r y z → r x z) {xs ys zs : List α}
    (h : Extends r xs ys) (h' : Extends r ys zs) : Extends r xs zs := by
  intro i x hx
  obtain ⟨y, hy, hxy⟩ := h i x hx
  obtain ⟨z, hz, hyz⟩ := h' i y hy
  exact ⟨z, hz, hr hxy hyz⟩

theorem append (hr : ∀ x, r x x) (xs ys : List α) : Extends r xs (xs ++ ys) := by
  intro i x hx
  have hi := (List.getElem?_eq_some_iff.mp hx).1
  exact ⟨x, by rw [List.getElem?_append_left hi, hx], hr x⟩

theorem modify {f : α → α} (hr : ∀ x, r x x) (hf : ∀ x, r x (f x)) (xs : List α) (k : ℕ) :
    Extends r xs (xs.modify k f) := by
  intro i x hx
  by_cases hk : k = i
  · exact ⟨f x, by simp [hk, hx], hf x⟩
  · exact ⟨x, by simp [hk, hx], hr x⟩

theorem length_le {xs ys : List α} (h : Extends r xs ys) : xs.length ≤ ys.length := by
  by_contra hlt
  have hlast := List.getElem?_eq_getElem (l := xs) (i := ys.length) (by omega)
  obtain ⟨y, hy, _⟩ := h _ _ hlast
  simp at hy

end Extends

end Crps
