import Mathlib.Data.List.Basic
import Mathlib.Tactic

/-!
# Vectors that relocate

A vector keeps its elements in one block of storage. When the block is full it
takes a larger one and copies the elements over, so places handed out before
are in a block it has given up. Blocks are named by numbers that grow.
-/

namespace Crps

/-- How much room a vector takes when it has none left. -/
structure Growth where
  next : ℕ → ℕ
  lt_next : ∀ capacity, capacity < next capacity

/-- Room for one element, then twice the room each time. -/
def Growth.doubling : Growth where
  next capacity := max 1 (2 * capacity)
  lt_next capacity := by omega

/-- Where an element is stored. -/
structure Place where
  block : ℕ
  index : ℕ
  deriving DecidableEq, Repr

structure GrowingVector (α : Type) where
  block : ℕ
  capacity : ℕ
  elements : List α
  fits : elements.length ≤ capacity

namespace GrowingVector

variable {α : Type}

/-- No storage yet. -/
def empty : GrowingVector α := ⟨0, 0, [], le_rfl⟩

/-- Append `x`; without room for it, to copies of the elements in a new block. -/
def emplaceBack (g : Growth) (block : ℕ) (copy : ℕ → α → α) (x : α) (v : GrowingVector α) :
    GrowingVector α :=
  if h : v.elements.length < v.capacity then
    { v with
      elements := v.elements ++ [x]
      fits := by
        rw [List.length_append, List.length_singleton]
        exact h }
  else
    { block
      capacity := g.next v.capacity
      elements := v.elements.mapIdx copy ++ [x]
      fits := by
        have hfits := v.fits
        have hroom := g.lt_next v.capacity
        rw [List.length_append, List.length_mapIdx, List.length_singleton]
        omega }

def back (v : GrowingVector α) : Place := ⟨v.block, v.elements.length - 1⟩

/-- What `f` does to the element at a place. There is none in a block that has been given up. -/
def modifyAt (v : GrowingVector α) (p : Place) (f : α → Option α) : Option (GrowingVector α) :=
  if p.block = v.block then do
    let x ← v.elements[p.index]?
    let x' ← f x
    return { v with
      elements := v.elements.set p.index x'
      fits := by
        rw [List.length_set]
        exact v.fits }
  else none

/-- A vector that elements with `P` have been appended to, each time with a new block at hand, and
the places of the elements when they were new. -/
inductive Filled (g : Growth) (P : α → Prop) : GrowingVector α → List Place → Prop
  | empty : Filled g P empty []
  | emplaceBack {v : GrowingVector α} {places : List Place} {block : ℕ} (copy : ℕ → α → α) {x : α} :
      Filled g P v places → v.block < block → P x →
      Filled g P (v.emplaceBack g block copy x) (places ++ [(v.emplaceBack g block copy x).back])

variable {g : Growth} {P : α → Prop} {v : GrowingVector α} {places : List Place} {block : ℕ}
  {copy : ℕ → α → α} {x : α}

@[simp] theorem length_emplaceBack :
    (v.emplaceBack g block copy x).elements.length = v.elements.length + 1 := by
  unfold emplaceBack
  split <;> simp

theorem back_emplaceBack :
    (v.emplaceBack g block copy x).back =
      ⟨(v.emplaceBack g block copy x).block, v.elements.length⟩ := by
  rw [back, length_emplaceBack, Nat.add_sub_cancel]

theorem emplaceBack_of_lt (h : v.elements.length < v.capacity) :
    (v.emplaceBack g block copy x).block = v.block ∧
      (v.emplaceBack g block copy x).capacity = v.capacity ∧
      (v.emplaceBack g block copy x).elements = v.elements ++ [x] := by
  unfold emplaceBack
  rw [dif_pos h]
  exact ⟨rfl, rfl, rfl⟩

theorem emplaceBack_of_full (h : v.capacity ≤ v.elements.length) :
    (v.emplaceBack g block copy x).block = block ∧
      (v.emplaceBack g block copy x).capacity = g.next v.capacity ∧
      (v.emplaceBack g block copy x).elements = v.elements.mapIdx copy ++ [x] := by
  unfold emplaceBack
  rw [dif_neg (Nat.not_lt.mpr h)]
  exact ⟨rfl, rfl, rfl⟩

theorem modifyAt_some {v' : GrowingVector α} {p : Place} {f : α → Option α}
    (h : v.modifyAt p f = some v') : ∃ x x', v.elements[p.index]? = some x ∧ f x = some x' ∧
      v'.elements = v.elements.set p.index x' := by
  unfold modifyAt at h
  split_ifs at h
  obtain ⟨x, hx, h⟩ := Option.bind_eq_some_iff.mp h
  obtain ⟨x', hx', h⟩ := Option.bind_eq_some_iff.mp h
  injection h with h
  exact ⟨x, x', hx, hx', by rw [← h]⟩

/-- Where the vector stands for a list, a step on an element stands for one on the list's. -/
theorem modifyAt_of_forall₂ {β : Type} {R : α → β → Prop} {ys : List β}
    (h : List.Forall₂ R v.elements ys) {k : ℕ} {y y' : β} {f : α → Option α} (hy : ys[k]? = some y)
    (hf : ∀ x, R x y → ∃ x', f x = some x' ∧ R x' y') :
    ∃ v', v.modifyAt ⟨v.block, k⟩ f = some v' ∧ v'.block = v.block ∧
      List.Forall₂ R v'.elements (ys.set k y') := by
  rw [List.forall₂_iff_get] at h
  obtain ⟨hlength, hget⟩ := h
  obtain ⟨hk, rfl⟩ := List.getElem?_eq_some_iff.mp hy
  have hkv : k < v.elements.length := hlength ▸ hk
  obtain ⟨x', hx', hstep⟩ := hf v.elements[k] (hget k hkv hk)
  refine ⟨{ v with elements := v.elements.set k x', fits := by simpa using v.fits }, ?_, rfl, ?_⟩
  · simp [modifyAt, hkv, hx']
  · rw [List.forall₂_iff_get]
    refine ⟨by simp [hlength], fun i hi hi' => ?_⟩
    simp only [List.get_eq_getElem, List.getElem_set]
    split_ifs with hik
    · exact hstep
    · exact hget i (by simpa using hi) (by simpa using hi')

namespace Filled

theorem length_places (h : Filled g P v places) : places.length = v.elements.length := by
  induction h with
  | empty => rfl
  | emplaceBack copy _ _ _ ih =>
    rw [List.length_append, List.length_singleton, ih, length_emplaceBack]

theorem capacity_cases (h : Filled g P v places) :
    (v.elements = [] ∧ v.capacity = 0) ∨ g.next 0 ≤ v.capacity := by
  induction h with
  | empty => exact .inl ⟨rfl, rfl⟩
  | @emplaceBack v places block copy x _ _ _ ih =>
    right
    by_cases hroom : v.elements.length < v.capacity
    · rw [(emplaceBack_of_lt hroom).2.1]
      rcases ih with ⟨hnil, hzero⟩ | ih
      · rw [hzero] at hroom
        exact absurd hroom (Nat.not_lt_zero _)
      · exact ih
    · rw [(emplaceBack_of_full (Nat.le_of_not_lt hroom)).2.1]
      rcases ih with ⟨_, hzero⟩ | ih
      · rw [hzero]
      · exact ih.trans (g.lt_next v.capacity).le

theorem capacity_le (h : Filled g P v places) (hle : v.elements.length ≤ g.next 0) :
    v.capacity ≤ g.next 0 := by
  induction h with
  | empty => exact Nat.zero_le _
  | @emplaceBack v places block copy x hfilled _ _ ih =>
    rw [length_emplaceBack] at hle
    by_cases hroom : v.elements.length < v.capacity
    · rw [(emplaceBack_of_lt hroom).2.1]
      exact ih (by omega)
    · rw [(emplaceBack_of_full (Nat.le_of_not_lt hroom)).2.1]
      rcases hfilled.capacity_cases with ⟨_, hzero⟩ | hcapacity
      · rw [hzero]
      · omega

/-- While the first block lasts, nothing has moved and nothing has been copied. -/
theorem settled (h : Filled g P v places) (hle : v.elements.length ≤ g.next 0) :
    places = (List.range v.elements.length).map (Place.mk v.block) ∧ ∀ x ∈ v.elements, P x := by
  induction h with
  | empty =>
    refine ⟨rfl, fun x hx => ?_⟩
    cases hx
  | @emplaceBack v places block copy x hfilled _ hx ih =>
    rw [length_emplaceBack] at hle
    obtain ⟨hplaces, helements⟩ := ih (by omega)
    rw [back_emplaceBack, length_emplaceBack, List.range_succ, List.map_append, List.map_singleton]
    by_cases hroom : v.elements.length < v.capacity
    · obtain ⟨hblock, _, happend⟩ := @emplaceBack_of_lt α g v block copy x hroom
      rw [hblock, ← hplaces, happend]
      refine ⟨rfl, fun y hy => ?_⟩
      rcases List.mem_append.mp hy with hy | hy
      · exact helements y hy
      · exact List.mem_singleton.mp hy ▸ hx
    · -- The block can only be full because there was none.
      have hnil : v.elements = [] := by
        rcases hfilled.capacity_cases with ⟨hnil, _⟩ | hcapacity
        · exact hnil
        · omega
      have hplacesNil : places = [] := by
        rw [hplaces, hnil]
        rfl
      rw [(emplaceBack_of_full (Nat.le_of_not_lt hroom)).2.2, hplacesNil, hnil]
      refine ⟨rfl, fun y hy => ?_⟩
      exact List.mem_singleton.mp hy ▸ hx

/-- With more elements the first place is in a block that has been given up. -/
theorem stale (h : Filled g P v places) (hlt : g.next 0 < v.elements.length) :
    ∃ p, places[0]? = some p ∧ p.block < v.block := by
  induction h with
  | empty => exact absurd hlt (Nat.not_lt_zero _)
  | @emplaceBack v places block copy x hfilled hblock _ ih =>
    rw [length_emplaceBack] at hlt
    have hfirst := g.lt_next 0
    have hlength := hfilled.length_places
    rw [List.getElem?_append_left (by omega)]
    by_cases hmore : g.next 0 < v.elements.length
    · obtain ⟨p, hp, hbefore⟩ := ih hmore
      refine ⟨p, hp, ?_⟩
      by_cases hroom : v.elements.length < v.capacity
      · rwa [(emplaceBack_of_lt hroom).1]
      · rw [(emplaceBack_of_full (Nat.le_of_not_lt hroom)).1]
        exact hbefore.trans hblock
    · have hcapacity := hfilled.capacity_le (Nat.le_of_not_lt hmore)
      rw [(emplaceBack_of_full (by omega)).1, (hfilled.settled (Nat.le_of_not_lt hmore)).1]
      refine ⟨⟨v.block, 0⟩, ?_, hblock⟩
      rw [List.getElem?_map, List.getElem?_range (by omega)]
      rfl

theorem places_iff (h : Filled g P v places) :
    (∀ (k : ℕ) (p : Place), places[k]? = some p → p = ⟨v.block, k⟩) ↔
      v.elements.length ≤ g.next 0 := by
  constructor
  · intro hplaces
    by_contra hlt
    obtain ⟨p, hp, hbefore⟩ := h.stale (Nat.lt_of_not_le hlt)
    rw [hplaces 0 p hp] at hbefore
    exact absurd hbefore (Nat.lt_irrefl _)
  · intro hle k p hp
    rw [(h.settled hle).1, List.getElem?_map, Option.map_eq_some_iff] at hp
    obtain ⟨j, hj, rfl⟩ := hp
    rw [List.getElem?_eq_some_iff] at hj
    obtain ⟨_, hj⟩ := hj
    rw [List.getElem_range] at hj
    rw [hj]

end Filled
end GrowingVector
end Crps
