import Mathlib.Tactic
import Mathlib.Data.List.Chain

/-!
# Sequence-number gates

A gate keeps, for every sender, the stamp of the last item it accepted. It
accepts a sender's first item whatever its stamp and afterwards only the
successor of the last one; a refused item leaves the gate as it was.
-/

namespace Crps
namespace CounterGate

variable {κ C α : Type*} [DecidableEq κ] [DecidableEq C]
variable (next : C → C) (key : α → κ) (stamp : α → C)

/-- The verdict on one stamp and the gate after it. -/
def check (s : κ → Option C) (k : κ) (c : C) : Bool × (κ → Option C) :=
  match s k with
  | none => (true, Function.update s k (some c))
  | some last =>
    if next last ≠ c then (false, s) else (true, Function.update s k (some c))

/-- Every item of a sequence with its verdict. -/
def judge (s : κ → Option C) : List α → List (α × Bool)
  | [] => []
  | a :: as =>
    let verdict := check next s (key a) (stamp a)
    (a, verdict.1) :: judge verdict.2 as

/-- The items of a sequence that pass. -/
def passed (s : κ → Option C) (as : List α) : List α :=
  ((judge next key stamp s as).filter Prod.snd).map Prod.fst

/-- The stamps continue the last accepted one without a gap. -/
def Follows (last : Option C) (cs : List C) : Prop :=
  List.IsChain (fun c d => d = next c) (last.toList ++ cs)

variable {next key stamp}

theorem check_none {s : κ → Option C} {k : κ} (h : s k = none) (c : C) :
    check next s k c = (true, Function.update s k (some c)) := by simp [check, h]

theorem check_next {s : κ → Option C} {k : κ} {last : C} (h : s k = some last) :
    check next s k (next last) = (true, Function.update s k (some (next last))) := by
  simp [check, h]

variable (next) in
theorem check_other {s : κ → Option C} {k : κ} {last c : C} (h : s k = some last)
    (hc : next last ≠ c) : check next s k c = (false, s) := by simp [check, h, hc]

theorem check_fst_congr {s s' : κ → Option C} {k : κ} (h : s k = s' k) (c : C) :
    (check next s k c).1 = (check next s' k c).1 := by
  simp only [check, h]
  split
  · rfl
  · split_ifs <;> rfl

theorem check_snd_congr {s s' : κ → Option C} {k : κ} (h : s k = s' k) (c : C) :
    (check next s k c).2 k = (check next s' k c).2 k := by
  simp only [check, h]
  split
  · simp
  · split_ifs <;> simp [h]

theorem check_snd_ne (s : κ → Option C) {j k : κ} (h : k ≠ j) (c : C) :
    (check next s j c).2 k = s k := by
  simp only [check]
  split
  · simp [h]
  · split_ifs <;> simp [h]

variable (next key stamp) in
@[simp] theorem judge_map_fst (s : κ → Option C) (as : List α) :
    (judge next key stamp s as).map Prod.fst = as := by
  induction as generalizing s with
  | nil => rfl
  | cons a as ih => simp [judge, ih]

variable (next key stamp) in
/-- The verdicts on one sender's items are those of the run with its items alone. -/
theorem judge_filter {s s' : κ → Option C} {k : κ} (h : s k = s' k) (as : List α) :
    (judge next key stamp s as).filter (fun p => key p.1 = k) =
      judge next key stamp s' (as.filter fun a => key a = k) := by
  induction as generalizing s s' with
  | nil => rfl
  | cons a as ih =>
    by_cases ha : key a = k
    · subst ha
      simp only [judge, List.filter_cons, decide_true, if_true, check_fst_congr h,
        ih (check_snd_congr h (stamp a))]
    · have hstep : (check next s (key a) (stamp a)).2 k = s' k := by
        rw [check_snd_ne s (Ne.symm ha), h]
      simp [judge, ha, ih hstep]

omit [DecidableEq C] in
theorem follows_cons {last : Option C} {c : C} {cs : List C} :
    Follows next last (c :: cs) ↔ (∀ l, last = some l → c = next l) ∧ Follows next (some c) cs := by
  cases last with
  | none => simp [Follows]
  | some l => simp [Follows]

omit [DecidableEq C] in
theorem follows_nil (last : Option C) : Follows next last [] := by
  cases last <;> simp [Follows]

/-- Items of one sender that follow its last accepted stamp all pass. -/
theorem judge_of_follows {s : κ → Option C} {k : κ} {as : List α} (hk : ∀ a ∈ as, key a = k)
    (h : Follows next (s k) (as.map stamp)) :
    judge next key stamp s as = as.map fun a => (a, true) := by
  induction as generalizing s with
  | nil => rfl
  | cons a as ih =>
    rw [List.map_cons, follows_cons] at h
    have ha := hk a (by simp)
    have hcheck : check next s (key a) (stamp a) =
        (true, Function.update s (key a) (some (stamp a))) := by
      cases hs : s (key a) with
      | none => exact check_none hs _
      | some l => rw [h.1 l (ha ▸ hs)]; exact check_next hs
    have htail := ih (s := Function.update s (key a) (some (stamp a)))
      (fun b hb => hk b (by simp [hb])) (by simpa [ha] using h.2)
    simp only [judge, hcheck, htail, List.map_cons]

theorem passed_cons (s : κ → Option C) (a : α) (as : List α) :
    passed next key stamp s (a :: as) =
      if (check next s (key a) (stamp a)).1 then
        a :: passed next key stamp (check next s (key a) (stamp a)).2 as
      else passed next key stamp (check next s (key a) (stamp a)).2 as := by
  simp only [passed, judge, List.filter_cons]
  split_ifs <;> rfl

variable (next key stamp) in
/-- What passes of one sender's items carries consecutive stamps. -/
theorem passed_follows {s : κ → Option C} {k : κ} {as : List α} (hk : ∀ a ∈ as, key a = k) :
    Follows next (s k) ((passed next key stamp s as).map stamp) := by
  induction as generalizing s with
  | nil => exact follows_nil _
  | cons a as ih =>
    have ha := hk a (by simp)
    have htail := fun t => ih (s := t) fun b hb => hk b (by simp [hb])
    rw [passed_cons]
    cases hs : s (key a) with
    | none =>
      rw [check_none hs]
      simp only [if_true, List.map_cons]
      rw [follows_cons]
      refine ⟨fun l hl => ?_,
        by simpa [ha] using htail (Function.update s (key a) (some (stamp a)))⟩
      rw [ha] at hs
      rw [hs] at hl
      cases hl
    | some l =>
      by_cases hc : next l = stamp a
      · rw [← hc, check_next hs]
        simp only [if_true, List.map_cons]
        rw [← hc, follows_cons]
        refine ⟨fun l' hl => ?_,
          by simpa [ha] using htail (Function.update s (key a) (some (next l)))⟩
        rw [← ha, hs] at hl
        cases hl
        rfl
      · rw [check_other next hs hc]
        simpa using htail s

theorem mem_of_mem_passed {s : κ → Option C} {as : List α} {a : α}
    (h : a ∈ passed next key stamp s as) : a ∈ as := by
  obtain ⟨p, hp, rfl⟩ := List.mem_map.mp h
  rw [← judge_map_fst next key stamp s as]
  exact List.mem_map_of_mem (List.mem_of_mem_filter hp)

variable (next key stamp) in
/-- After a refusal nothing passes until the expected stamp comes. -/
theorem judge_refused {s : κ → Option C} {k : κ} {last : C} {as : List α}
    (hk : ∀ a ∈ as, key a = k) (hs : s k = some last) (h : ∀ a ∈ as, stamp a ≠ next last) :
    judge next key stamp s as = as.map fun a => (a, false) := by
  induction as with
  | nil => rfl
  | cons a as ih =>
    have ha := hk a (by simp)
    have hcheck := check_other next (ha ▸ hs) (Ne.symm (h a (by simp)))
    have htail := ih (fun b hb => hk b (by simp [hb])) fun b hb => h b (by simp [hb])
    simp only [judge, hcheck, htail, List.map_cons]

/-- The gate after a sequence. -/
def after (next : C → C) (key : α → κ) (stamp : α → C) (s : κ → Option C) : List α → κ → Option C
  | [] => s
  | a :: as => after next key stamp (check next s (key a) (stamp a)).2 as

theorem judge_append (s : κ → Option C) (as bs : List α) :
    judge next key stamp s (as ++ bs) =
      judge next key stamp s as ++ judge next key stamp (after next key stamp s as) bs := by
  induction as generalizing s with
  | nil => rfl
  | cons a as ih => simp only [List.cons_append, judge, after, ih]

theorem after_of_follows {s : κ → Option C} {k : κ} {as : List α} {b : α}
    (hk : ∀ a ∈ as ++ [b], key a = k) (h : Follows next (s k) ((as ++ [b]).map stamp)) :
    after next key stamp s (as ++ [b]) k = some (stamp b) := by
  induction as generalizing s with
  | nil =>
    have hb := hk b (by simp)
    simp only [List.nil_append, List.map_cons, List.map_nil, follows_cons] at h
    simp only [List.nil_append, after]
    rw [hb]
    cases hs : s k with
    | none => simp [check_none hs]
    | some l => rw [h.1 l hs, check_next hs]; simp
  | cons a as ih =>
    have ha := hk a (by simp)
    simp only [List.cons_append, List.map_cons, follows_cons] at h
    have hnext : (check next s (key a) (stamp a)).2 k = some (stamp a) := by
      rw [ha]
      cases hs : s k with
      | none => simp [check_none hs]
      | some l => rw [h.1 l hs, check_next hs]; simp
    simp only [List.cons_append, after]
    apply ih
    · exact fun c hc => hk c (by simp at hc ⊢; tauto)
    · rw [hnext]
      exact h.2

end CounterGate
end Crps
