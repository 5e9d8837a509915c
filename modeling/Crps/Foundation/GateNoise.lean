import Crps.Foundation.CounterGate

/-!
# Noise at a sequence-number gate

Items without a stamp of their own count as carrying a fixed one. Inserting
such items into a sequence leaves every verdict on the others as it was, unless
one of them opens the gate for a new sender or is the successor of the
sender's last stamp; then the sender's next items decide.
-/

namespace Crps
namespace CounterGate

variable {κ C : Type*} [DecidableEq κ] [DecidableEq C]

/-- A stamped item, an unstamped one of the sequence, or an unstamped one inserted into it. -/
inductive Noisy (κ C : Type*) where
  | stamped (key : κ) (stamp : C)
  | unstamped (key : κ)
  | noise (key : κ)

namespace Noisy

def key : Noisy κ C → κ
  | stamped k _ => k
  | unstamped k => k
  | noise k => k

def stamp (blank : C) : Noisy κ C → C
  | stamped _ c => c
  | unstamped _ => blank
  | noise _ => blank

def isNoise : Noisy κ C → Bool
  | noise _ => true
  | _ => false

/-- The sequence before anything was inserted. -/
def quiet (xs : List (Noisy κ C)) : List (Noisy κ C) := xs.filter fun x => !x.isNoise

/-- One sender's items of the sequence: their stamps, or none. -/
def ofKey (k : κ) : List (Noisy κ C) → List (Option C)
  | [] => []
  | stamped k' c :: xs => if k' = k then some c :: ofKey k xs else ofKey k xs
  | unstamped k' :: xs => if k' = k then none :: ofKey k xs else ofKey k xs
  | noise _ :: xs => ofKey k xs

end Noisy

open Noisy

variable (next : C → C) (blank : C)

/-- The verdicts on the stamped items. -/
def heard (s : κ → Option C) : List (Noisy κ C) → List Bool
  | [] => []
  | stamped k c :: xs => (check next s k c).1 :: heard (check next s k c).2 xs
  | unstamped k :: xs => heard (check next s k blank).2 xs
  | noise k :: xs => heard (check next s k blank).2 xs

/-- Noise at a sender's entry does not tell on what comes later. A new sender continues behind
the blank stamp, or without one; a sender whose successor is the blank stamp sends neither this
nor the one behind it before an unstamped item. -/
def Inaudible : Option C → List (Option C) → Prop
  | none, cs => ∀ c, cs.head? = some (some c) → c = next blank
  | some last, cs => next last = blank →
      ∀ c, cs.find? (fun c => c = none ∨ c = some blank ∨ c = some (next blank)) = some c → c = none

/-- Every inserted item is inaudible where it stands. -/
def NoiseHarmless (s : κ → Option C) (xs : List (Noisy κ C)) : Prop :=
  ∀ pre k post, xs = pre ++ noise k :: post →
    Inaudible next blank (after next key (stamp blank) s (quiet pre) k) (ofKey k post)

variable {next blank}

omit [DecidableEq κ] [DecidableEq C] in
@[simp] theorem quiet_cons_noise (k : κ) (xs : List (Noisy κ C)) :
    quiet (noise k :: xs) = quiet xs := rfl

omit [DecidableEq κ] [DecidableEq C] in
@[simp] theorem quiet_cons_stamped (k : κ) (c : C) (xs : List (Noisy κ C)) :
    quiet (stamped k c :: xs) = stamped k c :: quiet xs := rfl

omit [DecidableEq κ] [DecidableEq C] in
@[simp] theorem quiet_cons_unstamped (k : κ) (xs : List (Noisy κ C)) :
    quiet (unstamped k :: xs) = unstamped k :: quiet xs := rfl

theorem noiseHarmless_nil (s : κ → Option C) : NoiseHarmless next blank s [] := by
  intro pre k post h
  cases pre <;> cases h

theorem noiseHarmless_noise (s : κ → Option C) (k : κ) (xs : List (Noisy κ C)) :
    NoiseHarmless next blank s (noise k :: xs) ↔
      Inaudible next blank (s k) (ofKey k xs) ∧ NoiseHarmless next blank s xs := by
  constructor
  · intro h
    exact ⟨h [] k xs rfl, fun pre k' post hxs => h (noise k :: pre) k' post (by rw [hxs]; rfl)⟩
  · rintro ⟨hfirst, hrest⟩ pre k' post hxs
    cases pre with
    | nil =>
      cases hxs
      exact hfirst
    | cons x pre =>
      injection hxs with hx hxs
      subst hx
      exact hrest pre k' post hxs

theorem noiseHarmless_item (s : κ → Option C) {x : Noisy κ C} (hx : x.isNoise = false)
    (xs : List (Noisy κ C)) :
    NoiseHarmless next blank s (x :: xs) ↔
      NoiseHarmless next blank (check next s x.key (x.stamp blank)).2 xs := by
  have hquiet : ∀ pre, quiet (x :: pre) = x :: quiet pre := by
    intro pre
    simp only [quiet, List.filter_cons, hx, Bool.not_false, if_true]
  constructor
  · intro h pre k post hxs
    have hpre := h (x :: pre) k post (by rw [hxs]; rfl)
    rw [hquiet] at hpre
    exact hpre
  · intro h pre k post hxs
    cases pre with
    | nil =>
      injection hxs with hnoise
      rw [hnoise] at hx
      cases hx
    | cons y pre =>
      injection hxs with hy hxs
      subst hy
      rw [hquiet]
      exact h pre k post hxs

/-! ## Two gates, with and without the noise -/

variable (next blank) in
/-- One sender's entries without and with the noise: equal, or apart by a blank stamp that was
let in. -/
inductive Drifted : Option C → Option C → Prop
  | same (g : Option C) : Drifted g g
  | opened : Drifted none (some blank)
  | advanced {last : C} : next last = blank → Drifted (some last) (some blank)

variable (next blank) in
/-- What a pair of entries still asks of the sender's items. -/
def Pending (g g' : Option C) (cs : List (Option C)) : Prop :=
  g ≠ g' → Inaudible next blank g cs

variable {s s' : κ → Option C} {k : κ} (cs : List (Option C))

theorem drifted_noise (hblank : next blank ≠ blank) (h : Drifted next blank (s k) (s' k)) :
    Drifted next blank (s k) ((check next s' k blank).2 k) ∧
      (Pending next blank (s k) ((check next s' k blank).2 k) cs ↔
        Inaudible next blank (s k) cs ∧ Pending next blank (s k) (s' k) cs) := by
  unfold Pending
  generalize hg : s k = g at h
  generalize hg' : s' k = g' at h
  cases h with
  | same =>
    cases g with
    | none =>
      simp only [check_none hg', Function.update_self]
      exact ⟨.opened, by simp⟩
    | some last =>
      by_cases hlast : next last = blank
      · have hadvanced : check next s' k (next last) = _ := check_next hg'
        rw [hlast] at hadvanced
        simp only [hadvanced, Function.update_self]
        refine ⟨.advanced hlast, ?_⟩
        have hne : last ≠ blank := fun heq => hblank (by rw [← heq, hlast, heq])
        simp [hne]
      · simp only [check_other next hg' hlast, hg']
        exact ⟨.same _, by simp [Inaudible, hlast]⟩
  | opened =>
    simp only [check_other next hg' hblank, hg']
    exact ⟨.opened, by simp⟩
  | @advanced last hlast =>
    simp only [check_other next hg' hblank, hg']
    have hne : last ≠ blank := fun heq => hblank (by rw [← heq, hlast, heq])
    exact ⟨.advanced hlast, by simp [hne]⟩

theorem drifted_unstamped (hblank : next blank ≠ blank) (h : Drifted next blank (s k) (s' k)) :
    (check next s k blank).2 k = (check next s' k blank).2 k ∧
      Pending next blank (s k) (s' k) (none :: cs) := by
  unfold Pending
  generalize hg : s k = g at h
  generalize hg' : s' k = g' at h
  cases h with
  | same => exact ⟨check_snd_congr (hg.trans hg'.symm) blank, fun hne => absurd rfl hne⟩
  | opened =>
    simp only [check_none hg, check_other next hg' hblank, hg', Function.update_self]
    exact ⟨trivial, by simp [Inaudible]⟩
  | @advanced last hlast =>
    have hadvanced : check next s k (next last) = _ := check_next hg
    rw [hlast] at hadvanced
    simp only [hadvanced, check_other next hg' hblank, hg', Function.update_self]
    exact ⟨trivial, by simp [Inaudible]⟩

/-- A stamped item is judged alike exactly if nothing pending speaks against it. -/
theorem drifted_stamped (hblank : next blank ≠ blank) (h : Drifted next blank (s k) (s' k))
    (c : C) :
    (Pending next blank (s k) (s' k) (some c :: cs) ↔
      (check next s k c).1 = (check next s' k c).1 ∧
        Pending next blank ((check next s k c).2 k) ((check next s' k c).2 k) cs) ∧
    ((check next s k c).1 = (check next s' k c).1 →
      Drifted next blank ((check next s k c).2 k) ((check next s' k c).2 k)) := by
  unfold Pending
  generalize hg : s k = g at h
  generalize hg' : s' k = g' at h
  cases h with
  | same =>
    have heq := hg.trans hg'.symm
    rw [check_fst_congr heq c, check_snd_congr heq c]
    exact ⟨by simp, fun _ => .same _⟩
  | opened =>
    rw [check_none hg]
    by_cases hc : next blank = c
    · subst hc
      rw [check_next hg']
      simp only [Function.update_self]
      exact ⟨by simp [Inaudible], fun _ => .same _⟩
    · rw [check_other next hg' hc]
      simp [Inaudible, Ne.symm hc]
  | @advanced last hlast =>
    have hne : last ≠ blank := fun heq => hblank (by rw [← heq, hlast, heq])
    by_cases hb : c = blank
    · subst hb
      have hadvanced : check next s k (next last) = _ := check_next hg
      rw [hlast] at hadvanced
      rw [hadvanced, check_other next hg' hblank]
      simp [Inaudible, hne, hlast]
    · rw [check_other next hg (by rw [hlast]; exact Ne.symm hb)]
      by_cases hc : next blank = c
      · subst hc
        rw [check_next hg']
        simp [Inaudible, hne, hlast]
      · simp only [check_other next hg' hc, hg, hg']
        simp [Inaudible, hne, hlast, hb, Ne.symm hc, Drifted.advanced hlast]

theorem drifted_check (h : ∀ j, Drifted next blank (s j) (s' j)) {c : C}
    (hk : Drifted next blank ((check next s k c).2 k) ((check next s' k c).2 k)) (j : κ) :
    Drifted next blank ((check next s k c).2 j) ((check next s' k c).2 j) := by
  by_cases hj : j = k
  · rw [hj]
    exact hk
  · rw [check_snd_ne s hj, check_snd_ne s' hj]
    exact h j

/-! ## Whole sequences -/

/-- Two gates whose entries are drifted apart at most hear the same exactly if the noise to come
is harmless and nothing pending speaks up. -/
theorem heard_quiet_iff (hblank : next blank ≠ blank) (xs : List (Noisy κ C))
    {s s' : κ → Option C} (h : ∀ k, Drifted next blank (s k) (s' k)) :
    heard next blank s (quiet xs) = heard next blank s' xs ↔
      NoiseHarmless next blank s xs ∧ ∀ k, Pending next blank (s k) (s' k) (ofKey k xs) := by
  induction xs generalizing s s' with
  | nil =>
    refine iff_of_true rfl ⟨noiseHarmless_nil s, fun k _ => ?_⟩
    cases hk : s k with
    | none => simp [Inaudible, ofKey]
    | some last => simp [Inaudible, ofKey]
  | cons x xs ih =>
    cases x with
    | noise k =>
      have hmoved : ∀ j, Drifted next blank (s j) ((check next s' k blank).2 j) := by
        intro j
        by_cases hj : j = k
        · rw [hj]
          exact (drifted_noise [] hblank (h k)).1
        · rw [check_snd_ne s' hj]
          exact h j
      have hpending := (drifted_noise (ofKey k xs) hblank (h k)).2
      rw [quiet_cons_noise, heard, ih hmoved, noiseHarmless_noise]
      constructor
      · rintro ⟨hharmless, hall⟩
        have hk := hpending.mp (hall k)
        refine ⟨⟨hk.1, hharmless⟩, fun j => ?_⟩
        by_cases hj : j = k
        · rw [hj]
          exact hk.2
        · have hother := hall j
          rwa [check_snd_ne s' hj] at hother
      · rintro ⟨⟨hk, hharmless⟩, hall⟩
        refine ⟨hharmless, fun j => ?_⟩
        by_cases hj : j = k
        · rw [hj]
          exact hpending.mpr ⟨hk, hall k⟩
        · rw [check_snd_ne s' hj]
          exact hall j
    | unstamped k =>
      obtain ⟨hsame, hpending⟩ := drifted_unstamped (ofKey k xs) hblank (h k)
      have hmoved := drifted_check h (k := k) (c := blank) (by rw [hsame]; exact .same _)
      rw [quiet_cons_unstamped, heard, heard, ih hmoved, noiseHarmless_item s rfl]
      refine and_congr_right fun _ => forall_congr' fun j => ?_
      by_cases hj : k = j
      · subst hj
        rw [hsame]
        simp only [ofKey, if_true]
        exact iff_of_true (fun hne => absurd rfl hne) hpending
      · rw [check_snd_ne s (Ne.symm hj), check_snd_ne s' (Ne.symm hj)]
        simp only [ofKey, if_neg hj]
    | stamped k c =>
      obtain ⟨hpending, hdrifted⟩ := drifted_stamped (ofKey k xs) hblank (h k) c
      rw [quiet_cons_stamped, heard, heard, noiseHarmless_item s rfl, List.cons.injEq]
      constructor
      · rintro ⟨hverdict, hrest⟩
        have hmoved := drifted_check h (hdrifted hverdict)
        obtain ⟨hharmless, hall⟩ := (ih hmoved).mp hrest
        refine ⟨hharmless, fun j => ?_⟩
        by_cases hj : k = j
        · subst hj
          simp only [ofKey, if_true]
          exact hpending.mpr ⟨hverdict, hall k⟩
        · have hother := hall j
          rw [check_snd_ne s (Ne.symm hj), check_snd_ne s' (Ne.symm hj)] at hother
          simpa only [ofKey, if_neg hj] using hother
      · rintro ⟨hharmless, hall⟩
        have hk := hall k
        simp only [ofKey, if_true] at hk
        obtain ⟨hverdict, hlater⟩ := hpending.mp hk
        have hmoved := drifted_check h (hdrifted hverdict)
        refine ⟨hverdict, (ih hmoved).mpr ⟨hharmless, fun j => ?_⟩⟩
        by_cases hj : k = j
        · subst hj
          exact hlater
        · have hother := hall j
          simp only [ofKey, if_neg hj] at hother
          rwa [check_snd_ne s (Ne.symm hj), check_snd_ne s' (Ne.symm hj)]

theorem heard_iff_noiseHarmless (hblank : next blank ≠ blank) (s : κ → Option C)
    (xs : List (Noisy κ C)) :
    heard next blank s (quiet xs) = heard next blank s xs ↔ NoiseHarmless next blank s xs := by
  rw [heard_quiet_iff hblank xs fun k => Drifted.same (s k)]
  exact and_iff_left fun k hne => absurd rfl hne

end CounterGate
end Crps
