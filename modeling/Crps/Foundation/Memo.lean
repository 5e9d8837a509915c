import Mathlib.Logic.Function.Basic

/-!
# Memoized conversions

A conversion that can fail, behind a cache that is filled on demand. As long as
it is filled only this way the cache holds what the conversion gives, a failed
conversion leaves it alone, and with a conversion that depends on the key only
the cache cannot be told from converting afresh every time.
-/

namespace Crps

section Memoize

variable {ε κ ν : Type*}

/-- Every cached value is the one the conversion gives for its key. -/
def CacheCoherent (cache : κ → Option ν) (convert : κ → Except ε ν) : Prop :=
  ∀ key v, cache key = some v → convert key = .ok v

theorem cacheCoherent_empty (convert : κ → Except ε ν) :
    CacheCoherent (fun _ => none) convert := by
  intro key v h
  cases h

variable [DecidableEq κ]

/-- Look up a key; on a miss convert, and keep the value of a success. -/
def memoize (cache : κ → Option ν) (key : κ) (fresh : Except ε ν) :
    Except ε ν × (κ → Option ν) :=
  match cache key with
  | some v => (.ok v, cache)
  | none =>
    match fresh with
    | .ok v => (.ok v, Function.update cache key (some v))
    | .error e => (.error e, cache)

variable {cache : κ → Option ν} {convert : κ → Except ε ν} {key : κ} {fresh : Except ε ν}

/-- A conversion that succeeds only as `convert` does keeps the cache coherent. -/
theorem memoize_coherent (h : CacheCoherent cache convert)
    (hfresh : ∀ v, fresh = .ok v → convert key = .ok v) :
    CacheCoherent (memoize cache key fresh).2 convert := by
  unfold memoize
  split
  · exact h
  · split
    · rename_i v
      intro k w hk
      simp only at hk
      by_cases hkey : k = key
      · subst hkey
        rw [Function.update_self, Option.some.injEq] at hk
        exact hk ▸ hfresh v rfl
      · rw [Function.update_of_ne hkey] at hk
        exact h k w hk
    · exact h

theorem memoize_fst (h : CacheCoherent cache convert) :
    (memoize cache key (convert key)).1 = convert key := by
  unfold memoize
  split
  · rename_i v hv
    exact (h key v hv).symm
  · split <;> rename_i hfresh <;> exact hfresh.symm

theorem memoize_of_error {e : ε} (h : (memoize cache key fresh).1 = .error e) :
    (memoize cache key fresh).2 = cache := by
  unfold memoize at h ⊢
  split
  · rfl
  · rename_i hmiss
    simp only [hmiss] at h
    split
    · cases h
    · rfl

end Memoize

end Crps
