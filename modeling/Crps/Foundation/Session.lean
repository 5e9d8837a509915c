import Mathlib.Tactic

/-!
# Client sessions against a shared server

A session is a client program with local state `σ` that is suspended at calls
with requests `ρ` and responses `δ`. Many sessions run against one server
state `S`; between two steps of one session the others act within its rely,
and each of its own calls has to stay within its guarantee. `Safe` is the
weakest precondition of that reading, closed under interference by definition.
`Returns` looks at one session alone: where it can end, whoever answers.
`Steady` says that a component of the local state changes in calls only.
-/

namespace Crps

inductive Session (σ ρ δ ε α : Type) where
  | ret (state : σ) (value : α)
  | throw (error : ε)
  | call (state : σ) (request : ρ) (resume : σ → δ → Session σ ρ δ ε α)

/-- A program is a session once its start state is known. -/
def Program (σ ρ δ ε α : Type) := σ → Session σ ρ δ ε α

namespace Session

variable {σ ρ δ ε α β : Type}

def bind : Session σ ρ δ ε α → (σ → α → Session σ ρ δ ε β) → Session σ ρ δ ε β
  | .ret s a, f => f s a
  | .throw e, _ => .throw e
  | .call s req resume, f => .call s req fun s' d => (resume s' d).bind f

@[simp] theorem ret_bind (s : σ) (a : α) (f : σ → α → Session σ ρ δ ε β) :
    (Session.ret s a : Session σ ρ δ ε α).bind f = f s a := rfl

end Session

namespace Program

variable {σ ρ δ ε α β : Type}

instance : Monad (Program σ ρ δ ε) where
  pure a := fun s => .ret s a
  bind m f := fun s => (m s).bind fun s' a => f a s'

def get : Program σ ρ δ ε σ := fun s => .ret s s

def modify (f : σ → σ) : Program σ ρ δ ε Unit := fun s => .ret (f s) ()

def call (request : ρ) : Program σ ρ δ ε δ := fun s => .call s request fun s' d => .ret s' d

def ofExcept : Except ε α → Program σ ρ δ ε α
  | .ok a => fun s => .ret s a
  | .error e => fun _ => .throw e

@[simp] theorem pure_apply (a : α) (s : σ) : (pure a : Program σ ρ δ ε α) s = .ret s a := rfl

@[simp] theorem bind_apply (m : Program σ ρ δ ε α) (f : α → Program σ ρ δ ε β) (s : σ) :
    (m >>= f) s = (m s).bind fun s' a => f a s' := rfl

@[simp] theorem ofExcept_ok (a : α) (s : σ) :
    (ofExcept (.ok a) : Program σ ρ δ ε α) s = .ret s a := rfl

@[simp] theorem modify_apply (f : σ → σ) (s : σ) :
    (modify f : Program σ ρ δ ε Unit) s = .ret (f s) () := rfl

@[simp] theorem get_apply (s : σ) : (get : Program σ ρ δ ε σ) s = .ret s s := rfl

end Program

/-- The setting of one session: what the others may do to the server, which
calls it may make with which effect, and how the server answers a call. -/
structure Interference (σ S ρ δ : Type) where
  rely : S → S → Prop
  guarantee : σ → S → ρ → S → Prop
  serve : σ → S → ρ → σ → S → δ → Prop
  rely_refl : ∀ x, rely x x
  rely_trans : ∀ {x y z}, rely x y → rely y z → rely x z

namespace Session

variable {σ S ρ δ ε α β : Type} (I : Interference σ S ρ δ)

/-- From server state `x` on, whatever the others do: every call keeps the
guarantee, nothing is thrown, and a returned value meets `Q` for good. -/
def Safe (Q : σ → α → S → Prop) : Session σ ρ δ ε α → S → Prop
  | .ret s a, x => ∀ y, I.rely x y → Q s a y
  | .throw _, _ => False
  | .call s req resume, x =>
    ∀ y, I.rely x y → ∀ s' z d, I.serve s y req s' z d →
      I.guarantee s y req z ∧ (resume s' d).Safe Q z

variable {I}

theorem Safe.stable {Q : σ → α → S → Prop} {m : Session σ ρ δ ε α} {x y : S}
    (h : m.Safe I Q x) (hxy : I.rely x y) : m.Safe I Q y := by
  cases m with
  | ret s a => exact fun z hz => h z (I.rely_trans hxy hz)
  | throw e => exact h
  | call s req resume => exact fun z hz => h z (I.rely_trans hxy hz)

theorem Safe.post {Q : σ → α → S → Prop} {s : σ} {a : α} {x : S}
    (h : (Session.ret s a : Session σ ρ δ ε α).Safe I Q x) : Q s a x :=
  h x (I.rely_refl x)

theorem Safe.mono {Q Q' : σ → α → S → Prop} (hQ : ∀ s a x, Q s a x → Q' s a x)
    {m : Session σ ρ δ ε α} {x : S} (h : m.Safe I Q x) : m.Safe I Q' x := by
  induction m generalizing x with
  | ret s a => exact fun y hy => hQ s a y (h y hy)
  | throw e => exact h
  | call s req resume ih =>
    intro y hy s' z d hserve
    obtain ⟨hg, hs⟩ := h y hy s' z d hserve
    exact ⟨hg, ih s' d hs⟩

/-- Sequencing: the first session ends where the second one is safe. -/
theorem Safe.bind {Q : σ → β → S → Prop} {m : Session σ ρ δ ε α}
    {f : σ → α → Session σ ρ δ ε β} {x : S}
    (h : m.Safe I (fun s a y => (f s a).Safe I Q y) x) : (m.bind f).Safe I Q x := by
  induction m generalizing x with
  | ret s a => exact h.post
  | throw e => exact h
  | call s req resume ih =>
    intro y hy s' z d hserve
    obtain ⟨hg, hs⟩ := h y hy s' z d hserve
    exact ⟨hg, ih s' d hs⟩

/-- Some answers to its calls lead the session to its end, with this state and value. -/
def Returns (serves : σ → ρ → σ → δ → Prop) : Session σ ρ δ ε α → σ → α → Prop
  | .ret s a, s', a' => s = s' ∧ a = a'
  | .throw _, _, _ => False
  | .call s req resume, s', a' => ∃ s₁ d, serves s req s₁ d ∧ (resume s₁ d).Returns serves s' a'

/-- A sequence ends where its second session does, from where the first one ended. -/
theorem returns_bind {serves : σ → ρ → σ → δ → Prop} {m : Session σ ρ δ ε α}
    {f : σ → α → Session σ ρ δ ε β} {s : σ} {b : β} :
    (m.bind f).Returns serves s b ↔
      ∃ s₁ a, m.Returns serves s₁ a ∧ (f s₁ a).Returns serves s b := by
  induction m with
  | ret s₀ a₀ =>
    constructor
    · intro h
      exact ⟨s₀, a₀, ⟨rfl, rfl⟩, h⟩
    · rintro ⟨s₁, a, ⟨rfl, rfl⟩, h⟩
      exact h
  | throw e => simp [bind, Returns]
  | call s₀ req resume ih =>
    constructor
    · rintro ⟨s₁, d, hserve, h⟩
      obtain ⟨s₂, a, hfirst, hrest⟩ := (ih s₁ d).mp h
      exact ⟨s₂, a, ⟨s₁, d, hserve, hfirst⟩, hrest⟩
    · rintro ⟨s₂, a, ⟨s₁, d, hserve, hfirst⟩, hrest⟩
      exact ⟨s₁, d, hserve, (ih s₁ d).mpr ⟨s₂, a, hfirst, hrest⟩⟩

/-- Between its calls the session leaves a component of the local state alone, which is `x` at
the start. -/
def Steady {τ : Type} (f : σ → τ) : Session σ ρ δ ε α → τ → Prop
  | .ret s _, x => f s = x
  | .throw _, _ => True
  | .call s _ resume, x => f s = x ∧ ∀ s' d, (resume s' d).Steady f (f s')

theorem Steady.bind {τ : Type} {f : σ → τ} {m : Session σ ρ δ ε α}
    {g : σ → α → Session σ ρ δ ε β} {x : τ} (h : m.Steady f x)
    (hg : ∀ s a, (g s a).Steady f (f s)) : (m.bind g).Steady f x := by
  induction m generalizing x with
  | ret s a =>
    cases h
    exact hg s a
  | throw e => trivial
  | call s req resume ih => exact ⟨h.1, fun s' d => ih s' d (h.2 s' d)⟩

end Session

namespace Program

variable {σ S ρ δ ε α β : Type} {I : Interference σ S ρ δ}

theorem returns_bind {serves : σ → ρ → σ → δ → Prop} {m : Program σ ρ δ ε α}
    {f : α → Program σ ρ δ ε β} {s s' : σ} {b : β} :
    ((m >>= f) s).Returns serves s' b ↔
      ∃ s₁ a, (m s).Returns serves s₁ a ∧ (f a s₁).Returns serves s' b :=
  Session.returns_bind

theorem safe_bind {Q : σ → β → S → Prop} {m : Program σ ρ δ ε α}
    {f : α → Program σ ρ δ ε β} {s : σ} {x : S}
    (h : (m s).Safe I (fun s' a y => (f a s').Safe I Q y) x) : ((m >>= f) s).Safe I Q x :=
  Session.Safe.bind h

section Steady

variable {τ : Type} {f : σ → τ}

/-- A program is steady from any start. -/
def Steady (f : σ → τ) (m : Program σ ρ δ ε α) : Prop := ∀ s, (m s).Steady f (f s)

theorem steady_bind {m : Program σ ρ δ ε α} {g : α → Program σ ρ δ ε β} (h : m.Steady f)
    (hg : ∀ a, (g a).Steady f) : (m >>= g).Steady f :=
  fun s => Session.Steady.bind (h s) fun s' a => hg a s'

theorem steady_pure (a : α) : (pure a : Program σ ρ δ ε α).Steady f := fun _ => rfl

theorem steady_get : (get : Program σ ρ δ ε σ).Steady f := fun _ => rfl

theorem steady_modify {g : σ → σ} (h : ∀ s, f (g s) = f s) :
    (modify g : Program σ ρ δ ε Unit).Steady f := h

theorem steady_call (request : ρ) : (call request : Program σ ρ δ ε δ).Steady f :=
  fun _ => ⟨rfl, fun _ _ => rfl⟩

theorem steady_ofExcept (r : Except ε α) : (ofExcept r : Program σ ρ δ ε α).Steady f := by
  cases r with
  | ok a => exact fun _ => rfl
  | error e => exact fun _ => trivial

end Steady

end Program

end Crps
