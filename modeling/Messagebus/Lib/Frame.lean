import Mathlib.Logic.Basic

namespace Frame

variable {ε σ α β : Type}

/-- The state in which a program ends, either way. -/
def final : EStateM.Result ε σ α → σ
  | .ok _ s => s
  | .error _ s => s

/-- A program goes on from where its first part returns. -/
theorem bind_of_ok {x : EStateM ε σ α} {f : α → EStateM ε σ β} {s t : σ} {a : α}
    (h : x s = .ok a t) : (x >>= f) s = f a t := by
  change EStateM.bind x f s = _
  unfold EStateM.bind
  rw [h]

theorem bind_of_error {x : EStateM ε σ α} {f : α → EStateM ε σ β} {s t : σ} {e : ε}
    (h : x s = .error e t) : (x >>= f) s = .error e t := by
  change EStateM.bind x f s = _
  unfold EStateM.bind
  rw [h]

/-- A property of the result that does not depend on what a program returns. -/
theorem return_iff {P : EStateM.Result ε σ α → Prop} {Q : EStateM.Result ε σ β → Prop}
    (x : EStateM ε σ α) (f : α → β) (s : σ) (hok : ∀ a t, Q (.ok (f a) t) ↔ P (.ok a t))
    (herror : ∀ e t, Q (.error e t) ↔ P (.error e t)) :
    Q ((do return f (← x) : EStateM ε σ β) s) ↔ P (x s) := by
  cases hx : x s with
  | ok a t =>
    rw [bind_of_ok hx]
    exact hok a t
  | error e t =>
    rw [bind_of_error hx]
    exact herror e t

/-- A relation between an earlier and a later state that doing nothing meets
and that survives doing one thing after another. -/
structure Footprint (σ : Type) where
  rel : σ → σ → Prop
  refl : ∀ s, rel s s
  trans : ∀ s t u, rel s t → rel t u → rel s u

/-- The footprint of leaving an observation of the state as it is. -/
def Footprint.same (f : σ → β) : Footprint σ :=
  ⟨fun s t => f t = f s, fun _ => rfl, fun _ _ _ h h' => h'.trans h⟩

def Keeps (F : Footprint σ) (x : EStateM ε σ α) : Prop := ∀ s, F.rel s (final (x s))

variable {F : Footprint σ}

theorem keeps_pure (a : α) : Keeps F (pure a : EStateM ε σ α) := F.refl

theorem keeps_throw (e : ε) : Keeps F (throw e : EStateM ε σ α) := F.refl

theorem keeps_get : Keeps F (get : EStateM ε σ σ) := F.refl

theorem keeps_modify {f : σ → σ} (h : ∀ s, F.rel s (f s)) :
    Keeps F (modify f : EStateM ε σ PUnit) := h

theorem keeps_bind {x : EStateM ε σ α} {f : α → EStateM ε σ β}
    (hx : Keeps F x) (hf : ∀ a, Keeps F (f a)) : Keeps F (x >>= f) := by
  intro s
  have h := hx s
  cases hr : x s with
  | ok a t =>
    rw [hr] at h
    rw [bind_of_ok hr]
    exact F.trans _ _ _ h (hf a t)
  | error e t =>
    rw [hr] at h
    rw [bind_of_error hr]
    exact h

theorem keeps_ite {c : Prop} [Decidable c] {x y : EStateM ε σ α}
    (hx : Keeps F x) (hy : Keeps F y) : Keeps F (if c then x else y) := by
  split
  · exact hx
  · exact hy

/-- An optional first part, as `do` notation leaves it. -/
theorem keeps_when {c : Prop} [Decidable c] {x : EStateM ε σ Unit} {k : Unit → EStateM ε σ β}
    (hx : Keeps F x) (hk : ∀ u, Keeps F (k u)) : Keeps F (if c then x >>= k else k ()) :=
  keeps_ite (keeps_bind hx hk) (hk ())

end Frame
