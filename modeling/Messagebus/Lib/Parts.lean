import Mathlib.Data.List.Basic

namespace Parts

variable {τ ι ρ δ : Type}

/-- The outputs of a machine, each beside its input, and the state it comes to. -/
def run (step : τ → ι → ρ × τ) : τ → List ι → List (ι × ρ) × τ
  | t, [] => ([], t)
  | t, x :: xs =>
    let y := step t x
    let rest := run step y.2 xs
    ((x, y.1) :: rest.1, rest.2)

@[simp] theorem run_nil (step : τ → ι → ρ × τ) (t : τ) : run step t [] = ([], t) := rfl

@[simp] theorem run_cons (step : τ → ι → ρ × τ) (t : τ) (x : ι) (xs : List ι) :
    run step t (x :: xs) =
      ((x, (step t x).1) :: (run step (step t x).2 xs).1, (run step (step t x).2 xs).2) := rfl

/-- What every input preserves holds at the end. -/
theorem run_invariant {step : τ → ι → ρ × τ} {I : τ → Prop} (hstep : ∀ t x, I t → I (step t x).2)
    {t : τ} (ht : I t) (xs : List ι) : I (run step t xs).2 := by
  induction xs generalizing t with
  | nil => exact ht
  | cons x xs ih => exact ih (hstep t x ht)

/-- What holds of every output in the states that a machine stays in. -/
theorem run_outputs {step : τ → ι → ρ × τ} {I : τ → Prop} {P : ι → ρ → Prop}
    (hstep : ∀ t x, I t → I (step t x).2) (hout : ∀ t x, I t → P x (step t x).1) {t : τ} (ht : I t)
    (xs : List ι) : ∀ y ∈ (run step t xs).1, P y.1 y.2 := by
  induction xs generalizing t with
  | nil => simp
  | cons x xs ih =>
    intro y hy
    rw [run_cons] at hy
    rcases List.mem_cons.mp hy with rfl | hy
    · exact hout t x ht
    · exact ih (hstep t x ht) y hy

/-- Each input has an owner, whose part alone makes the output; to the other parts
nothing happens. -/
structure Apart {σ : δ → Type} (I : τ → Prop) (step : τ → ι → ρ × τ) (owner : ι → δ)
    (view : (d : δ) → τ → σ d) (part : (d : δ) → σ d → ι → ρ × σ d) : Prop where
  keeps : ∀ t x, I t → I (step t x).2
  own : ∀ t x, I t →
    part (owner x) (view (owner x) t) x = ((step t x).1, view (owner x) (step t x).2)
  others : ∀ t x d, I t → owner x ≠ d → view d (step t x).2 = view d t

/-- Each part does what it does by itself on the inputs that it owns. -/
theorem Apart.run [DecidableEq δ] {σ : δ → Type} {I : τ → Prop} {step : τ → ι → ρ × τ}
    {owner : ι → δ} {view : (d : δ) → τ → σ d} {part : (d : δ) → σ d → ι → ρ × σ d}
    (h : Apart I step owner view part) {t : τ} (ht : I t) (xs : List ι) (d : δ) :
    Parts.run (part d) (view d t) (xs.filter fun x => owner x = d) =
      ((Parts.run step t xs).1.filter (fun y => owner y.1 = d),
        view d (Parts.run step t xs).2) := by
  induction xs generalizing t with
  | nil => rfl
  | cons x xs ih =>
    have hrest := ih (h.keeps t x ht)
    by_cases hd : owner x = d
    · subst hd
      simp [h.own t x ht, hrest]
    · rw [h.others t x d ht hd] at hrest
      simp [hd, hrest]

end Parts
