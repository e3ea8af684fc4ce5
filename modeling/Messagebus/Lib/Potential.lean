import Mathlib.Algebra.GroupWithZero.Nat
import Mathlib.Algebra.Order.BigOperators.Group.Finset
import Messagebus.Lib.Runs

namespace Runs

variable {σ α : Type} {step : σ → α → σ → Prop} {φ : σ → ℕ} {work cost : α → ℕ}

/-- What a step does is paid for by what it costs or by a potential that it uses up. -/
def Pays (step : σ → α → σ → Prop) (φ : σ → ℕ) (work cost : α → ℕ) : Prop :=
  ∀ s a t, step s a t → φ t + work a ≤ φ s + cost a

/-- Over a whole run the potential is used up once. -/
theorem Pays.run (h : Pays step φ work cost) {s t : σ} {as : List α} (hr : Run step s as t) :
    φ t + (as.map work).sum ≤ φ s + (as.map cost).sum := by
  induction hr with
  | nil => exact le_refl _
  | @cons s t u a as head _ ih =>
    have hs := h s a t head
    rw [List.map_cons, List.map_cons, List.sum_cons, List.sum_cons]
    omega

/-- Each step uses potential up. -/
def Wanes (step : σ → α → σ → Prop) (φ : σ → ℕ) : Prop := ∀ s a t, step s a t → φ t < φ s

theorem Wanes.length_le (h : Wanes step φ) {s t : σ} {as : List α} (hr : Run step s as t) :
    φ t + as.length ≤ φ s := by
  induction hr with
  | nil => exact le_refl _
  | @cons s t u a as head _ ih =>
    have hs := h s a t head
    rw [List.length_cons]
    omega

/-- From everywhere there is a run that cannot be continued. -/
theorem Wanes.ends (h : Wanes step φ) (s : σ) :
    ∃ as t, Run step s as t ∧ ∀ a u, ¬ step t a u := by
  induction hn : φ s using Nat.strong_induction_on generalizing s with
  | _ n ih =>
    subst hn
    by_cases hstuck : ∃ a t, step s a t
    · obtain ⟨a, t, hs⟩ := hstuck
      obtain ⟨as, u, hr, hu⟩ := ih (φ t) (h s a t hs) t rfl
      exact ⟨a :: as, u, .cons hs hr, hu⟩
    · exact ⟨[], s, .nil s, fun a u hs => hstuck ⟨a, u, hs⟩⟩

/-- A sum of which one term changes. -/
theorem sum_change_le {ι : Type} [DecidableEq ι] {A : Finset ι} {f g : ι → ℕ} {i : ι} {m k : ℕ}
    (hmem : i ∈ A) (hothers : ∀ j, j ≠ i → g j ≤ f j) (hi : g i + m ≤ f i + k) :
    ∑ j ∈ A, g j + m ≤ ∑ j ∈ A, f j + k := by
  have hrest : ∑ j ∈ A.erase i, g j ≤ ∑ j ∈ A.erase i, f j :=
    Finset.sum_le_sum fun j hj => hothers j (Finset.ne_of_mem_erase hj)
  rw [← Finset.add_sum_erase A g hmem, ← Finset.add_sum_erase A f hmem]
  omega

end Runs
