import Mathlib.Logic.Relation

namespace Runs

variable {σ α β : Type}

/-- `Run step s as t`: the actions `as`, taken in order, lead from `s` to `t`. -/
inductive Run (step : σ → α → σ → Prop) : σ → List α → σ → Prop where
  | nil (s : σ) : Run step s [] s
  | cons {s t u : σ} {a : α} {as : List α}
      (head : step s a t) (tail : Run step t as u) : Run step s (a :: as) u

def Reachable (start : σ → Prop) (step : σ → α → σ → Prop) (s : σ) : Prop :=
  ∃ s₀ as, start s₀ ∧ Run step s₀ as s

/-- Only the steps that meet a condition on the state they leave. -/
def restrict (ok : σ → α → Prop) (step : σ → α → σ → Prop) : σ → α → σ → Prop :=
  fun s a t => ok s a ∧ step s a t

/-- What every step with one of the actions of a run preserves holds at its end. -/
theorem Run.invariant_on {step : σ → α → σ → Prop} {I : σ → Prop} {s t : σ} {as : List α}
    (h : Run step s as t) (hs : I s) (hstep : ∀ s, ∀ a ∈ as, ∀ t, I s → step s a t → I t) :
    I t := by
  induction h with
  | nil => exact hs
  | @cons s t u a as head _ ih =>
    have ht : I t := hstep s a List.mem_cons_self t hs head
    exact ih ht fun s b hb => hstep s b (List.mem_cons_of_mem a hb)

/-- What every step preserves holds at the end of every run. -/
theorem Run.invariant {step : σ → α → σ → Prop} {I : σ → Prop} {s t : σ} {as : List α}
    (h : Run step s as t) (hs : I s) (hstep : ∀ s a t, I s → step s a t → I t) : I t :=
  h.invariant_on hs fun s a _ t => hstep s a t

/-- The same of what depends on the actions taken so far. -/
theorem Run.history {step : σ → α → σ → Prop} {I : List α → σ → Prop} {s t : σ} {as : List α}
    (h : Run step s as t) (hs : I [] s)
    (hstep : ∀ before s a t, I before s → step s a t → I (before ++ [a]) t) : I as t := by
  suffices hgo : ∀ before, I before s → I (before ++ as) t from hgo [] hs
  clear hs
  induction h with
  | nil =>
    intro before hb
    rwa [List.append_nil]
  | @cons s t u a as head _ ih =>
    intro before hb
    have ht : I (before ++ [a] ++ as) u := ih _ (hstep before s a t hb head)
    rwa [List.append_assoc] at ht

theorem Run.append {step : σ → α → σ → Prop} {s t u : σ} {as bs : List α}
    (h : Run step s as t) (h' : Run step t bs u) : Run step s (as ++ bs) u := by
  induction h with
  | nil => exact h'
  | cons head _ ih => exact .cons head (ih h')

theorem Run.split {step : σ → α → σ → Prop} {s u : σ} {as bs : List α}
    (h : Run step s (as ++ bs) u) : ∃ t, Run step s as t ∧ Run step t bs u := by
  induction as generalizing s with
  | nil => exact ⟨s, .nil s, h⟩
  | cons a as ih =>
    cases h with
    | cons head tail =>
      obtain ⟨t, hs, ht⟩ := ih tail
      exact ⟨t, .cons head hs, ht⟩

theorem Reachable.start {start : σ → Prop} {step : σ → α → σ → Prop} {s : σ} (h : start s) :
    Reachable start step s :=
  ⟨s, [], h, .nil s⟩

theorem Reachable.step {start : σ → Prop} {step : σ → α → σ → Prop} {s t : σ} {a : α}
    (h : Reachable start step s) (hstep : step s a t) : Reachable start step t := by
  obtain ⟨s₀, as, hs, hr⟩ := h
  exact ⟨s₀, as ++ [a], hs, hr.append (.cons hstep (.nil t))⟩

/-- An inductive invariant holds in every reachable state. -/
theorem Reachable.invariant {start : σ → Prop} {step : σ → α → σ → Prop} {I : σ → Prop} {s : σ}
    (h : Reachable start step s) (hstart : ∀ s, start s → I s)
    (hstep : ∀ s a t, I s → step s a t → I t) : I s := by
  obtain ⟨s₀, as, hs, hr⟩ := h
  exact hr.invariant (hstart s₀ hs) hstep

theorem Run.map {step step' : σ → α → σ → Prop} (hstep : ∀ s a t, step s a t → step' s a t)
    {s t : σ} {as : List α} (h : Run step s as t) : Run step' s as t := by
  induction h with
  | nil => exact .nil _
  | cons head _ ih => exact .cons (hstep _ _ _ head) ih

/-- Each step of a system from a state that another system has is steps of that one. -/
def Simulates {τ δ : Type} (R : σ → τ → Prop) (step : σ → α → σ → Prop)
    (step' : τ → δ → τ → Prop) : Prop :=
  ∀ s a t s', R s s' → step s a t → ∃ ds t', Run step' s' ds t' ∧ R t t'

theorem Simulates.run {τ δ : Type} {R : σ → τ → Prop} {step : σ → α → σ → Prop}
    {step' : τ → δ → τ → Prop} (h : Simulates R step step') {s t : σ} {as : List α} {s' : τ}
    (hr : Run step s as t) (hs : R s s') : ∃ ds t', Run step' s' ds t' ∧ R t t' := by
  induction hr generalizing s' with
  | nil => exact ⟨[], s', .nil s', hs⟩
  | cons head _ ih =>
    obtain ⟨ds, u', hu, hR⟩ := h _ _ _ _ hs head
    obtain ⟨es, t', ht, hR'⟩ := ih hR
    exact ⟨ds ++ es, t', hu.append ht, hR'⟩

theorem Simulates.reachable {τ δ : Type} {R : σ → τ → Prop} {step : σ → α → σ → Prop}
    {step' : τ → δ → τ → Prop} (h : Simulates R step step') {start : σ → Prop} {start' : τ → Prop}
    (hstart : ∀ s, start s → ∃ s', start' s' ∧ R s s') {s : σ} (hs : Reachable start step s) :
    ∃ s', Reachable start' step' s' ∧ R s s' := by
  obtain ⟨s₀, as, hs₀, hr⟩ := hs
  obtain ⟨s₀', hs₀', hR⟩ := hstart s₀ hs₀
  obtain ⟨ds, s', hr', hR'⟩ := h.run hr hR
  exact ⟨s', ⟨s₀', ds, hs₀', hr'⟩, hR'⟩

/-- What holds of each step of all runs with the given actions; it may depend on
what was done before the step. -/
def EveryStep (step : σ → α → σ → Prop) (s : σ) (as : List α)
    (P : List α → σ → α → σ → Prop) : Prop :=
  ∀ before a after t u, as = before ++ a :: after → Run step s before t → step t a u →
    P before t a u

theorem EveryStep.congr {step : σ → α → σ → Prop} {s : σ} {as : List α}
    {P Q : List α → σ → α → σ → Prop}
    (h : ∀ before a after t u, as = before ++ a :: after → Run step s before t → step t a u →
      (P before t a u ↔ Q before t a u)) :
    EveryStep step s as P ↔ EveryStep step s as Q := by
  constructor
  · intro hp before a after t u he hr hs
    exact (h before a after t u he hr hs).mp (hp before a after t u he hr hs)
  · intro hq before a after t u he hr hs
    exact (h before a after t u he hr hs).mpr (hq before a after t u he hr hs)

/-- The steps of a system together with a history, to which each step adds the
entry that it comes to, if any. -/
def record (entry : σ → α → Option β) (step : σ → α → σ → Prop) :
    σ × List β → α → σ × List β → Prop :=
  fun x a y => step x.1 a y.1 ∧ y.2 = x.2 ++ (entry x.1 a).toList

/-- Nothing has happened yet. -/
def unrecorded (start : σ → Prop) (x : σ × List β) : Prop := start x.1 ∧ x.2 = []

theorem Reachable.of_record {start : σ → Prop} {entry : σ → α → Option β}
    {step : σ → α → σ → Prop} {x : σ × List β}
    (h : Reachable (unrecorded start) (record entry step) x) : Reachable start step x.1 :=
  h.invariant (I := fun x => Reachable start step x.1) (fun _ hx => .start hx.1)
    fun _ _ _ hx hstep => hx.step hstep.1

/-- What holds of each entry of a history and the entries before it. -/
def AtEach (P : List β → β → Prop) (history : List β) : Prop :=
  ∀ before e after, history = before ++ e :: after → P before e

theorem atEach_nil (P : List β → β → Prop) : AtEach P [] := by
  intro before e after he
  simp at he

theorem atEach_snoc (P : List β → β → Prop) (history : List β) (e : β) :
    AtEach P (history ++ [e]) ↔ AtEach P history ∧ P history e := by
  constructor
  · intro h
    refine ⟨?_, h history e [] rfl⟩
    intro before d after he
    exact h before d (after ++ [e]) (by simp [he])
  · intro h before d after he
    obtain ⟨hhist, hlast⟩ := h
    rcases List.eq_nil_or_concat after with rfl | ⟨after', c, rfl⟩
    · obtain ⟨rfl, hd⟩ := List.append_inj' he rfl
      cases hd
      exact hlast
    · have hinit : history = before ++ d :: after' := by
        have he' : history ++ [e] = (before ++ d :: after') ++ [c] := by simpa using he
        exact (List.append_inj' he' rfl).1
      exact hhist before d after' hinit

end Runs
