import Messagebus.Proofs.Offload
import Messagebus.Proofs.Progress
import Messagebus.WorkUnits

namespace Messagebus.Proofs.Futures
open Messagebus.Pool CondVar Runs Proofs.Pool Proofs.PoolBooks Proofs.Offload Proofs.Progress

variable {n : ℕ} {φ σ ε ρ : Type} {call : φ → EStateM ε σ ρ} {p q : TaskPool n φ σ ε ρ}

/-- The callable of a job of `schedule`. -/
def scheduled? (job : Job (WorkUnit φ)) : Option φ :=
  match job.work with
  | .packagedTask fn => some fn
  | .bound _ => none

/-- What a call comes to. -/
def outcome : EStateM.Result ε σ ρ → Except ε ρ
  | .ok value _ => .ok value
  | .error what _ => .error what

/-- No future is ready before a job has run. -/
def Fresh (p : TaskPool n φ σ ε ρ) : Prop := ∃ state, p = .new n ⟨state, []⟩

theorem Fresh.start (h : Fresh p) : p.Start := by
  obtain ⟨state, rfl⟩ := h
  exact ⟨_, rfl⟩

/-- A job that has come to its end leaves a future if it is one of `schedule`. -/
theorem run_futures {job : Job (WorkUnit φ)} {tasks tasks' : Tasks φ σ ε ρ}
    (h : job.work.run call tasks = some tasks') :
    tasks'.futures = tasks.futures ++
      ((scheduled? job).map fun fn => (fn, outcome (call fn tasks.state))).toList := by
  unfold scheduled?
  unfold WorkUnit.run at h
  cases hw : job.work with
  | packagedTask fn =>
    rw [hw] at h
    cases hc : call fn tasks.state with
    | ok value state =>
      simp only [WorkUnit.fn, hc] at h
      cases h
      simp [hc, outcome]
    | error what state =>
      simp only [WorkUnit.fn, hc] at h
      cases h
      simp [hc, outcome]
  | bound fn =>
    rw [hw] at h
    cases hc : call fn tasks.state with
    | ok value state =>
      simp only [WorkUnit.fn, hc] at h
      cases h
      exact (List.append_nil _).symm
    | error what state =>
      simp only [WorkUnit.fn, hc] at h
      cases h

/-- The futures that are ready belong to the jobs of `schedule` that are finished. -/
def Ready (call : φ → EStateM ε σ ρ) (p : TaskPool n φ σ ε ρ) : Prop :=
  p.shared.futures.map Prod.fst = p.finished.filterMap scheduled? ∧
    ∀ future ∈ p.shared.futures, ∃ state, future.2 = outcome (call future.1 state)

theorem Ready.ran {job : Job (WorkUnit φ)} {tasks : Tasks φ σ ε ρ} (hp : Ready call p)
    (h : job.work.run call p.shared = some tasks) (hs : q.shared = tasks)
    (hf : q.finished = p.finished ++ [job]) : Ready call q := by
  obtain ⟨hready, hheld⟩ := hp
  have hfutures := run_futures h
  refine ⟨?_, ?_⟩
  · rw [hs, hf, hfutures, List.map_append, hready, List.filterMap_append]
    cases hc : scheduled? job with
    | none => simp [hc]
    | some fn => simp [hc]
  · intro future hm
    rw [hs, hfutures] at hm
    rcases List.mem_append.mp hm with hm | hm
    · exact hheld future hm
    · obtain ⟨fn, _, rfl⟩ := Option.map_eq_some_iff.mp (Option.mem_toList.mp hm)
      exact ⟨_, rfl⟩

theorem Ready.change (hp : Ready call p) (h : Change (WorkUnit.run call) p q) :
    Ready call q := by
  cases h with
  | @runInline work shared unmanned live returns =>
    have hr : (p.nextJob work).work.run call p.shared = some shared := returns
    exact hp.ran hr rfl rfl
  | finish runs returns => exact hp.ran returns rfl rfl
  | _ => exact hp

end Messagebus.Proofs.Futures
