import Messagebus.Lib.Ledger
import Messagebus.Proofs.Pool

namespace Messagebus.Proofs.PoolBooks
open Messagebus.Pool CondVar Runs Proofs.Pool

variable {n : ℕ} {ω σ : Type} {run : ω → σ → Option σ} {p q : Pool n ω σ}

/-- The ledger that a pool stands for. -/
structure Books (p : Pool n ω σ) (l : Ledger (Job ω)) : Prop where
  accepted : l.accepted = p.accepted
  pending : l.pending = p.jobs
  started : l.started = p.started
  running : l.running = p.inFlight
  finished : l.finished = p.finished

theorem new_books (shared : σ) : Books (new n shared : Pool n ω σ) .empty where
  accepted := rfl
  pending := rfl
  started := rfl
  running := by simp [Ledger.empty, inFlight, new, Worker.job]
  finished := rfl

/-- A worker that goes on takes what it runs out of flight and puts what it runs
next in. -/
theorem inFlight_update (p : Pool n ω σ) (w : Fin n) (worker : Worker ω)
    (hq : q.workers = Function.update p.workers w worker) :
    q.inFlight + (p.workers w).job = p.inFlight + worker.job := by
  unfold inFlight
  rw [hq]
  exact Ledger.sum_update Worker.job p.workers w worker

theorem AtWork.idle {w : Fin n} (h : AtWork p w) : (p.workers w).job = 0 := by
  rcases h with ⟨ht, _⟩ | hr
  · rw [ht]
    rfl
  · rw [hr]
    rfl

theorem inFlight_start {w : Fin n} {job : Job ω} {jobs : List (Job ω)} (h : AtWork p w) :
    (p.start w job jobs).inFlight = p.inFlight + {job} := by
  have hu := inFlight_update (q := p.start w job jobs) p w (.running job) rfl
  rw [AtWork.idle h, add_zero] at hu
  exact hu

theorem inFlight_move {w : Fin n} {worker : Worker ω} (h : AtWork p w) (hw : worker.job = 0) :
    (p.move w worker).inFlight = p.inFlight := by
  have hu := inFlight_update (q := p.move w worker) p w worker rfl
  rw [AtWork.idle h, hw, add_zero, add_zero] at hu
  exact hu

theorem inFlight_finish {w : Fin n} {job : Job ω} {shared : σ}
    (h : p.workers w = .running job) :
    p.inFlight = (p.finish w job shared).inFlight + {job} := by
  have hu := inFlight_update (q := p.finish w job shared) p w .relock rfl
  rw [h, show (Worker.relock : Worker ω).job = 0 from rfl, add_zero] at hu
  exact hu.symm

/-- Every change of the pool is one of the ledger, or none, or for a pool without
workers the three in a row. -/
theorem books_change {l : Ledger (Job ω)} (hb : Books p l) (hg : Guarded p)
    (h : Change run p q) : ∃ l', Books q l' := by
  obtain ⟨ha, hp, hs, hr, hf⟩ := hb
  cases h with
  | nothing => exact ⟨l, ha, hp, hs, hr, hf⟩
  | abort runs throws => exact ⟨l, ha, hp, hs, hr, hf⟩
  | spurious => exact ⟨l, ha, hp, hs, hr, hf⟩
  | terminate => exact ⟨l, ha, hp, hs, hr, hf⟩
  | wait top drained live => exact ⟨l, ha, hp, hs, hr, hf⟩
  | @runInline work shared unmanned live returns =>
    have hj : l.pending = [] := hp.trans (hg.unmanned unmanned)
    have hq : (l.accept (p.nextJob work)).pending = p.nextJob work :: [] := by
      simp [Ledger.accept, hj]
    refine ⟨((l.accept _).start _ [] hq).finish (p.nextJob work) l.running rfl, ?_⟩
    refine ⟨?_, ?_, ?_, hr, ?_⟩
    · exact congrArg (· ++ [p.nextJob work]) ha
    · exact (hg.unmanned unmanned).symm
    · exact congrArg (· ++ [p.nextJob work]) hs
    · exact congrArg (· ++ [p.nextJob work]) hf
  | @enqueue work W manned live notify =>
    refine ⟨l.accept (p.nextJob work), ?_, ?_, hs, hr, hf⟩
    · exact congrArg (· ++ [p.nextJob work]) ha
    · exact congrArg (· ++ [p.nextJob work]) hp
  | @start w job jobs atWork queued =>
    refine ⟨l.start job jobs (hp.trans queued), ha, rfl, ?_, ?_, hf⟩
    · exact congrArg (· ++ [job]) hs
    · rw [inFlight_start atWork, ← hr]
      rfl
  | leave atWork drained terminated =>
    exact ⟨l, ha, hp, hs, hr.trans (inFlight_move atWork rfl).symm, hf⟩
  | back atWork drained live =>
    exact ⟨l, ha, hp, hs, hr.trans (inFlight_move atWork rfl).symm, hf⟩
  | @finish w job shared runs returns =>
    refine ⟨l.finish job (p.finish w job shared).inFlight (hr.trans (inFlight_finish runs)),
      ha, hp, hs, rfl, ?_⟩
    exact congrArg (· ++ [job]) hf

theorem reachable_books (h : Reachable Start (Step run) p) : ∃ l, Books p l := by
  have hb : Guarded p ∧ ∃ l, Books p l := by
    refine h.invariant (I := fun p => Guarded p ∧ ∃ l, Books p l) ?_ ?_
    · intro p hp
      obtain ⟨shared, rfl⟩ := hp
      exact ⟨new_guarded shared, _, new_books shared⟩
    · intro p a q hi hs
      obtain ⟨hg, l, hb⟩ := hi
      exact ⟨hg.step hs, books_change hb hg (section_change hs.2)⟩
  exact hb.2

/-- Tickets are handed out in order. -/
def Numbered (p : Pool n ω σ) : Prop :=
  p.accepted.map Job.ticket = List.range p.accepted.length

theorem Numbered.accept (hp : Numbered p) {work : ω}
    (hq : q.accepted = p.accepted ++ [p.nextJob work]) : Numbered q := by
  unfold Numbered at hp ⊢
  rw [hq, List.map_append, hp, List.length_append, List.length_singleton, List.range_succ]
  rfl

theorem reachable_numbered (h : Reachable Start (Step run) p) : Numbered p := by
  refine h.invariant ?_ ?_
  · intro p hp
    obtain ⟨shared, rfl⟩ := hp
    rfl
  · intro p a q hi hs
    cases section_change hs.2 with
    | runInline => exact hi.accept rfl
    | enqueue => exact hi.accept rfl
    | _ => exact hi

theorem times_of_nodup {jobs : List (Job ω)} (h : (jobs.map Job.ticket).Nodup) (ticket : ℕ) :
    times jobs ticket ≤ 1 := by
  have hc := List.nodup_iff_count_le_one.mp h ticket
  rw [List.count, List.countP_map] at hc
  exact le_of_eq_of_le (List.countP_congr (by simp)) hc

/-- With all workers gone nothing is in flight. -/
theorem AllExited.inFlight (h : AllExited p) : p.inFlight = 0 :=
  Finset.sum_eq_zero fun w _ => by
    rw [h w]
    rfl

/-- The books of a pool that can be destroyed are settled. -/
theorem settled_perm (h : Reachable Start (Step run) p) (hj : p.jobs = []) (hx : AllExited p) :
    p.finished.Perm p.accepted := by
  obtain ⟨l, hb⟩ := reachable_books h
  have hs := l.settled (hb.pending.trans hj) (hb.running.trans (AllExited.inFlight hx))
  rwa [hb.finished, hb.accepted] at hs

theorem accepted_once (h : Reachable Start (Step run) p) {job : Job ω} (hm : job ∈ p.accepted) :
    times p.accepted job.ticket = 1 := by
  apply le_antisymm
  · apply times_of_nodup
    rw [reachable_numbered h]
    exact List.nodup_range
  · exact List.countP_pos_iff.mpr ⟨job, hm, decide_eq_true rfl⟩

/-- A pool with workers accepts jobs until it is terminated, starts none of them
twice, and has run each of them exactly once when its destructor returns. -/
theorem jobs_run_exactly_once (hn : 0 < n) (h : Reachable Start (Step run) p) :
    (∀ work, (∃ q, scheduleWork run work p = .ok () q ∧
        q.accepted = p.accepted ++ [p.nextJob work]) ↔ p.terminated = false) ∧
      (∀ job ∈ p.accepted, times p.started job.ticket ≤ 1) ∧
      (AllExited p → p.jobs = [] ∧
        ∀ job ∈ p.accepted, job ∈ p.finished ∧ times p.finished job.ticket = 1) := by
  refine ⟨?_, ?_, ?_⟩
  · intro work
    constructor
    · intro h
      obtain ⟨q, hq, _⟩ := h
      exact scheduleWork_live hq
    · intro hl
      exact ⟨_, scheduleWork_enqueue run work hn hl, rfl⟩
  · intro job hm
    obtain ⟨l, hb⟩ := reachable_books h
    have hs : p.started <+: p.accepted := by
      have hs := l.started_prefix
      rwa [hb.started, hb.accepted] at hs
    exact (hs.sublist.countP_le (p := _)).trans (accepted_once h hm).le
  · intro hx
    have hj : p.jobs = [] := ((reachable_guarded h).gone ⟨0, hn⟩ (hx _)).2
    have hp := settled_perm h hj hx
    refine ⟨hj, ?_⟩
    intro job hm
    exact ⟨hp.mem_iff.mpr hm, (hp.countP_eq _).trans (accepted_once h hm)⟩

theorem one_job_runs_exactly_once :
    ∃ p : Pool 1 Unit ℕ, p.jobs = [] ∧ (⟨0, ()⟩ : Job Unit) ∈ p.finished ∧
      times p.finished 0 = 1 := by
  let run : Unit → ℕ → Option ℕ := fun _ shared => some (shared + 1)
  let p₁ : Pool 1 Unit ℕ := (new 1 0).check 0
  let p₂ : Pool 1 Unit ℕ := { p₁.enqueue () with waitSet := p₁.waitSet.erase 0 }
  let p₃ := p₂.check 0
  let p₄ := p₃.finish 0 ⟨0, ()⟩ 1
  let p₅ := p₄.terminate
  let p₆ := p₅.drain 0
  have hrun : Run (Step run) (new 1 0)
      [.check 0, .schedule (), .check 0, .finish 0, .terminate, .relock 0] p₆ := by
    refine .cons (t := p₁) ⟨rfl, .check rfl (by decide)⟩ ?_
    refine .cons (t := p₂) ⟨rfl, .enqueue (q := p₁.enqueue ()) Nat.one_pos rfl
      (Or.inr ⟨0, by decide, rfl⟩)⟩ ?_
    refine .cons (t := p₃) ⟨rfl, .check rfl (by decide)⟩ ?_
    refine .cons (t := p₄) ⟨rfl, .finish rfl rfl⟩ ?_
    refine .cons (t := p₅) ⟨rfl, .terminate Nat.one_pos⟩ ?_
    exact .cons (t := p₆) ⟨rfl, .relock rfl⟩ (.nil _)
  obtain ⟨_, _, hx⟩ := jobs_run_exactly_once Nat.one_pos ⟨_, _, ⟨0, rfl⟩, hrun⟩
  obtain ⟨hj, hm⟩ := hx fun w => by rw [Subsingleton.elim w 0]; rfl
  exact ⟨p₆, hj, hm ⟨0, ()⟩ (by decide)⟩

end Messagebus.Proofs.PoolBooks
