import Messagebus.Proofs.PoolBooks
import Messagebus.WorkUnits

namespace Messagebus.Proofs.WorkUnits
open Messagebus.Pool CondVar Runs Proofs.Pool Proofs.PoolBooks

variable {n : ℕ} {φ σ ε ρ : Type} {call : φ → EStateM ε σ ρ} {p q : TaskPool n φ σ ε ρ}
  {history : List (Ran φ)}

/-- An exception escapes from a unit of work exactly if its callable throws and is
not packaged. -/
theorem run_eq_none_iff (work : WorkUnit φ) (tasks : Tasks φ σ ε ρ) :
    work.run call tasks = none ↔ work.throws call tasks = true ∧ work = .bound work.fn := by
  unfold WorkUnit.run WorkUnit.throws
  cases work with
  | packagedTask fn => cases call (WorkUnit.packagedTask fn).fn tasks.state <;> simp [WorkUnit.fn]
  | bound fn => cases call (WorkUnit.bound fn).fn tasks.state <;> simp [WorkUnit.fn]

/-- The steps with which a pool is given work are the calls of `schedule` and `offload`:
those that return, with their notification if there are workers, and those that throw. -/
theorem submit_step (work : WorkUnit φ) :
    Step (WorkUnit.run call) p (.schedule work) q ↔ p.aborted = false ∧
      ((∃ r, TaskPool.submit call work p = .ok () r ∧
        (n = 0 ∧ q = r ∨ 0 < n ∧ ∃ W, NotifyOne r.waitSet W ∧ q = { r with waitSet := W })) ∨
        ∃ fault, TaskPool.submit call work p = .error fault q) := by
  have hsubmit : TaskPool.submit call work p = scheduleWork (WorkUnit.run call) work p := by
    cases work with
    | packagedTask fn => rfl
    | bound fn => rfl
  rw [hsubmit]
  constructor
  · rintro ⟨hlive, hsection⟩
    refine ⟨hlive, ?_⟩
    cases hsection with
    | runInline unmanned returns => exact Or.inl ⟨q, returns, Or.inl ⟨unmanned, rfl⟩⟩
    | enqueue manned returns notify =>
      exact Or.inl ⟨_, returns, Or.inr ⟨manned, _, notify, rfl⟩⟩
    | refuse throws => exact Or.inr ⟨_, throws⟩
  · rintro ⟨hlive, ⟨r, returns, ⟨unmanned, rfl⟩ | ⟨manned, W, notify, rfl⟩⟩ | ⟨fault, throws⟩⟩
    · exact ⟨hlive, .runInline unmanned returns⟩
    · exact ⟨hlive, .enqueue manned returns notify⟩
    · exact ⟨hlive, .refuse throws⟩

/-- The jobs that were run, in the order in which they came to their end. -/
def jobsRun (history : List (Ran φ)) : List (Job (WorkUnit φ)) := history.map Ran.job

/-- A job that is not packaged has thrown. -/
def Escaped (history : List (Ran φ)) : Prop :=
  ∃ r ∈ history, r.threw = true ∧ r.job.work = .bound r.job.work.fn

/-- What the history tells: until an exception escapes, which jobs are finished. -/
structure Told (p : TaskPool n φ σ ε ρ) (history : List (Ran φ)) : Prop where
  alive : p.aborted = false → jobsRun history = p.finished
  escaped : p.aborted = true ↔ Escaped history

theorem escaped_snoc (r : Ran φ) :
    Escaped (history ++ [r]) ↔
      Escaped history ∨ r.threw = true ∧ r.job.work = .bound r.job.work.fn := by
  unfold Escaped
  simp only [List.mem_append, List.mem_singleton, or_and_right, exists_or, exists_eq_left]

/-- A job that a worker has run comes on the record. -/
theorem ran_finish {w : Fin n} {job : Job (WorkUnit φ)} (runs : p.workers w = .running job) :
    ran call p (.finish w) = some ⟨job, job.work.throws call p.shared⟩ := by
  simp [ran, runs]

/-- Looking for the next job finishes none. -/
theorem drain_ends (p : TaskPool n φ σ ε ρ) (w : Fin n) :
    (p.drain w).finished = p.finished ∧ (p.drain w).aborted = p.aborted := by
  unfold drain
  split
  · exact ⟨rfl, rfl⟩
  · exact ⟨rfl, rfl⟩

theorem check_ends (p : TaskPool n φ σ ε ρ) (w : Fin n) :
    (p.check w).finished = p.finished ∧ (p.check w).aborted = p.aborted := by
  unfold Pool.check
  split
  · exact drain_ends p w
  · exact ⟨rfl, rfl⟩

theorem Told.step {a : PoolAction n (WorkUnit φ)} (ht : Told p history) (hn : 0 < n)
    (h : Step (WorkUnit.run call) p a q) : Told q (history ++ (ran call p a).toList) := by
  obtain ⟨hlive, hsection⟩ := h
  have hnot : ¬ Escaped history := by
    rw [← ht.escaped, hlive]
    exact Bool.false_ne_true
  have hrun := ht.alive hlive
  -- Any other step leaves the finished jobs and the process as they are.
  have hquiet : ran call p a = none → q.finished = p.finished → q.aborted = p.aborted →
      Told q (history ++ (ran call p a).toList) := by
    intro hr hf hq
    rw [hr, Option.toList_none, List.append_nil]
    refine ⟨fun _ => by rw [hf, hrun], ?_⟩
    rw [hq]
    exact ht.escaped
  cases hsection with
  | runInline unmanned returns => exact absurd unmanned hn.ne'
  | enqueue manned returns notify =>
    have hl := scheduleWork_live returns
    rw [scheduleWork_enqueue _ _ manned hl] at returns
    cases returns
    exact hquiet rfl rfl rfl
  | refuse throws =>
    rw [scheduleWork_throws throws] at hquiet ⊢
    exact hquiet rfl rfl rfl
  | check top awake => exact hquiet rfl (check_ends p _).1 (check_ends p _).2
  | @finish w job shared runs returns =>
    rw [ran_finish runs, Option.toList_some]
    constructor
    · intro _
      rw [jobsRun, List.map_append, ← jobsRun, hrun]
      rfl
    · change p.aborted = true ↔ _
      rw [escaped_snoc, ← ht.escaped, ← run_eq_none_iff, returns]
      simp
  | @escape w job runs throws =>
    rw [ran_finish runs, Option.toList_some]
    constructor
    · intro hq
      cases hq
    · refine iff_of_true rfl (escaped_snoc _ |>.mpr (Or.inr ?_))
      exact (run_eq_none_iff job.work p.shared).mp throws
  | relock back => exact hquiet rfl (drain_ends p _).1 (drain_ends p _).2
  | spurious waits => exact hquiet rfl rfl rfl
  | terminate manned => exact hquiet rfl rfl rfl

section Reachable

variable (hn : 0 < n)
  (h : Reachable (unrecorded Start) (record (ran call) (Step (WorkUnit.run call))) (p, history))

include hn h

theorem reachable_told : Told p history := by
  refine h.invariant (I := fun x => Told x.1 x.2) ?_ ?_
  · intro x hx
    obtain ⟨⟨shared, hp⟩, hempty⟩ := hx
    rw [hp, hempty]
    refine ⟨fun _ => rfl, ?_⟩
    simp [Escaped, new]
  · intro x a y hx hstep
    have ht := hx.step hn hstep.1
    rwa [hstep.2]

end Reachable

/-- No exception has left a worker; when the destructor returns, every job that was
accepted has been run exactly once; and none that threw is run again. -/
structure Contained (p : TaskPool n φ σ ε ρ) (history : List (Ran φ)) : Prop where
  alive : p.aborted = false
  others : p.AllExited → ∀ job ∈ p.accepted, times (jobsRun history) job.ticket = 1
  once : ∀ r ∈ history, r.threw = true → times (jobsRun history) r.job.ticket = 1

/-- A job is finished at most once. -/
theorem finished_once (h : Reachable Start (Step (WorkUnit.run call)) p)
    {job : Job (WorkUnit φ)} (hm : job ∈ p.finished) : times p.finished job.ticket = 1 := by
  obtain ⟨l, hb⟩ := reachable_books h
  have hsub : p.finished.Subperm p.accepted := by
    have hfs : (p.finished : Multiset (Job (WorkUnit φ))) ≤ p.started := by
      rw [← hb.finished, ← hb.started, l.flight]
      exact Multiset.le_add_right _ _
    have hsa : p.started <+: p.accepted := by
      rw [← hb.started, ← hb.accepted]
      exact l.started_prefix
    exact (Multiset.coe_le.mp hfs).trans hsa.sublist.subperm
  apply le_antisymm
  · exact (hsub.countP_le _).trans (accepted_once h (hsub.subset hm)).le
  · exact List.countP_pos_iff.mpr ⟨job, hm, decide_eq_true rfl⟩

/-- Jobs that throw leave the others alone exactly as long as none of those that were
offloaded throws. -/
theorem contained_iff (hn : 0 < n)
    (h : Reachable (unrecorded Start) (record (ran call) (Step (WorkUnit.run call)))
      (p, history)) :
    Contained p history ↔
      ∀ r ∈ history, r.threw = true → ∃ fn, r.job.work = .packagedTask fn := by
  have ht := reachable_told hn h
  have hp : Reachable Start (Step (WorkUnit.run call)) p := h.of_record
  constructor
  · intro hc r hr hthrew
    cases hw : r.job.work with
    | packagedTask fn => exact ⟨fn, rfl⟩
    | bound fn =>
      have he : Escaped history := ⟨r, hr, hthrew, by rw [hw]; rfl⟩
      rw [← ht.escaped, hc.alive] at he
      cases he
  · intro hall
    have halive : p.aborted = false := by
      rw [← Bool.not_eq_true, ht.escaped]
      intro he
      obtain ⟨r, hr, hthrew, hbound⟩ := he
      obtain ⟨fn, hfn⟩ := hall r hr hthrew
      rw [hfn] at hbound
      cases hbound
    have hrun := ht.alive halive
    refine ⟨halive, ?_, ?_⟩
    · intro hx job hm
      have hj : p.jobs = [] := ((reachable_guarded hp).gone ⟨0, hn⟩ (hx _)).2
      rw [hrun]
      exact ((settled_perm hp hj hx).countP_eq _).trans (accepted_once hp hm)
    · intro r hr _
      rw [hrun]
      apply finished_once hp
      rw [← hrun]
      exact List.mem_map_of_mem hr

/-- Counts its calls, and throws if it is told to. -/
def counting (fails : Bool) : EStateM Unit ℕ Unit := fun count =>
  if fails then .error () (count + 1) else .ok () (count + 1)

theorem scheduled_throw_contained :
    ∃ (p : TaskPool 1 Bool ℕ Unit Unit) (history : List (Ran Bool)),
      p.AllExited ∧ Contained p history ∧
        history = [⟨⟨0, .packagedTask true⟩, true⟩, ⟨⟨1, .bound false⟩, false⟩] := by
  let p₀ : TaskPool 1 Bool ℕ Unit Unit := new 1 ⟨0, []⟩
  let p₁ := { p₀.enqueue (.packagedTask true) with waitSet := ∅ }
  let p₂ := { p₁.enqueue (.bound false) with waitSet := ∅ }
  let p₃ := p₂.check 0
  let p₄ := p₃.finish 0 ⟨0, .packagedTask true⟩ ⟨1, [(true, .error ())]⟩
  let p₅ := p₄.drain 0
  let p₆ := p₅.finish 0 ⟨1, .bound false⟩ ⟨2, [(true, .error ())]⟩
  let p₇ := p₆.terminate
  let p₈ := p₇.drain 0
  let first : Ran Bool := ⟨⟨0, .packagedTask true⟩, true⟩
  let second : Ran Bool := ⟨⟨1, .bound false⟩, false⟩
  have hrun : Run (record (ran counting) (Step (WorkUnit.run counting))) (p₀, [])
      [.schedule (.packagedTask true), .schedule (.bound false), .check 0, .finish 0, .relock 0,
        .finish 0, .terminate, .relock 0] (p₈, [first, second]) := by
    have hfirst : TaskPool.schedule counting true p₀ = .ok () (p₀.enqueue (.packagedTask true)) := rfl
    have hsecond : TaskPool.offload counting false p₁ = .ok () (p₁.enqueue (.bound false)) := rfl
    refine .cons (t := (p₁, [])) ⟨⟨rfl, .enqueue Nat.one_pos hfirst (Or.inl ⟨rfl, rfl⟩)⟩, rfl⟩ ?_
    refine .cons (t := (p₂, [])) ⟨⟨rfl, .enqueue Nat.one_pos hsecond (Or.inl ⟨rfl, rfl⟩)⟩, rfl⟩ ?_
    refine .cons (t := (p₃, [])) ⟨⟨rfl, .check rfl (by decide)⟩, rfl⟩ ?_
    refine .cons (t := (p₄, [first])) ⟨⟨rfl, .finish rfl rfl⟩, rfl⟩ ?_
    refine .cons (t := (p₅, [first])) ⟨⟨rfl, .relock rfl⟩, rfl⟩ ?_
    refine .cons (t := (p₆, [first, second])) ⟨⟨rfl, .finish rfl rfl⟩, rfl⟩ ?_
    refine .cons (t := (p₇, [first, second])) ⟨⟨rfl, .terminate Nat.one_pos⟩, rfl⟩ ?_
    exact .cons (t := (p₈, [first, second])) ⟨⟨rfl, .relock rfl⟩, rfl⟩ (.nil _)
  refine ⟨p₈, [first, second], ?_, ?_, rfl⟩
  · intro w
    rw [Subsingleton.elim w 0]
    rfl
  · refine (contained_iff Nat.one_pos ⟨(p₀, []), _, ⟨⟨_, rfl⟩, rfl⟩, hrun⟩).mpr ?_
    intro r hr hthrew
    rcases List.mem_pair.mp hr with rfl | rfl
    · exact ⟨true, rfl⟩
    · cases hthrew

/-- One job that is offloaded and throws takes the process with it. -/
theorem offloaded_throw_escapes :
    ¬ ∀ (p : TaskPool 1 Bool ℕ Unit Unit) (history : List (Ran Bool)),
      Reachable (unrecorded Start) (record (ran counting) (Step (WorkUnit.run counting)))
        (p, history) → Contained p history := by
  intro h
  let p₀ : TaskPool 1 Bool ℕ Unit Unit := new 1 ⟨0, []⟩
  let p₁ := { p₀.enqueue (.bound true) with waitSet := ∅ }
  let p₂ := p₁.check 0
  let p₃ := { p₂ with aborted := true }
  have hoffload : TaskPool.offload counting true p₀ = .ok () (p₀.enqueue (.bound true)) := rfl
  have hrun : Run (record (ran counting) (Step (WorkUnit.run counting))) (p₀, [])
      [.schedule (.bound true), .check 0, .finish 0] (p₃, [⟨⟨0, .bound true⟩, true⟩]) := by
    refine .cons (t := (p₁, [])) ⟨⟨rfl, .enqueue Nat.one_pos hoffload (Or.inl ⟨rfl, rfl⟩)⟩, rfl⟩ ?_
    refine .cons (t := (p₂, [])) ⟨⟨rfl, .check rfl (by decide)⟩, rfl⟩ ?_
    exact .cons (t := (p₃, _)) ⟨⟨rfl, .escape rfl rfl⟩, rfl⟩ (.nil _)
  have hc := h p₃ _ ⟨(p₀, []), _, ⟨⟨_, rfl⟩, rfl⟩, hrun⟩
  cases hc.alive

end Messagebus.Proofs.WorkUnits
