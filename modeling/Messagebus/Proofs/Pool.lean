import Messagebus.PoolWorker

namespace Messagebus.Proofs.Pool
open Messagebus.Pool CondVar Runs

variable {n : ℕ} {ω σ : Type} {run : ω → σ → Option σ} {p q : Pool n ω σ}

/-- A worker in a section of its main loop: it has passed the wait or has come
back from a job. -/
def AtWork (p : Pool n ω σ) (w : Fin n) : Prop :=
  (p.workers w = .top ∧ w ∉ p.waitSet) ∨ p.workers w = .relock

/-- Every change that a step can make. -/
inductive Change (run : ω → σ → Option σ) (p : Pool n ω σ) : Pool n ω σ → Prop where
  | nothing : Change run p p
  | abort {w : Fin n} {job : Job ω} (runs : p.workers w = .running job)
      (throws : run job.work p.shared = none) : Change run p { p with aborted := true }
  | runInline {work : ω} {shared : σ} (unmanned : n = 0) (live : p.terminated = false)
      (returns : run work p.shared = some shared) : Change run p (p.runInline work shared)
  | enqueue {work : ω} {W : Finset (Fin n)} (manned : 0 < n) (live : p.terminated = false)
      (notify : NotifyOne p.waitSet W) : Change run p { p.enqueue work with waitSet := W }
  | start {w : Fin n} {job : Job ω} {jobs : List (Job ω)} (atWork : AtWork p w)
      (queued : p.jobs = job :: jobs) : Change run p (p.start w job jobs)
  | leave {w : Fin n} (atWork : AtWork p w) (drained : p.jobs = [])
      (terminated : p.terminated = true) : Change run p (p.move w .exited)
  | back {w : Fin n} (atWork : AtWork p w) (drained : p.jobs = [])
      (live : p.terminated = false) : Change run p (p.move w .top)
  | wait {w : Fin n} (top : p.workers w = .top) (drained : p.jobs = [])
      (live : p.terminated = false) : Change run p { p with waitSet := insert w p.waitSet }
  | finish {w : Fin n} {job : Job ω} {shared : σ} (runs : p.workers w = .running job)
      (returns : run job.work p.shared = some shared) : Change run p (p.finish w job shared)
  | spurious {w : Fin n} : Change run p { p with waitSet := p.waitSet.erase w }
  | terminate : Change run p p.terminate

theorem scheduleWork_terminated (run : ω → σ → Option σ) (work : ω)
    (h : p.terminated = true) :
    scheduleWork run work p = .error (.runtimeError "PoolThread is terminated") p := by
  unfold scheduleWork
  change (if p.terminated = true then _ else _ : EStateM PoolFault (Pool n ω σ) Unit) p = _
  rw [if_pos h]
  rfl

theorem scheduleWork_inline (run : ω → σ → Option σ) (work : ω) (hn : n = 0)
    (h : p.terminated = false) :
    scheduleWork run work p =
      match run work p.shared with
      | none => .error .escaped p
      | some shared => .ok () (p.runInline work shared) := by
  unfold scheduleWork
  change (if p.terminated = true then _ else _ : EStateM PoolFault (Pool n ω σ) Unit) p = _
  simp only [h, Bool.false_eq_true, if_false, hn, if_true]
  cases run work p.shared with
  | none => rfl
  | some shared => rfl

theorem scheduleWork_enqueue (run : ω → σ → Option σ) (work : ω) (hn : 0 < n)
    (h : p.terminated = false) : scheduleWork run work p = .ok () (p.enqueue work) := by
  unfold scheduleWork
  change (if p.terminated = true then _ else _ : EStateM PoolFault (Pool n ω σ) Unit) p = _
  simp only [h, Bool.false_eq_true, if_false, Nat.ne_of_gt hn]
  rfl

theorem scheduleWork_live {work : ω} (h : scheduleWork run work p = .ok () q) :
    p.terminated = false := by
  cases ht : p.terminated with
  | false => rfl
  | true =>
    rw [scheduleWork_terminated run work ht] at h
    cases h

/-- A call that throws leaves the pool as it was. -/
theorem scheduleWork_throws {work : ω} {fault : PoolFault}
    (h : scheduleWork run work p = .error fault q) : q = p := by
  cases ht : p.terminated with
  | true =>
    rw [scheduleWork_terminated run work ht] at h
    cases h
    rfl
  | false =>
    rcases Nat.eq_zero_or_pos n with hn | hn
    · rw [scheduleWork_inline run work hn ht] at h
      split at h
      · cases h
        rfl
      · cases h
    · rw [scheduleWork_enqueue run work hn ht] at h
      cases h

theorem drain_change {w : Fin n} (h : AtWork p w) : Change run p (p.drain w) := by
  unfold drain
  cases hj : p.jobs with
  | cons job jobs => exact .start h hj
  | nil =>
    cases ht : p.terminated with
    | true => exact .leave h hj ht
    | false => exact .back h hj ht

theorem section_change {a : PoolAction n ω} (h : Section run p a q) : Change run p q := by
  cases h with
  | refuse throws =>
    rw [scheduleWork_throws throws]
    exact .nothing
  | runInline unmanned returns =>
    have hl := scheduleWork_live returns
    rw [scheduleWork_inline run _ unmanned hl] at returns
    split at returns
    · cases returns
    · rename_i shared hr
      cases returns
      exact .runInline unmanned hl hr
  | enqueue manned returns notify =>
    have hl := scheduleWork_live returns
    rw [scheduleWork_enqueue run _ manned hl] at returns
    cases returns
    exact .enqueue manned hl notify
  | check top awake =>
    unfold Pool.check
    split
    · exact drain_change (Or.inl ⟨top, awake⟩)
    · rename_i hw
      obtain ⟨hl, hj⟩ : p.terminated = false ∧ p.jobs = [] := by simpa [wakes] using hw
      exact .wait top hj hl
  | finish runs returns => exact .finish runs returns
  | escape runs throws => exact .abort runs throws
  | relock back => exact drain_change (Or.inr back)
  | spurious waits => exact .spurious
  | terminate manned => exact .terminate

/-- Who can be where. A worker waits only while there is nothing to do and leaves
only when there is nothing left, and somebody is up while a job is queued. -/
structure Guarded (p : Pool n ω σ) : Prop where
  waiting : ∀ w ∈ p.waitSet, p.workers w = .top
  live : p.waitSet.Nonempty → p.terminated = false
  gone : ∀ w, p.workers w = .exited → p.terminated = true ∧ p.jobs = []
  unmanned : n = 0 → p.jobs = []
  awake : p.jobs ≠ [] → ∃ w, p.workers w ≠ .exited ∧ w ∉ p.waitSet

theorem new_guarded (shared : σ) : Guarded (new n shared : Pool n ω σ) where
  waiting w hw := absurd hw (Finset.notMem_empty w)
  live hw := absurd hw Finset.not_nonempty_empty
  gone w hw := by cases hw
  unmanned _ := rfl
  awake hj := absurd rfl hj

theorem Guarded.up (hg : Guarded p) {w : Fin n} (h : p.workers w ≠ .top) : w ∉ p.waitSet :=
  fun hw => h (hg.waiting w hw)

theorem Guarded.present (hg : Guarded p) (hl : p.terminated = false) (w : Fin n) :
    p.workers w ≠ .exited := by
  intro he
  have ht := (hg.gone w he).1
  rw [hl] at ht
  cases ht

theorem Guarded.asleep (hg : Guarded p) (ht : p.terminated = true) : p.waitSet = ∅ := by
  rcases p.waitSet.eq_empty_or_nonempty with he | hne
  · exact he
  · have hl := hg.live hne
    rw [ht] at hl
    cases hl

theorem AtWork.not_waiting {w : Fin n} (h : AtWork p w) (hg : Guarded p) : w ∉ p.waitSet := by
  rcases h with ⟨_, hw⟩ | hr
  · exact hw
  · refine hg.up ?_
    rw [hr]
    nofun

/-- What one worker does to itself, outside of the wait set. -/
theorem Guarded.worker_moves (hg : Guarded p) {w : Fin n} {worker : Worker ω}
    {jobs : List (Job ω)} (hw : w ∉ p.waitSet) (hj : p.jobs = [] → jobs = [])
    (hgone : worker = .exited → p.terminated = true ∧ jobs = [])
    (hq : q.workers = Function.update p.workers w worker) (hs : q.waitSet = p.waitSet)
    (ht : q.terminated = p.terminated) (hjobs : q.jobs = jobs) : Guarded q where
  waiting v hv := by
    rw [hs] at hv
    have hne : v ≠ w := fun he => hw (he ▸ hv)
    rw [hq, Function.update_of_ne hne]
    exact hg.waiting v hv
  live hne := by
    rw [hs] at hne
    rw [ht]
    exact hg.live hne
  gone v hv := by
    rw [ht, hjobs]
    rw [hq] at hv
    by_cases he : v = w
    · subst he
      rw [Function.update_self] at hv
      exact hgone hv
    · rw [Function.update_of_ne he] at hv
      exact ⟨(hg.gone v hv).1, hj (hg.gone v hv).2⟩
  unmanned hn := by
    rw [hjobs]
    exact hj (hg.unmanned hn)
  awake hne := by
    rw [hjobs] at hne
    rw [hs, hq]
    refine ⟨w, ?_, hw⟩
    rw [Function.update_self]
    exact fun he => hne (hgone he).2

/-- The notification that comes with a job finds a worker, or nobody needs one. -/
theorem Guarded.enqueue (hg : Guarded p) {work : ω} {W : Finset (Fin n)} (hn : 0 < n)
    (hl : p.terminated = false) (notify : NotifyOne p.waitSet W) :
    Guarded { p.enqueue work with waitSet := W } where
  waiting w hw := hg.waiting w (notify.subset hw)
  live _ := hl
  gone w hw := absurd hw (hg.present hl w)
  unmanned he := absurd he (Nat.ne_of_gt hn)
  awake _ := by
    rcases notify with ⟨_, rfl⟩ | ⟨w, hw, rfl⟩
    · exact ⟨⟨0, hn⟩, hg.present hl _, Finset.notMem_empty _⟩
    · exact ⟨w, hg.present hl w, Finset.notMem_erase w _⟩

theorem Guarded.change (hg : Guarded p) (h : Change run p q) : Guarded q := by
  cases h with
  | nothing => exact hg
  | abort runs throws => exact ⟨hg.waiting, hg.live, hg.gone, hg.unmanned, hg.awake⟩
  | runInline unmanned live returns =>
    exact ⟨hg.waiting, hg.live, hg.gone, hg.unmanned, hg.awake⟩
  | enqueue manned live notify => exact hg.enqueue manned live notify
  | start atWork queued =>
    refine hg.worker_moves (atWork.not_waiting hg) ?_ (by nofun) rfl rfl rfl rfl
    intro he
    rw [queued] at he
    cases he
  | leave atWork drained terminated =>
    exact hg.worker_moves (atWork.not_waiting hg) (fun he => he)
      (fun _ => ⟨terminated, drained⟩) rfl rfl rfl rfl
  | back atWork drained live =>
    exact hg.worker_moves (atWork.not_waiting hg) (fun he => he) (by nofun) rfl rfl rfl rfl
  | wait top drained live =>
    refine ⟨?_, fun _ => live, hg.gone, hg.unmanned, fun he => absurd drained he⟩
    intro v hv
    rcases Finset.mem_insert.mp hv with rfl | hv
    · exact top
    · exact hg.waiting v hv
  | finish runs returns =>
    refine hg.worker_moves (hg.up ?_) (fun he => he) (by nofun) rfl rfl rfl rfl
    rw [runs]
    nofun
  | spurious =>
    refine ⟨fun v hv => hg.waiting v (Finset.mem_of_mem_erase hv), ?_, hg.gone, hg.unmanned, ?_⟩
    · intro hne
      obtain ⟨v, hv⟩ := hne
      exact hg.live ⟨v, Finset.mem_of_mem_erase hv⟩
    · intro hj
      obtain ⟨v, hv, hs⟩ := hg.awake hj
      exact ⟨v, hv, fun he => hs (Finset.mem_of_mem_erase he)⟩
  | terminate =>
    refine ⟨fun w hw => absurd hw (Finset.notMem_empty w),
      fun hw => absurd hw Finset.not_nonempty_empty,
      fun w hw => ⟨rfl, (hg.gone w hw).2⟩, hg.unmanned, ?_⟩
    intro hj
    obtain ⟨v, hv, _⟩ := hg.awake hj
    exact ⟨v, hv, Finset.notMem_empty v⟩

theorem Guarded.step {a : PoolAction n ω} (hg : Guarded p) (h : p.Step run a q) : Guarded q :=
  hg.change (section_change h.2)

theorem reachable_guarded (h : Reachable Start (Step run) p) : Guarded p := by
  refine h.invariant ?_ (fun _ _ _ hg hs => hg.step hs)
  intro p hp
  obtain ⟨shared, rfl⟩ := hp
  exact new_guarded shared

/-- Nothing takes termination back. -/
theorem Change.terminated (h : Change run p q) (ht : p.terminated = true) :
    q.terminated = true := by
  cases h with
  | terminate => rfl
  | _ => exact ht

/-- No job is queued while every worker sleeps, and nobody sleeps, or ever will
again, once the destructor has set its flag. -/
theorem no_lost_wakeup (h : Reachable Start (Step run) p) :
    (p.jobs ≠ [] → ∃ w, p.workers w ≠ .exited ∧ w ∉ p.waitSet) ∧
      ∀ as q, p.terminated = true → Run (Step run) p as q →
        p.waitSet = ∅ ∧ q.terminated = true ∧ q.waitSet = ∅ := by
  have hg := reachable_guarded h
  refine ⟨hg.awake, ?_⟩
  intro as q ht hr
  obtain ⟨hg', ht'⟩ : Guarded q ∧ q.terminated = true :=
    hr.invariant (I := fun p => Guarded p ∧ p.terminated = true) ⟨hg, ht⟩
      (fun _ _ _ hi hs => ⟨hi.1.step hs, (section_change hs.2).terminated hi.2⟩)
  exact ⟨hg.asleep ht, ht', hg'.asleep ht'⟩

/-- A worker that waited is woken for a job, and the pool terminated before it
gets to it. -/
theorem no_lost_wakeup_queued :
    ∃ p : Pool 1 Unit Unit, p.jobs ≠ [] ∧ (∃ w, p.workers w ≠ .exited ∧ w ∉ p.waitSet) ∧
      p.terminated = true ∧ p.waitSet = ∅ := by
  let run : Unit → Unit → Option Unit := fun _ shared => some shared
  let p₁ : Pool 1 Unit Unit := (new 1 ()).check 0
  let p₂ : Pool 1 Unit Unit := { p₁.enqueue () with waitSet := p₁.waitSet.erase 0 }
  let p₃ := p₂.terminate
  have hrun : Run (Step run) (new 1 ()) [.check 0, .schedule (), .terminate] p₃ := by
    refine .cons (t := p₁) ⟨rfl, .check rfl (by decide)⟩ ?_
    refine .cons (t := p₂) ⟨rfl, .enqueue (q := p₁.enqueue ()) Nat.one_pos rfl
      (Or.inr ⟨0, by decide, rfl⟩)⟩ ?_
    exact .cons (t := p₃) ⟨rfl, .terminate Nat.one_pos⟩ (.nil _)
  obtain ⟨hw, hs⟩ := no_lost_wakeup ⟨_, _, ⟨(), rfl⟩, hrun⟩
  exact ⟨p₃, nofun, hw nofun, rfl, (hs [] p₃ rfl (.nil _)).1⟩

end Messagebus.Proofs.Pool
