import Messagebus.Lib.Potential
import Messagebus.Proofs.PoolBooks

namespace Messagebus.Proofs.Progress
open Messagebus.Pool CondVar Runs Proofs.Pool Proofs.PoolBooks

variable {n : ℕ} {ω σ : Type} {run : ω → σ → Option σ} {p q : Pool n ω σ}

/-- The steps of the workers' main loop. -/
def isSection : PoolAction n ω → Bool
  | .check _ | .finish _ | .relock _ => true
  | _ => false

def isSchedule : PoolAction n ω → Bool
  | .schedule _ => true
  | _ => false

def isSpurious : PoolAction n ω → Bool
  | .spurious _ => true
  | _ => false

def isTerminate : PoolAction n ω → Bool
  | .terminate => true
  | _ => false

/-- How many sections a worker can still go through for no job but the one it has. -/
def ahead (p : Pool n ω σ) (w : Fin n) : ℕ :=
  match p.workers w with
  | .top => if w ∈ p.waitSet then 0 else 1
  | .running _ => 3
  | .relock => 2
  | .exited => 0

/-- How many sections are still to come, as long as nobody interferes. -/
def effort (p : Pool n ω σ) : ℕ :=
  if p.aborted then 0 else 3 * p.jobs.length + ∑ w, ahead p w

def work (a : PoolAction n ω) : ℕ := if isSection a then 1 else 0

/-- A job is to be taken, run and left behind, and may wake up a worker. -/
def cost : PoolAction n ω → ℕ
  | .schedule _ => 4
  | .spurious _ => 1
  | .terminate => n
  | _ => 0

theorem effort_alive (h : p.aborted = false) : effort p = 3 * p.jobs.length + ∑ w, ahead p w := by
  simp [effort, h]

theorem effort_le (p : Pool n ω σ) : effort p ≤ 3 * p.jobs.length + ∑ w, ahead p w := by
  unfold effort
  split
  · exact Nat.zero_le _
  · exact le_refl _

theorem ahead_atWork {w : Fin n} (h : AtWork p w) : 1 ≤ ahead p w := by
  rcases h with ⟨ht, hw⟩ | hr
  · simp [ahead, ht, hw]
  · simp [ahead, hr]

theorem ahead_top_le {w : Fin n} (h : q.workers w = .top) : ahead q w ≤ 1 := by
  unfold ahead
  rw [h]
  simp only
  split
  · exact Nat.zero_le _
  · exact le_refl _

theorem ahead_other {w v : Fin n} {worker : Worker ω} (hv : v ≠ w)
    (hq : q.workers = Function.update p.workers w worker) (hs : q.waitSet = p.waitSet) :
    ahead q v = ahead p v := by
  simp only [ahead, hq, hs, Function.update_of_ne hv]

/-- One worker goes on by itself. -/
theorem moves_pay {w : Fin n} {worker : Worker ω} {m k : ℕ} (h : p.aborted = false)
    (hq : q.workers = Function.update p.workers w worker) (hs : q.waitSet = p.waitSet)
    (hw : 3 * q.jobs.length + ahead q w + m ≤ 3 * p.jobs.length + ahead p w + k) :
    effort q + m ≤ effort p + k := by
  have hothers : ∀ v, v ≠ w → ahead q v ≤ ahead p v := fun v hv => (ahead_other hv hq hs).le
  have hsum := sum_change_le (Finset.mem_univ w) (m := 3 * q.jobs.length + m)
    (k := 3 * p.jobs.length + k) hothers (by omega)
  have hle := effort_le q
  rw [effort_alive h]
  omega

/-- Waking workers up. -/
theorem wake_pays (hq : q.workers = p.workers) :
    ∑ w, ahead q w ≤ ∑ w, ahead p w + (p.waitSet \ q.waitSet).card := by
  have hle : ∀ w, ahead q w ≤ ahead p w + if w ∈ p.waitSet \ q.waitSet then 1 else 0 := by
    intro w
    simp only [ahead, hq, Finset.mem_sdiff]
    cases p.workers w with
    | top =>
      by_cases hp : w ∈ p.waitSet
      · by_cases hw : w ∈ q.waitSet
        · simp [hw]
        · simp [hp, hw]
      · simp [hp]
        split
        · exact Nat.zero_le _
        · exact le_refl _
    | _ => exact Nat.le_add_right _ _
  refine (Finset.sum_le_sum fun w _ => hle w).trans ?_
  rw [Finset.sum_add_distrib, ← Finset.card_filter, Finset.filter_univ_mem]

theorem drain_pays {w : Fin n} (h : p.aborted = false) (hw : AtWork p w)
    (hback : p.jobs = [] → p.terminated = false → 2 ≤ ahead p w) :
    effort (p.drain w) + 1 ≤ effort p := by
  have hpos := ahead_atWork hw
  unfold drain
  cases hj : p.jobs with
  | cons job jobs =>
    refine moves_pay (k := 0) h rfl rfl ?_
    have hrunning : ahead (p.start w job jobs) w = 3 := by simp [ahead, start]
    rw [hrunning, hj]
    simp only [start, List.length_cons]
    omega
  | nil =>
    cases ht : p.terminated with
    | true =>
      refine moves_pay (k := 0) h rfl rfl ?_
      have hexited : ahead (p.move w .exited) w = 0 := by simp [ahead, move]
      simp only [if_true, hexited]
      simp only [move]
      omega
    | false =>
      have htwo := hback hj ht
      refine moves_pay (k := 0) h rfl rfl ?_
      have htop := ahead_top_le (q := p.move w .top) (w := w) (by simp [move])
      simp only [Bool.false_eq_true, if_false]
      simp only [move] at htop ⊢
      omega

/-- Every step is paid for. -/
theorem step_pays : Pays (Pool.Step run) (effort (n := n) (ω := ω) (σ := σ)) work cost := by
  intro p a q h
  obtain ⟨hlive, hsection⟩ := h
  cases hsection with
  | runInline unmanned returns =>
    have hl := scheduleWork_live returns
    rw [scheduleWork_inline run _ unmanned hl] at returns
    split at returns
    · cases returns
    · cases returns
      exact Nat.le_add_right _ _
  | @enqueue q work W manned returns notify =>
    have hl := scheduleWork_live returns
    rw [scheduleWork_enqueue run _ manned hl] at returns
    cases returns
    have hwake := wake_pays (p := p) (q := { p.enqueue work with waitSet := W }) rfl
    have hone : (p.waitSet \ W).card ≤ 1 := notify.card_sdiff_le
    have hle := effort_le { p.enqueue work with waitSet := W }
    rw [effort_alive hlive]
    simp only [enqueue, List.length_append, List.length_singleton, Progress.work, isSection,
      Bool.false_eq_true, if_false, cost] at *
    omega
  | refuse throws =>
    rw [scheduleWork_throws throws]
    exact Nat.le_add_right _ _
  | @check w top awake =>
    unfold Pool.check
    split
    · rename_i hwakes
      refine drain_pays hlive (Or.inl ⟨top, awake⟩) ?_
      intro hj ht
      simp [wakes, hj, ht] at hwakes
    · have hmove : effort { p with waitSet := insert w p.waitSet } + 1 ≤ effort p + 0 := by
        have hbefore : ahead p w = 1 := by simp [ahead, top, awake]
        have hafter : ahead { p with waitSet := insert w p.waitSet } w = 0 := by simp [ahead, top]
        have hothers : ∀ v, v ≠ w →
            ahead { p with waitSet := insert w p.waitSet } v ≤ ahead p v := by
          intro v hv
          simp [ahead, hv]
        have hsum := sum_change_le (Finset.mem_univ w) (m := 1) (k := 0) hothers (by omega)
        have hle := effort_le { p with waitSet := insert w p.waitSet }
        rw [effort_alive hlive]
        simp only at hle
        omega
      exact hmove
  | @finish w job shared runs returns =>
    refine moves_pay hlive rfl rfl ?_
    simp [ahead, runs, Pool.finish, work, isSection]
  | @escape w job runs throws =>
    have hpos : 3 ≤ ∑ w, ahead p w := by
      have hw : ahead p w = 3 := by simp [ahead, runs]
      rw [← hw]
      exact Finset.single_le_sum (fun _ _ => Nat.zero_le _) (Finset.mem_univ w)
    rw [effort_alive hlive]
    simp [effort, work, isSection]
    omega
  | @relock w back =>
    refine drain_pays hlive (Or.inr back) fun _ _ => ?_
    simp [ahead, back]
  | @spurious w waits =>
    have hwake := wake_pays (p := p) (q := { p with waitSet := p.waitSet.erase w }) rfl
    have hle := effort_le { p with waitSet := p.waitSet.erase w }
    rw [Finset.sdiff_erase waits] at hwake
    simp at hwake
    rw [effort_alive hlive]
    simp [work, isSection, cost]
    simp at hle
    omega
  | terminate manned =>
    have hwake := wake_pays (p := p) (q := p.terminate) rfl
    have hle := effort_le p.terminate
    have hcard : (p.waitSet \ p.terminate.waitSet).card ≤ n := by
      simpa using Finset.card_le_univ (p.waitSet \ p.terminate.waitSet)
    rw [effort_alive hlive]
    simp [work, isSection, cost, Pool.terminate] at *
    omega

theorem ahead_le (p : Pool n ω σ) (w : Fin n) : ahead p w ≤ 3 := by
  unfold ahead
  split
  · split <;> decide
  · exact le_refl _
  · decide
  · decide

theorem effort_bound (p : Pool n ω σ) : effort p ≤ 3 * (p.jobs.length + n) := by
  have hsum : ∑ w, ahead p w ≤ ∑ _ : Fin n, 3 := Finset.sum_le_sum fun w _ => ahead_le p w
  rw [Finset.sum_const_nat fun _ _ => rfl, Finset.card_univ, Fintype.card_fin] at hsum
  have hle := effort_le p
  omega

theorem effort_new (shared : σ) : effort (new n shared : Pool n ω σ) = n := by
  simp [effort, new, ahead]

theorem sum_work (as : List (PoolAction n ω)) : (as.map work).sum = as.countP isSection := by
  induction as with
  | nil => rfl
  | cons a as ih =>
    rw [List.map_cons, List.sum_cons, ih, List.countP_cons, Nat.add_comm]
    rfl

theorem sum_cost (as : List (PoolAction n ω)) :
    (as.map cost).sum = 4 * as.countP isSchedule + as.countP isSpurious +
      n * as.countP isTerminate := by
  induction as with
  | nil => rfl
  | cons a as ih =>
    rw [List.map_cons, List.sum_cons, ih]
    simp only [List.countP_cons, Nat.mul_add]
    cases a <;> simp [cost, isSchedule, isSpurious, isTerminate] <;> omega

/-- No worker is busy with nothing: each time one goes through its main loop, that is
for a job, for one of its wake-ups or because it has just been started. -/
theorem sections_bounded (shared : σ) {as : List (PoolAction n ω)}
    (h : Run (Step run) (new n shared) as p) :
    as.countP isSection ≤ n + 4 * as.countP isSchedule + as.countP isSpurious +
      n * as.countP isTerminate := by
  have hpays := step_pays.run h
  rw [effort_new, sum_work, sum_cost] at hpays
  omega

/-- A worker that goes to sleep, is woken for a job and goes to sleep again. -/
theorem sections_of_one_job :
    ∃ p : Pool 1 Unit Unit, Run (Step fun _ shared => some shared) (new 1 ())
        [.check 0, .schedule (), .check 0, .finish 0, .relock 0, .check 0] p ∧
      5 ≤ 1 + 4 * 1 + 0 + 1 * 0 := by
  let p₁ : Pool 1 Unit Unit := (new 1 ()).check 0
  let p₂ : Pool 1 Unit Unit := { p₁.enqueue () with waitSet := p₁.waitSet.erase 0 }
  let p₃ := p₂.check 0
  let p₄ := p₃.finish 0 ⟨0, ()⟩ ()
  let p₅ := p₄.drain 0
  have hrun : Run (Step fun _ shared => some shared) (new 1 ())
      [.check 0, .schedule (), .check 0, .finish 0, .relock 0, .check 0] (p₅.check 0) := by
    refine .cons (t := p₁) ⟨rfl, .check rfl (by decide)⟩ ?_
    refine .cons (t := p₂) ⟨rfl, .enqueue (q := p₁.enqueue ()) Nat.one_pos rfl
      (Or.inr ⟨0, by decide, rfl⟩)⟩ ?_
    refine .cons (t := p₃) ⟨rfl, .check rfl (by decide)⟩ ?_
    refine .cons (t := p₄) ⟨rfl, .finish rfl rfl⟩ ?_
    refine .cons (t := p₅) ⟨rfl, .relock rfl⟩ ?_
    exact .cons (t := p₅.check 0) ⟨rfl, .check rfl (by decide)⟩ (.nil _)
  exact ⟨_, hrun, sections_bounded () hrun⟩

/-- The workers, left to themselves. -/
def WorkerStep (run : ω → σ → Option σ) : Pool n ω σ → PoolAction n ω → Pool n ω σ → Prop :=
  restrict (fun _ a => isSection a = true) (Step run)

theorem workers_wane : Wanes (WorkerStep (n := n) run) effort := by
  intro p a q h
  obtain ⟨ha, hstep⟩ := h
  have hpays := step_pays p a q hstep
  have hcost : cost a = 0 := by cases a <;> first | rfl | cases ha
  rw [hcost, Progress.work, if_pos ha] at hpays
  exact hpays

/-- A worker that cannot go on has left or sleeps. -/
def AtRest (p : Pool n ω σ) : Prop :=
  ∀ w, p.workers w = .exited ∨ (p.workers w = .top ∧ w ∈ p.waitSet)

theorem stuck_atRest (hlive : p.aborted = false) (h : ∀ a q, ¬ WorkerStep run p a q) :
    AtRest p := by
  intro w
  cases hw : p.workers w with
  | top =>
    by_cases hs : w ∈ p.waitSet
    · exact Or.inr ⟨rfl, hs⟩
    · exact absurd ⟨rfl, hlive, .check hw hs⟩ (h (.check w) (p.check w))
  | running job =>
    cases hr : run job.work p.shared with
    | none => exact absurd ⟨rfl, hlive, .escape hw hr⟩ (h (.finish w) _)
    | some shared => exact absurd ⟨rfl, hlive, .finish hw hr⟩ (h (.finish w) _)
  | relock => exact absurd ⟨rfl, hlive, .relock hw⟩ (h (.relock w) (p.drain w))
  | exited => exact Or.inl rfl

theorem AtRest.drained (hg : Guarded p) (h : AtRest p) : p.jobs = [] := by
  by_contra hj
  obtain ⟨w, hx, hs⟩ := hg.awake hj
  rcases h w with he | ⟨_, hw⟩
  · exact hx he
  · exact hs hw

theorem AtRest.inFlight (h : AtRest p) : p.inFlight = 0 :=
  Finset.sum_eq_zero fun w _ => by
    rcases h w with he | ⟨ht, _⟩
    · rw [he]
      rfl
    · rw [ht]
      rfl

theorem AtRest.settled (hr : Reachable Start (Step run) p) (h : AtRest p) :
    p.finished.Perm p.accepted := by
  obtain ⟨l, hb⟩ := reachable_books hr
  have hs := l.settled (hb.pending.trans (h.drained (reachable_guarded hr)))
    (hb.running.trans h.inFlight)
  rwa [hb.finished, hb.accepted] at hs

theorem AtRest.exited (hg : Guarded p) (h : AtRest p) (ht : p.terminated = true) :
    AllExited p := by
  intro w
  rcases h w with he | ⟨_, hw⟩
  · exact he
  · rw [hg.asleep ht] at hw
    exact absurd hw (Finset.notMem_empty w)

theorem drain_keeps (p : Pool n ω σ) (w : Fin n) :
    (p.drain w).accepted = p.accepted ∧ (p.drain w).terminated = p.terminated := by
  unfold drain
  split
  · exact ⟨rfl, rfl⟩
  · exact ⟨rfl, rfl⟩

/-- The workers accept nothing and do not terminate the pool. -/
theorem section_keeps {a : PoolAction n ω} (hs : ∀ work, a ≠ .schedule work)
    (ht : a ≠ .terminate) (h : Section run p a q) :
    q.accepted = p.accepted ∧ q.terminated = p.terminated := by
  cases h with
  | runInline | enqueue | refuse => exact absurd rfl (hs _)
  | terminate => exact absurd rfl ht
  | check =>
    unfold Pool.check
    split
    · exact drain_keeps p _
    · exact ⟨rfl, rfl⟩
  | relock => exact drain_keeps p _
  | finish | escape | spurious => exact ⟨rfl, rfl⟩

theorem WorkerStep.others {a : PoolAction n ω} (h : WorkerStep run p a q) :
    (∀ work, a ≠ .schedule work) ∧ a ≠ .terminate ∧ isSpurious a = false := by
  obtain ⟨ha, _⟩ := h
  cases a with
  | schedule | terminate | spurious => cases ha
  | check | finish | relock => exact ⟨nofun, nofun, rfl⟩

theorem workers_keep {as : List (PoolAction n ω)} (h : Run (WorkerStep run) p as q) :
    q.accepted = p.accepted ∧ q.terminated = p.terminated := by
  refine h.invariant (I := fun r => r.accepted = p.accepted ∧ r.terminated = p.terminated)
    ⟨rfl, rfl⟩ ?_
  intro r a t hi hs
  obtain ⟨hschedule, hterminate, _⟩ := hs.others
  obtain ⟨hacc, hterm⟩ := section_keeps hschedule hterminate hs.2.2
  exact ⟨hacc.trans hi.1, hterm.trans hi.2⟩

/-- Left to themselves the workers come to an end wherever they are, after a bounded
number of sections and whatever order they take turns in: unless a job lets an
exception escape, every accepted job has then run, and all workers sleep or, once
the pool is terminated, can be joined. -/
theorem workers_wind_up (h : Reachable Start (Step run) p) :
    (∃ as q, Run (WorkerStep run) p as q ∧ ∀ a r, ¬ WorkerStep run q a r) ∧
      ∀ as q, Run (WorkerStep run) p as q → as.length ≤ 3 * (p.jobs.length + n) ∧
        ((∀ a r, ¬ WorkerStep run q a r) → q.aborted = false →
          q.jobs = [] ∧ q.finished.Perm p.accepted ∧ AtRest q ∧
            (p.terminated = true → AllExited q)) := by
  refine ⟨workers_wane.ends p, ?_⟩
  intro as q hr
  have hlength := workers_wane.length_le hr
  have hbound := effort_bound p
  refine ⟨by omega, ?_⟩
  intro hstuck hlive
  have hq : Reachable Start (Step run) q := by
    obtain ⟨s₀, bs, hs₀, hb⟩ := h
    exact ⟨s₀, bs ++ as, hs₀, hb.append (hr.map fun _ _ _ hs => hs.2)⟩
  have hg := reachable_guarded hq
  have hrest := stuck_atRest hlive hstuck
  obtain ⟨ha, ht⟩ := workers_keep hr
  refine ⟨hrest.drained hg, ha ▸ hrest.settled hq, hrest, ?_⟩
  intro hterm
  exact hrest.exited hg (ht.trans hterm)

theorem Change.alive (hrun : ∀ work shared, run work shared ≠ none) (h : Change run p q)
    (hp : p.aborted = false) : q.aborted = false := by
  cases h with
  | abort runs throws => exact absurd throws (hrun _ _)
  | _ => exact hp

/-- One job is left to a pool that has not even looked for one. -/
theorem one_job_wound_up :
    ∃ q : Pool 1 Unit Unit, q.jobs = [] ∧ q.finished.Perm [⟨0, ()⟩] ∧ AtRest q := by
  let run : Unit → Unit → Option Unit := fun _ shared => some shared
  let p : Pool 1 Unit Unit := (new 1 ()).enqueue ()
  have hstep : Step run (new 1 ()) (.schedule ()) p :=
    ⟨rfl, .enqueue (q := (new 1 ()).enqueue ()) Nat.one_pos rfl (Or.inl ⟨rfl, rfl⟩)⟩
  obtain ⟨⟨as, q, hr, hstuck⟩, hall⟩ :=
    workers_wind_up ((Reachable.start ⟨(), rfl⟩).step hstep)
  have hlive : q.aborted = false :=
    hr.invariant (I := fun q => q.aborted = false) rfl
      fun _ _ _ hi hs => Change.alive nofun (section_change hs.2.2) hi
  obtain ⟨hj, hf, hrest, _⟩ := (hall as q hr).2 hstuck hlive
  exact ⟨q, hj, hf, hrest⟩

end Messagebus.Proofs.Progress
