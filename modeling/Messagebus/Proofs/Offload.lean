import Messagebus.Proofs.Progress

namespace Messagebus.Proofs.Offload
open Messagebus.Pool CondVar Runs Proofs.Pool Proofs.PoolBooks Proofs.Progress

variable {n : ℕ} {ω σ : Type} {run : ω → σ → Option σ} {p q : Pool n ω σ}

/-- Jobs that are state transformers and let no exception escape. -/
def total (apply : ω → σ → σ) : ω → σ → Option σ := fun work shared => some (apply work shared)

/-- The jobs one after the other. -/
def applyAll (apply : ω → σ → σ) (init : σ) (works : List ω) : σ :=
  works.foldl (fun shared work => apply work shared) init

theorem applyAll_snoc (apply : ω → σ → σ) (init : σ) (works : List ω) (work : ω) :
    applyAll apply init (works ++ [work]) = apply work (applyAll apply init works) := by
  simp [applyAll]

theorem applyAll_perm {apply : ω → σ → σ} {works works' : List ω} (init : σ)
    (hp : works.Perm works')
    (hc : ∀ a ∈ works', ∀ b ∈ works', ∀ s, apply a (apply b s) = apply b (apply a s)) :
    applyAll apply init works = applyAll apply init works' := by
  refine (hp.symm.foldl_eq' ?_ init).symm
  intro a ha b hb s
  exact hc b hb a ha s

section Serial

/-- With at most one worker the jobs finish in the order in which they start. -/
def Serial (p : Pool n ω σ) : Prop :=
  ∃ jobs : List (Job ω), p.started = p.finished ++ jobs ∧ (jobs : Multiset (Job ω)) = p.inFlight

theorem inFlight_only (hn : n ≤ 1) (p : Pool n ω σ) (w : Fin n) :
    p.inFlight = (p.workers w).job := by
  have hs : Subsingleton (Fin n) := Fin.subsingleton_iff_le_one.mpr hn
  exact Fintype.sum_subsingleton _ w

theorem Serial.change (hn : n ≤ 1) (hp : Serial p) (h : Change run p q) : Serial q := by
  obtain ⟨jobs, hs, hf⟩ := hp
  cases h with
  | runInline unmanned live returns =>
    subst unmanned
    have hj : jobs = [] := (Multiset.coe_eq_zero _).mp hf
    refine ⟨[], ?_, rfl⟩
    simp [runInline, hs, hj]
  | @start w job _ atWork queued =>
    have hj : jobs = [] := by
      rw [inFlight_only hn p w, AtWork.idle atWork] at hf
      exact (Multiset.coe_eq_zero _).mp hf
    refine ⟨[job], ?_, ?_⟩
    · simp [Pool.start, hs, hj]
    · rw [inFlight_start atWork, ← hf, hj]
      rfl
  | leave atWork drained terminated =>
    exact ⟨jobs, hs, hf.trans (inFlight_move atWork rfl).symm⟩
  | back atWork drained live =>
    exact ⟨jobs, hs, hf.trans (inFlight_move atWork rfl).symm⟩
  | @finish w job shared runs returns =>
    have hj : jobs = [job] := by
      rw [inFlight_only hn p w, runs] at hf
      exact Multiset.coe_eq_singleton.mp hf
    have hq : (p.finish w job shared).inFlight = 0 := by
      rw [inFlight_only hn _ w]
      simp [Pool.finish, Worker.job]
    refine ⟨[], ?_, hq.symm⟩
    simp [Pool.finish, hs, hj]
  | _ => exact ⟨jobs, hs, hf⟩

end Serial

section Driver

variable {apply : ω → σ → σ} {init : σ} {works rest : List ω}

/-- What holds of the pool and of the jobs still to be offloaded. -/
structure Driven (apply : ω → σ → σ) (init : σ) (works : List ω) (p : Pool n ω σ)
    (rest : List ω) : Prop where
  reachable : Reachable Start (Step (total apply)) p
  alive : p.aborted = false
  offloaded : p.accepted.map Job.work ++ rest = works
  live : p.terminated = true → rest = []
  serial : n ≤ 1 → Serial p
  shared : p.shared = applyAll apply init (p.finished.map Job.work)

theorem new_driven (n : ℕ) (apply : ω → σ → σ) (init : σ) (works : List ω) :
    Driven apply init works (new n init) works where
  reachable := .start ⟨init, rfl⟩
  alive := rfl
  offloaded := rfl
  live h := by cases h
  serial _ := ⟨[], rfl, by simp [inFlight, new, Worker.job]⟩
  shared := rfl

theorem Driven.offloading {work : ω} (hd : Driven apply init works p (work :: rest)) :
    p.terminated = false := by
  cases ht : p.terminated with
  | false => rfl
  | true => cases hd.live ht

/-- The parts that do not depend on who makes the step. -/
theorem Driven.change (hd : Driven apply init works p rest) {a : PoolAction n ω}
    (h : p.Step (total apply) a q) :
    q.aborted = false ∧ (n ≤ 1 → Serial q) ∧
      q.shared = applyAll apply init (q.finished.map Job.work) := by
  have hc := section_change h.2
  refine ⟨?_, fun hn => (hd.serial hn).change hn hc, ?_⟩
  · cases hc with
    | abort runs throws => cases throws
    | _ => exact hd.alive
  · cases hc with
    | runInline unmanned live returns =>
      simp only [total, Option.some.injEq] at returns
      simp only [Pool.runInline, List.map_append, List.map_singleton, applyAll_snoc, ← hd.shared]
      exact returns.symm
    | finish runs returns =>
      simp only [total, Option.some.injEq] at returns
      simp only [Pool.finish, List.map_append, List.map_singleton, applyAll_snoc, ← hd.shared]
      exact returns.symm
    | _ => exact hd.shared

theorem schedule_terminated {work : ω} (h : Section run p (.schedule work) q) :
    q.terminated = p.terminated := by
  cases h with
  | runInline unmanned returns =>
    have hl := scheduleWork_live returns
    rw [scheduleWork_inline run work unmanned hl] at returns
    split at returns
    · cases returns
    · cases returns
      rfl
  | enqueue manned returns notify =>
    have hl := scheduleWork_live returns
    rw [scheduleWork_enqueue run work manned hl] at returns
    cases returns
    rfl
  | refuse throws => rw [scheduleWork_throws throws]

/-- While the pool is live a job that is scheduled is accepted. -/
theorem schedule_accepts {work : ω} (hl : p.terminated = false)
    (h : Section (total apply) p (.schedule work) q) :
    q.accepted = p.accepted ++ [p.nextJob work] := by
  cases h with
  | runInline unmanned returns =>
    rw [scheduleWork_inline _ _ unmanned hl] at returns
    cases returns
    rfl
  | enqueue manned returns notify =>
    rw [scheduleWork_enqueue _ _ manned hl] at returns
    cases returns
    rfl
  | refuse throws =>
    rcases Nat.eq_zero_or_pos n with hn | hn
    · rw [scheduleWork_inline _ _ hn hl] at throws
      cases throws
    · rw [scheduleWork_enqueue _ _ hn hl] at throws
      cases throws

theorem Driven.step {a : PoolAction n ω} {s : Pool n ω σ × List ω}
    (hd : Driven apply init works p rest) (h : OffloadStep (total apply) (p, rest) a s) :
    Driven apply init works s.1 s.2 := by
  cases h with
  | offload step =>
    obtain ⟨ha, hs, hsh⟩ := hd.change step
    refine ⟨hd.reachable.step step, ha, ?_, ?_, hs, hsh⟩
    · rw [schedule_accepts hd.offloading step.2, ← hd.offloaded, List.map_append,
        List.append_assoc]
      rfl
    · intro ht
      rw [schedule_terminated step.2, hd.offloading] at ht
      cases ht
  | destroy alive step =>
    obtain ⟨ha, hs, hsh⟩ := hd.change step
    refine ⟨hd.reachable.step step, ha, ?_, fun _ => rfl, hs, hsh⟩
    have hacc := hd.offloaded
    cases step.2
    exact hacc
  | worker not_offload not_destroy step =>
    obtain ⟨ha, hs, hsh⟩ := hd.change step
    obtain ⟨hacc, hterm⟩ := section_keeps not_offload not_destroy step.2
    refine ⟨hd.reachable.step step, ha, ?_, ?_, hs, hsh⟩
    · rw [hacc]
      exact hd.offloaded
    · intro ht
      rw [hterm] at ht
      exact hd.live ht

theorem reachable_driven
    (h : Reachable (· = (new n init, works)) (OffloadStep (total apply)) (p, rest)) :
    Driven apply init works p rest := by
  refine h.invariant (I := fun s => Driven apply init works s.1 s.2) ?_ ?_
  · intro s hs
    subst hs
    exact new_driven n apply init works
  · intro s a t hs ht
    exact hs.step ht

/-- The thread and the workers, with no wake-up for no reason. -/
def OwnStep (run : ω → σ → Option σ) :
    Pool n ω σ × List ω → PoolAction n ω → Pool n ω σ × List ω → Prop :=
  restrict (fun _ a => isSpurious a = false) (OffloadStep run)

/-- What the thread can still put on the workers is added to what they have to do. -/
def remaining (s : Pool n ω σ × List ω) : ℕ :=
  effort s.1 + 5 * s.2.length + if s.1.terminated then 0 else n + 1

theorem remaining_le (p : Pool n ω σ) (rest : List ω) :
    remaining (p, rest) ≤ 3 * (p.jobs.length + n) + 5 * rest.length + n + 1 := by
  have hbound := effort_bound p
  have hflag : (if p.terminated then 0 else n + 1) ≤ n + 1 := by
    split
    · exact Nat.zero_le _
    · exact le_refl _
  simp only [remaining]
  omega

theorem worker_own {a : PoolAction n ω} (h : WorkerStep run p a q) (rest : List ω) :
    OwnStep run (p, rest) a (q, rest) := by
  obtain ⟨hschedule, hterminate, hspurious⟩ := h.others
  exact ⟨hspurious, .worker hschedule hterminate h.2⟩

/-- Nobody goes on for ever. -/
theorem own_wanes : Wanes (OwnStep (n := n) run) remaining := by
  intro s a t h
  obtain ⟨hown, hstep⟩ := h
  cases hstep with
  | offload step =>
    have hpays := step_pays _ _ _ step
    simp only [remaining, schedule_terminated step.2, List.length_cons]
    simp only [cost] at hpays
    omega
  | destroy alive step =>
    have hpays := step_pays _ _ _ step
    cases step.2
    simp only [remaining, alive, Pool.terminate, if_true, Bool.false_eq_true, if_false]
    simp only [cost, Pool.terminate] at hpays
    omega
  | @worker p q rest a not_offload not_destroy step =>
    have hpays := step_pays _ _ _ step
    obtain ⟨_, hterm⟩ := section_keeps not_offload not_destroy step.2
    have hsection : isSection a = true ∧ cost a = 0 := by
      cases a with
      | schedule work => exact absurd rfl (not_offload work)
      | terminate => exact absurd rfl not_destroy
      | spurious w => cases hown
      | check | finish | relock => exact ⟨rfl, rfl⟩
    rw [Progress.work, if_pos hsection.1, hsection.2] at hpays
    simp only [remaining, hterm]
    omega

/-- The destructor has returned. -/
def Destroyed (s : Pool n ω σ × List ω) : Prop := s.2 = [] ∧ AllExited s.1

/-- Until then somebody can go on, and not just by waking up for nothing. -/
theorem Driven.not_stuck (hd : Driven apply init works p rest) (hne : ¬ Destroyed (p, rest)) :
    ∃ a s, OwnStep (total apply) (p, rest) a s := by
  have hg := reachable_guarded hd.reachable
  cases rest with
  | cons work rest =>
    have hl := hd.offloading
    rcases Nat.eq_zero_or_pos n with hn | hn
    · exact ⟨.schedule work, _, rfl, .offload ⟨hd.alive,
        .runInline hn (scheduleWork_inline _ _ hn hl)⟩⟩
    · obtain ⟨W, hW⟩ := NotifyOne.possible p.waitSet
      exact ⟨.schedule work, _, rfl, .offload ⟨hd.alive,
        .enqueue hn (scheduleWork_enqueue _ _ hn hl) hW⟩⟩
  | nil =>
    cases ht : p.terminated with
    | false =>
      obtain ⟨w, _⟩ : ∃ w, p.workers w ≠ .exited := by
        by_contra hall
        exact hne ⟨rfl, fun w => not_not.mp fun h => hall ⟨w, h⟩⟩
      exact ⟨.terminate, _, rfl, .destroy ht ⟨hd.alive, .terminate w.pos⟩⟩
    | true =>
      -- Nobody sleeps any more, so workers that cannot go on have exited.
      by_contra hstuck
      have hrest : AtRest p := stuck_atRest hd.alive
        fun a q (hs : WorkerStep (total apply) p a q) => hstuck ⟨a, (q, []), worker_own hs []⟩
      exact hne ⟨rfl, hrest.exited hg ht⟩

/-- What the jobs have come to. -/
structure Outcome (apply : ω → σ → σ) (init : σ) (works : List ω) (p : Pool n ω σ) : Prop where
  popped : p.started.map Job.work = works
  serial : n ≤ 1 → p.shared = applyAll apply init works
  commuting : (∀ a ∈ works, ∀ b ∈ works, ∀ s, apply a (apply b s) = apply b (apply a s)) →
    p.shared = applyAll apply init works

theorem Driven.outcome (hd : Driven apply init works p rest) (hx : Destroyed (p, rest)) :
    Outcome apply init works p := by
  obtain ⟨rfl, hx⟩ := hx
  obtain ⟨l, hb⟩ := reachable_books hd.reachable
  have hg := reachable_guarded hd.reachable
  have hj : p.jobs = [] := by
    rcases Nat.eq_zero_or_pos n with hn | hn
    · exact hg.unmanned hn
    · exact (hg.gone ⟨0, hn⟩ (hx _)).2
  have hw : p.accepted.map Job.work = works := by
    rw [← hd.offloaded, List.append_nil]
  have ha : p.started = p.accepted := by
    have ho := l.order
    rwa [hb.started, hb.pending, hb.accepted, hj, List.append_nil] at ho
  refine ⟨by rw [ha, hw], ?_, ?_⟩
  · intro hn
    obtain ⟨jobs, hs, hf⟩ := hd.serial hn
    have he : jobs = [] := (Multiset.coe_eq_zero _).mp (hf.trans (AllExited.inFlight hx))
    rw [hd.shared, ← hw, ← ha, hs, he, List.append_nil]
  · intro hc
    have hp := settled_perm hd.reachable hj hx
    rw [hd.shared, ← hw]
    refine applyAll_perm init (hp.map Job.work) ?_
    rw [hw]
    exact hc

/-- Whatever the number of workers, jobs start in the order in which they were offloaded.
From everywhere the thread and the workers come, in every order in which they take turns
and after a bounded number of sections, to where the destructor returns, and nowhere else.
Every job has been popped by then, and the shared state is the one of the jobs in their
order, if there is at most one worker or the jobs commute. -/
theorem offload_then_destroy
    (h : Reachable (· = (new n init, works)) (OffloadStep (total apply)) (p, rest)) :
    p.started.map Job.work <+: works ∧
      (Destroyed (p, rest) → Outcome apply init works p) ∧
      (∃ as s, Run (OwnStep (total apply)) (p, rest) as s ∧
        ∀ a t, ¬ OwnStep (total apply) s a t) ∧
      ∀ as s, Run (OwnStep (total apply)) (p, rest) as s →
        as.length ≤ 3 * (p.jobs.length + n) + 5 * rest.length + n + 1 ∧
          ((∀ a t, ¬ OwnStep (total apply) s a t) →
            Destroyed s ∧ Outcome apply init works s.1) := by
  have hd := reachable_driven h
  refine ⟨?_, hd.outcome, own_wanes.ends (p, rest), ?_⟩
  · obtain ⟨l, hb⟩ := reachable_books hd.reachable
    have hs := l.started_prefix
    rw [hb.started, hb.accepted] at hs
    refine (hs.map Job.work).trans ?_
    rw [← hd.offloaded]
    exact List.prefix_append _ _
  · intro as s hr
    obtain ⟨q, rest'⟩ := s
    constructor
    · have hlength := own_wanes.length_le hr
      exact (Nat.le_add_left _ _).trans (hlength.trans (remaining_le p rest))
    · intro hstuck
      obtain ⟨s₀, bs, hs₀, hb⟩ := h
      have hd' : Driven apply init works q rest' :=
        reachable_driven ⟨s₀, bs ++ as, hs₀, hb.append (hr.map fun _ _ _ hs => hs.2)⟩
      have hx : Destroyed (q, rest') := by
        by_contra hne
        obtain ⟨a, t, hs⟩ := hd'.not_stuck hne
        exact hstuck a t hs
      exact ⟨hx, hd'.outcome hx⟩

/-- Two additions, of which two workers that are both awake may take one each. -/
theorem two_additions :
    ∃ s : Pool 2 ℕ ℕ × List ℕ, AllExited s.1 ∧ s.1.started.map Job.work = [5, 7] ∧
      s.1.shared = 12 := by
  let apply : ℕ → ℕ → ℕ := fun k shared => shared + k
  let p₁ : Pool 2 ℕ ℕ := (new 2 0).enqueue 5
  let p₂ := p₁.drain 1
  let p₃ := p₂.enqueue 7
  let p₄ := p₃.drain 0
  have hrun : Run (OffloadStep (total apply)) (new 2 0, [5, 7])
      [.schedule 5, .check 1, .schedule 7, .check 0] (p₄, []) := by
    refine .cons (t := (p₁, [7])) (.offload ⟨rfl, .enqueue (q := p₁) Nat.two_pos rfl
      (Or.inl ⟨rfl, rfl⟩)⟩) ?_
    refine .cons (t := (p₂, [7])) (.worker nofun nofun ⟨rfl, .check rfl (by decide)⟩) ?_
    refine .cons (t := (p₃, [])) (.offload ⟨rfl, .enqueue (q := p₃) Nat.two_pos rfl
      (Or.inl ⟨rfl, rfl⟩)⟩) ?_
    exact .cons (t := (p₄, [])) (.worker nofun nofun ⟨rfl, .check rfl (by decide)⟩) (.nil _)
  obtain ⟨_, _, ⟨as, s, hr, hstuck⟩, hall⟩ := offload_then_destroy ⟨_, _, rfl, hrun⟩
  obtain ⟨hx, ho⟩ := (hall as s hr).2 hstuck
  refine ⟨s, hx.2, ho.popped, ho.commuting ?_⟩
  intro a _ b _ s
  exact Nat.add_right_comm s b a

end Driver

end Messagebus.Proofs.Offload
