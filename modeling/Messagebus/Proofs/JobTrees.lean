import Mathlib.Data.Fintype.BigOperators
import Messagebus.JobTrees
import Messagebus.Lib.Ledger

namespace Messagebus.Proofs.JobTrees
open CondVar Runs

variable {n : ℕ} {α : Type} {p q : JobPool n α} {t : Thread n} {code k : Code α}

/-- Whether a thread can go through its code, given whether it has the mutex. A pool
without workers can do so only with jobs that offload nothing. -/
def Fits (t : Thread n) : Bool → Code α → Prop
  | held, [] => held = false ∧ t = none
  | held, .lock :: k => held = false ∧ Fits t true k
  | held, .unlock :: k => held = true ∧ Fits t false k
  | held, .scheduleWork job :: k => held = true ∧ (n = 0 → job.children = []) ∧ Fits t true k
  | held, .done _ :: k => Fits t held k
  | held, .await :: k => held = true ∧ t ≠ none ∧ k = [.drain]
  | held, .asleep :: k => held = false ∧ t ≠ none ∧ k = [.drain]
  | held, .drain :: k => held = true ∧ t ≠ none ∧ k = []

theorem fits_offloadAll {jobs : List (JobTree α)} (hj : n = 0 → ∀ job ∈ jobs, job.children = [])
    (h : Fits t false k) : Fits t false (offloadAll jobs ++ k) := by
  induction jobs with
  | nil => exact h
  | cons job jobs ih =>
    have hjobs := ih fun hn j hm => hj hn j (List.mem_cons_of_mem job hm)
    exact ⟨rfl, rfl, fun hn => hj hn job List.mem_cons_self, rfl, hjobs⟩

theorem fits_workerMainloop (w : Fin n) : Fits (some w) false (workerMainloop : Code α) :=
  ⟨rfl, rfl, by simp, rfl⟩

/-- Workers run jobs without the mutex. -/
theorem fits_work_manned (hn : 0 < n) (job : JobTree α) (h : Fits t false k) :
    Fits t false (job.work ++ k) := by
  cases job with
  | node label children =>
    rw [JobTree.work, List.append_assoc]
    exact fits_offloadAll (fun h0 => absurd h0 hn.ne') h

/-- Without workers a job is run under the mutex. -/
theorem fits_work_leaf {job : JobTree α} (hj : job.children = []) (h : Fits t true k) :
    Fits t true (job.work ++ k) := by
  cases job with
  | node label children =>
    simp only [JobTree.children] at hj
    rw [hj]
    exact h

/-- The jobs that an instruction makes run, and their children. -/
def owed : Instr α → Multiset α
  | .scheduleWork job => job.labels
  | .done label => {label}
  | _ => 0

def owes (code : Code α) : Multiset α := (code.map owed).sum

@[simp] theorem owes_nil : owes ([] : Code α) = 0 := rfl

@[simp] theorem owes_cons (i : Instr α) (k : Code α) : owes (i :: k) = owed i + owes k := by
  simp [owes]

@[simp] theorem owes_append (k l : Code α) : owes (k ++ l) = owes k + owes l := by
  simp [owes]

theorem owes_offloadAll (jobs : List (JobTree α)) :
    owes (offloadAll jobs) = (allLabels jobs : Multiset α) := by
  induction jobs with
  | nil => rfl
  | cons job jobs ih =>
    have hc : offloadAll (job :: jobs) = offload job ++ offloadAll jobs := rfl
    rw [hc, owes_append, ih, allLabels, ← Multiset.coe_add]
    simp [offload, owed]

theorem owes_work (job : JobTree α) : owes job.work = (job.labels : Multiset α) := by
  cases job with
  | node label children =>
    rw [JobTree.work, owes_append, owes_offloadAll, JobTree.labels, ← Multiset.cons_coe,
      owes_cons, owes_nil, add_zero, owed, add_comm, Multiset.singleton_add]

theorem allLabels_append (jobs jobs' : List (JobTree α)) :
    allLabels (jobs ++ jobs') = allLabels jobs ++ allLabels jobs' := by
  induction jobs with
  | nil => rfl
  | cons job jobs ih => simp [allLabels, ih]

/-- What the threads have in hand. -/
def inHand (p : JobPool n α) : Multiset α := ∑ t, owes (p.code t)

/-- All jobs are accounted for: finished, queued or in the hands of a thread. -/
def Accounted (all : Multiset α) (p : JobPool n α) : Prop :=
  (p.finished : Multiset α) + (allLabels p.jobs : Multiset α) + inHand p = all

/-- A thread that goes on only passes jobs on. -/
theorem Accounted.go {all : Multiset α} (h : Accounted all p)
    (hcode : q.code = Function.update p.code t code)
    (hb : (q.finished : Multiset α) + (allLabels q.jobs : Multiset α) + owes code =
      (p.finished : Multiset α) + (allLabels p.jobs : Multiset α) + owes (p.code t)) :
    Accounted all q := by
  unfold Accounted inHand at h ⊢
  have hu := Ledger.sum_update owes p.code t code
  rw [← hcode] at hu
  apply add_right_cancel (b := owes (p.code t))
  rw [← h, add_assoc, hu, add_comm (∑ u, owes (p.code u)), ← add_assoc, hb, add_right_comm]

/-- The invariant of the pool. A worker in the wait set is at its wait, and not all
of them are there while a job is queued. -/
structure Sound (all : Multiset α) (p : JobPool n α) : Prop where
  fits : ∀ t, Fits t (p.holder = some t) (p.code t)
  asleep : ∀ w ∈ p.waitSet, p.code (some w) = [.asleep, .drain]
  attended : (∀ w, w ∈ p.waitSet) → p.jobs = []
  accounted : Accounted all p

/-- One thread goes on; the others neither go on nor get or lose the mutex, nor are
they put to sleep. -/
theorem Sound.go {all : Multiset α} (h : Sound all p)
    (hcode : q.code = Function.update p.code t code)
    (hothers : ∀ u, u ≠ t → (q.holder = some u ↔ p.holder = some u))
    (ht : Fits t (q.holder = some t) code)
    (hasleep : ∀ w ∈ q.waitSet,
      (some w = t ∧ code = [.asleep, .drain]) ∨ (some w ≠ t ∧ w ∈ p.waitSet))
    (hattended : (∀ w, w ∈ q.waitSet) → q.jobs = [])
    (hb : (q.finished : Multiset α) + (allLabels q.jobs : Multiset α) + owes code =
      (p.finished : Multiset α) + (allLabels p.jobs : Multiset α) + owes (p.code t)) :
    Sound all q := by
  refine ⟨?_, ?_, hattended, h.accounted.go hcode hb⟩
  · intro u
    rw [hcode]
    by_cases hu : u = t
    · subst hu
      rwa [Function.update_self]
    · rw [Function.update_of_ne hu, decide_eq_decide.mpr (hothers u hu)]
      exact h.fits u
  · intro w hw
    rw [hcode]
    rcases hasleep w hw with ⟨rfl, hc⟩ | ⟨hne, hm⟩
    · rw [Function.update_self, hc]
    · rw [Function.update_of_ne hne]
      exact h.asleep w hm

/-- A thread that is not at its wait is not in the wait set. -/
theorem Sound.awake {all : Multiset α} (h : Sound all p) {i : Instr α} (next : p.code t = i :: k)
    (hi : i ≠ .asleep) {w : Fin n} (hw : w ∈ p.waitSet) : some w ≠ t := by
  intro he
  have hc := h.asleep w hw
  rw [he, next] at hc
  exact hi (List.cons.inj hc).1

/-- A step that leaves the queue and the wait set as they are. -/
theorem Sound.go_on {all : Multiset α} (h : Sound all p)
    (hcode : q.code = Function.update p.code t code) (hjobs : q.jobs = p.jobs)
    (hwait : q.waitSet = p.waitSet)
    (hothers : ∀ u, u ≠ t → (q.holder = some u ↔ p.holder = some u))
    (ht : Fits t (q.holder = some t) code) (hup : ∀ w ∈ p.waitSet, some w ≠ t)
    (hb : (q.finished : Multiset α) + owes code = (p.finished : Multiset α) + owes (p.code t)) :
    Sound all q := by
  refine h.go hcode hothers ht ?_ ?_ ?_
  · intro w hw
    rw [hwait] at hw
    exact Or.inr ⟨hup w hw, hw⟩
  · rw [hwait, hjobs]
    exact h.attended
  · rw [hjobs, add_right_comm, hb, add_right_comm]

theorem start_sound {roots : List (JobTree α)} (hr : n = 0 → ∀ job ∈ roots, job.children = []) :
    Sound (allLabels roots) (JobPool.start n roots) := by
  refine ⟨?_, ?_, fun _ => rfl, ?_⟩
  · intro t
    cases t with
    | none => simpa [JobPool.start, Fits] using fits_offloadAll (k := []) hr (by simp [Fits])
    | some w => exact fits_workerMainloop w
  · intro w hw
    simp [JobPool.start] at hw
  · have hm : owes (workerMainloop : Code α) = 0 := by simp [workerMainloop, owed]
    unfold Accounted inHand
    rw [Fintype.sum_option]
    simp [JobPool.start, owes_offloadAll, allLabels, hm]

/-- A thread that takes the mutex or gives it back is the only one that this concerns. -/
theorem others_keep {u : Thread n} (hu : u ≠ t) {before after : Option (Thread n)}
    (hbefore : before = none ∨ before = some t) (hafter : after = none ∨ after = some t) :
    after = some u ↔ before = some u := by
  have hne : some t ≠ some u := fun h => hu (Option.some.inj h).symm
  rcases hbefore with rfl | rfl <;> rcases hafter with rfl | rfl <;> simp [hne]

theorem Sound.fits_next {all : Multiset α} (h : Sound all p) (next : p.code t = code) :
    Fits t (p.holder = some t) code := by
  rw [← next]
  exact h.fits t

theorem Sound.step {all : Multiset α} {a : JobAction n} (h : Sound all p) (hstep : JobStep p a q) :
    Sound all q := by
  cases hstep with
  | @lock t k next available =>
    have ht := h.fits_next next
    refine h.go_on rfl rfl rfl ?_ ?_ (fun w hw => h.awake next (by simp) hw) ?_
    · exact fun u hu => others_keep hu (Or.inl available) (Or.inr rfl)
    · simpa [JobPool.go] using ht.2
    · simp [JobPool.go, next, owed]
  | @unlock t k next =>
    have ht := h.fits_next next
    have hh : p.holder = some t := of_decide_eq_true ht.1
    refine h.go_on rfl rfl rfl ?_ ?_ (fun w hw => h.awake next (by simp) hw) ?_
    · exact fun u hu => others_keep hu (Or.inr hh) (Or.inl rfl)
    · simpa [JobPool.go] using ht.2
    · simp [JobPool.go, next, owed]
  | @runInline t job k next unmanned =>
    have ht := h.fits_next next
    obtain ⟨hh, hleaf, hk⟩ := ht
    refine h.go_on rfl rfl rfl (fun u _ => Iff.rfl) ?_ (fun w hw => h.awake next (by simp) hw) ?_
    · have hw := fits_work_leaf (hleaf unmanned) hk
      rwa [← hh] at hw
    · simp [JobPool.go, next, owed, owes_work]
  | @enqueue t job k W next manned notify =>
    have ht := h.fits_next next
    refine h.go rfl (fun u _ => Iff.rfl) ?_ ?_ ?_ ?_
    · have hk := ht.2.2
      rwa [← ht.1] at hk
    · intro w hw
      have hm := notify.subset hw
      exact Or.inr ⟨h.awake next (by simp) hm, hm⟩
    · intro hall
      rcases notify with ⟨_, rfl⟩ | ⟨w, _, rfl⟩
      · exact absurd (hall ⟨0, manned⟩) (Finset.notMem_empty _)
      · exact absurd (hall w) (Finset.notMem_erase w _)
    · simp [JobPool.go, next, owed, allLabels_append, allLabels, add_assoc, ← Multiset.coe_add]
  | @done t label k next =>
    have ht := h.fits_next next
    refine h.go_on rfl rfl rfl (fun u _ => Iff.rfl) ht (fun w hw => h.awake next (by simp) hw) ?_
    simp [next, owed, add_assoc, ← Multiset.coe_add]
  | @pass w k next ready =>
    have ht := h.fits_next next
    obtain ⟨hh, hw, rfl⟩ := ht
    refine h.go_on rfl rfl rfl (fun u _ => Iff.rfl) ?_ (fun w hw => h.awake next (by simp) hw) ?_
    · exact ⟨hh, hw, rfl⟩
    · simp [JobPool.go, next, owed]
  | @sleep w k next unready =>
    have ht := h.fits_next next
    obtain ⟨hh, hw, rfl⟩ := ht
    have hholder : p.holder = some (some w) := of_decide_eq_true hh
    refine h.go rfl ?_ ⟨by simp [JobPool.go], hw, rfl⟩ ?_ (fun _ => unready) ?_
    · exact fun u hu => others_keep hu (Or.inr hholder) (Or.inl rfl)
    · intro v hv
      rcases Finset.mem_insert.mp hv with rfl | hm
      · exact Or.inl ⟨rfl, rfl⟩
      · exact Or.inr ⟨h.awake next (by simp) hm, hm⟩
    · simp [JobPool.go, next, owed]
  | @wake w k next woken available =>
    have ht := h.fits_next next
    obtain ⟨_, hw, rfl⟩ := ht
    refine h.go_on rfl rfl rfl ?_ ⟨by simp [JobPool.go], hw, rfl⟩ ?_ ?_
    · exact fun u hu => others_keep hu (Or.inl available) (Or.inr rfl)
    · intro v hv he
      cases he
      exact woken hv
    · simp [JobPool.go, next, owed]
  | @take w job jobs k next queued =>
    have ht := h.fits_next next
    obtain ⟨hh, hw, rfl⟩ := ht
    have hholder : p.holder = some (some w) := of_decide_eq_true hh
    refine h.go rfl ?_ ?_ ?_ ?_ ?_
    · exact fun u hu => others_keep hu (Or.inr hholder) (Or.inl rfl)
    · exact fits_work_manned w.pos job ⟨rfl, rfl, hw, rfl⟩
    · intro v hv
      exact Or.inr ⟨h.awake next (by simp) hv, hv⟩
    · intro hall
      exact absurd rfl (h.awake next (by simp) (hall w))
    · simp [JobPool.go, next, owed, queued, allLabels, owes_work, ← Multiset.coe_add]
      ac_rfl
  | @loop w k next drained =>
    have ht := h.fits_next next
    obtain ⟨hh, hw, rfl⟩ := ht
    have hholder : p.holder = some (some w) := of_decide_eq_true hh
    refine h.go_on rfl rfl rfl ?_ (fits_workerMainloop w)
      (fun w hw => h.awake next (by simp) hw) ?_
    · exact fun u hu => others_keep hu (Or.inr hholder) (Or.inl rfl)
    · simp [JobPool.go, next, owed, workerMainloop]
  | @spurious w asleep =>
    refine ⟨h.fits, ?_, ?_, h.accounted⟩
    · intro v hv
      exact h.asleep v (Finset.mem_of_mem_erase hv)
    · intro hall
      exact absurd (hall w) (Finset.notMem_erase w _)

/-- The holder of the mutex always has a step to take. -/
theorem holder_goes (ht : Fits t true (p.code t)) : ∃ q, JobStep p (.go t) q := by
  cases hc : p.code t with
  | nil => simp [hc, Fits] at ht
  | cons i k =>
    rw [hc] at ht
    cases i with
    | lock => simp [Fits] at ht
    | unlock => exact ⟨_, .unlock hc⟩
    | scheduleWork job =>
      rcases Nat.eq_zero_or_pos n with h0 | hn
      · exact ⟨_, .runInline hc h0⟩
      · obtain ⟨W, hW⟩ := NotifyOne.possible p.waitSet
        exact ⟨_, .enqueue hc hn hW⟩
    | done label => exact ⟨_, .done hc⟩
    | await =>
      obtain ⟨w, rfl⟩ := Option.ne_none_iff_exists'.mp ht.2.1
      by_cases hj : p.jobs = []
      · exact ⟨_, .sleep hc hj⟩
      · exact ⟨_, .pass hc hj⟩
    | asleep => simp [Fits] at ht
    | drain =>
      obtain ⟨w, rfl⟩ := Option.ne_none_iff_exists'.mp ht.2.1
      cases hj : p.jobs with
      | nil => exact ⟨_, .loop hc hj⟩
      | cons job jobs => exact ⟨_, .take hc hj⟩

/-- With the mutex free, a thread goes on unless it has ended or is in the wait set. -/
theorem free_goes (hfree : p.holder = none) (ht : Fits t false (p.code t)) :
    (∃ q, JobStep p (.go t) q) ∨ owes (p.code t) = 0 ∧ ∀ w, t = some w → w ∈ p.waitSet := by
  cases hc : p.code t with
  | nil =>
    rw [hc] at ht
    right
    exact ⟨rfl, by simp [ht.2]⟩
  | cons i k =>
    rw [hc] at ht
    cases i with
    | lock => exact Or.inl ⟨_, .lock hc hfree⟩
    | unlock => simp [Fits] at ht
    | scheduleWork job => simp [Fits] at ht
    | done label => exact Or.inl ⟨_, .done hc⟩
    | await => simp [Fits] at ht
    | asleep =>
      obtain ⟨_, hw, rfl⟩ := ht
      obtain ⟨w, rfl⟩ := Option.ne_none_iff_exists'.mp hw
      by_cases hm : w ∈ p.waitSet
      · right
        refine ⟨by simp [owed], ?_⟩
        intro v hv
        cases hv
        exact hm
      · exact Or.inl ⟨_, .wake hc hm hfree⟩
    | drain => simp [Fits] at ht

theorem Sound.no_selfLock {all : Multiset α} (h : Sound all p) (t : Thread n) : ¬ SelfLock p t := by
  intro hl
  obtain ⟨k, next, hh⟩ := hl
  have ht := h.fits t
  rw [next, hh] at ht
  simp [Fits] at ht

/-- Where nobody goes on, everybody is done or waits for jobs, and there are none. -/
theorem Sound.stuck {all : List α} (h : Sound (all : Multiset α) p) (hs : Stuck p) :
    p.finished.Perm all := by
  have hfree : p.holder = none := by
    cases hh : p.holder with
    | none => rfl
    | some t =>
      have ht := h.fits t
      rw [decide_eq_true hh] at ht
      obtain ⟨q, hq⟩ := holder_goes ht
      exact absurd hq (hs t q)
  have hrest : ∀ t, owes (p.code t) = 0 ∧ ∀ w, t = some w → w ∈ p.waitSet := by
    intro t
    have ht := h.fits t
    rw [hfree] at ht
    rcases free_goes hfree ht with ⟨q, hq⟩ | hr
    · exact absurd hq (hs t q)
    · exact hr
  have hjobs : p.jobs = [] := h.attended fun w => (hrest (some w)).2 w rfl
  have hhand : inHand p = 0 := Finset.sum_eq_zero fun t _ => (hrest t).1
  have ha := h.accounted
  rw [Accounted, hjobs, hhand, allLabels, Multiset.coe_nil, add_zero, add_zero] at ha
  exact Multiset.coe_eq_coe.mp ha

/-- Without workers, the first job that offloads another has the mutex taken twice. -/
theorem relocks {roots jobs : List (JobTree α)} (hj : ∃ job ∈ jobs, job.children ≠ [])
    {p : JobPool 0 α} (hp : Reachable (· = JobPool.start 0 roots) JobStep p)
    (hcode : p.code none = offloadAll jobs) (hfree : p.holder = none) :
    ∃ q : JobPool 0 α, Reachable (· = JobPool.start 0 roots) JobStep q ∧ SelfLock q none := by
  induction jobs generalizing p with
  | nil => simp at hj
  | cons job jobs ih =>
    have h₁ := hp.step (JobStep.lock hcode hfree)
    let p₁ := p.go none (.scheduleWork job :: .unlock :: offloadAll jobs) (some none)
    have hc₁ : p₁.code none = .scheduleWork job :: .unlock :: offloadAll jobs := by
      simp [p₁, JobPool.go]
    have h₂ := h₁.step (JobStep.runInline hc₁ rfl)
    cases job with
    | node label children =>
      cases children with
      | cons child children =>
        refine ⟨_, h₂, .scheduleWork child :: .unlock :: ?_, ?_, rfl⟩
        · exact offloadAll children ++ [.done label] ++ .unlock :: offloadAll jobs
        · simp [JobPool.go, JobTree.work, offloadAll, offload]
      | nil =>
        let p₂ := p₁.go none (.done label :: .unlock :: offloadAll jobs) (some none)
        have hc₂ : p₂.code none = .done label :: .unlock :: offloadAll jobs := by
          simp [p₂, JobPool.go]
        have h₃ := h₂.step (JobStep.done hc₂)
        let p₃ : JobPool 0 α := { p₂.go none (.unlock :: offloadAll jobs) (some none) with
          finished := p₂.finished ++ [label] }
        have hc₃ : p₃.code none = .unlock :: offloadAll jobs := by simp [p₃, JobPool.go]
        have h₄ := h₃.step (JobStep.unlock hc₃)
        refine ih ?_ h₄ (by simp [JobPool.go]) rfl
        obtain ⟨job, hm, hne⟩ := hj
        rcases List.mem_cons.mp hm with rfl | hm
        · exact absurd rfl hne
        · exact ⟨job, hm, hne⟩

/-- No thread takes the mutex twice, and when nothing is left to do every job has been
run exactly as often as it was offloaded. -/
def Nests (n : ℕ) (roots : List (JobTree α)) : Prop :=
  ∀ p : JobPool n α, Reachable (· = JobPool.start n roots) JobStep p →
    (∀ t, ¬ SelfLock p t) ∧ (Stuck p → p.finished.Perm (allLabels roots))

/-- Jobs may offload jobs to a pool with workers, but not to one without. -/
theorem nests_iff (n : ℕ) (roots : List (JobTree α)) :
    Nests n roots ↔ 0 < n ∨ ∀ job ∈ roots, job.children = [] := by
  constructor
  · intro h
    rcases Nat.eq_zero_or_pos n with rfl | hn
    · right
      by_contra hc
      obtain ⟨job, hm, hne⟩ : ∃ job ∈ roots, job.children ≠ [] := by simpa using hc
      obtain ⟨q, hq, hl⟩ := relocks ⟨job, hm, hne⟩ (.start rfl) rfl rfl
      exact (h q hq).1 none hl
    · exact Or.inl hn
  · intro h p hp
    have hs : Sound (allLabels roots : Multiset α) p := by
      refine hp.invariant ?_ fun p a q hi hstep => hi.step hstep
      intro p hstart
      cases hstart
      apply start_sound
      intro h0
      exact h.resolve_left h0.not_gt
    exact ⟨hs.no_selfLock, hs.stuck⟩

/-- A job that offloads another one to the pool without workers that runs it. -/
theorem parent_takes_mutex_twice : ¬ Nests 0 [JobTree.node 0 [.node 1 []]] := by
  intro h
  let jobs : List (JobTree ℕ) := [.node 0 [.node 1 []]]
  have hparent : ∃ job ∈ jobs, job.children ≠ [] :=
    ⟨_, List.mem_singleton.mpr rfl, by simp [JobTree.children]⟩
  have hstart : Reachable (· = JobPool.start 0 jobs) JobStep (JobPool.start 0 jobs) := .start rfl
  obtain ⟨q, hq, hl⟩ := relocks hparent hstart rfl rfl
  exact (h q hq).1 none hl

end Messagebus.Proofs.JobTrees
