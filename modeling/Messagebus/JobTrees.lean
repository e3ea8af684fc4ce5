import Mathlib.Data.Fintype.Option
import Messagebus.Lib.CondVar
import Messagebus.Lib.Runs

namespace Messagebus
open CondVar

/-- A job, and the jobs that it offloads while it runs. -/
inductive JobTree (α : Type) where
  | node (label : α) (children : List (JobTree α))

variable {α : Type}

def JobTree.children : JobTree α → List (JobTree α)
  | .node _ children => children

mutual

/-- The jobs of a tree. -/
def JobTree.labels : JobTree α → List α
  | .node label children => label :: allLabels children

def allLabels : List (JobTree α) → List α
  | [] => []
  | job :: jobs => job.labels ++ allLabels jobs

end

/-- `scheduleWork` is what it does under the mutex, `await` the test of the wait's
predicate, `asleep` the wait itself, `drain` the inner loop, and `done` the end of
a job. -/
inductive Instr (α : Type) where
  | lock
  | unlock
  | scheduleWork (job : JobTree α)
  | done (label : α)
  | await
  | asleep
  | drain

/-- What a thread has yet to do. -/
abbrev Code (α : Type) := List (Instr α)

def offload (job : JobTree α) : Code α := [.lock, .scheduleWork job, .unlock]

def offloadAll (jobs : List (JobTree α)) : Code α := jobs.flatMap offload

/-- A job offloads its children and comes to its end. -/
def JobTree.work : JobTree α → Code α
  | .node label children => offloadAll children ++ [.done label]

def workerMainloop : Code α := [.lock, .await, .drain]

/-- The workers, and `none` for the thread outside of the pool. -/
abbrev Thread (n : ℕ) := Option (Fin n)

/-- A pool of `n` workers with jobs that offload further jobs to it. Its threads go
instruction by instruction, so that `m_mutex` is followed into the code of the jobs.
The pool is not being destroyed: `m_terminated` stays false. `finished` is a record of
the jobs that have been run. -/
structure JobPool (n : ℕ) (α : Type) where
  jobs : List (JobTree α)
  holder : Option (Thread n)
  code : Thread n → Code α
  waitSet : Finset (Fin n)
  finished : List α

variable {n : ℕ}

/-- The thread outside offloads the given jobs. -/
def JobPool.start (n : ℕ) (roots : List (JobTree α)) : JobPool n α where
  jobs := []
  holder := none
  code
    | none => offloadAll roots
    | some _ => workerMainloop
  waitSet := ∅
  finished := []

/-- A thread goes on to some code, and the mutex with it. -/
def JobPool.go (p : JobPool n α) (t : Thread n) (code : Code α) (holder : Option (Thread n)) :
    JobPool n α :=
  { p with code := Function.update p.code t code, holder := holder }

inductive JobAction (n : ℕ) where
  | go (t : Thread n)
  | spurious (w : Fin n)

/-- A mutex that is taken, be it by the same thread, is not taken again. -/
inductive JobStep : JobPool n α → JobAction n → JobPool n α → Prop where
  | lock {p : JobPool n α} {t : Thread n} {k : Code α} (next : p.code t = .lock :: k)
      (available : p.holder = none) : JobStep p (.go t) (p.go t k (some t))
  | unlock {p : JobPool n α} {t : Thread n} {k : Code α} (next : p.code t = .unlock :: k) :
      JobStep p (.go t) (p.go t k none)
  | runInline {p : JobPool n α} {t : Thread n} {job : JobTree α} {k : Code α}
      (next : p.code t = .scheduleWork job :: k) (unmanned : n = 0) :
      JobStep p (.go t) (p.go t (job.work ++ k) p.holder)
  | enqueue {p : JobPool n α} {t : Thread n} {job : JobTree α} {k : Code α} {W : Finset (Fin n)}
      (next : p.code t = .scheduleWork job :: k) (manned : 0 < n) (notify : NotifyOne p.waitSet W) :
      JobStep p (.go t) { p.go t k p.holder with jobs := p.jobs ++ [job], waitSet := W }
  | done {p : JobPool n α} {t : Thread n} {label : α} {k : Code α}
      (next : p.code t = .done label :: k) :
      JobStep p (.go t) { p.go t k p.holder with finished := p.finished ++ [label] }
  | pass {p : JobPool n α} {w : Fin n} {k : Code α} (next : p.code (some w) = .await :: k)
      (ready : p.jobs ≠ []) : JobStep p (.go (some w)) (p.go (some w) k p.holder)
  | sleep {p : JobPool n α} {w : Fin n} {k : Code α} (next : p.code (some w) = .await :: k)
      (unready : p.jobs = []) :
      JobStep p (.go (some w))
        { p.go (some w) (.asleep :: k) none with waitSet := insert w p.waitSet }
  | wake {p : JobPool n α} {w : Fin n} {k : Code α} (next : p.code (some w) = .asleep :: k)
      (woken : w ∉ p.waitSet) (available : p.holder = none) :
      JobStep p (.go (some w)) (p.go (some w) (.await :: k) (some (some w)))
  | take {p : JobPool n α} {w : Fin n} {job : JobTree α} {jobs : List (JobTree α)} {k : Code α}
      (next : p.code (some w) = .drain :: k) (queued : p.jobs = job :: jobs) :
      JobStep p (.go (some w))
        { p.go (some w) (job.work ++ .lock :: .drain :: k) none with jobs := jobs }
  | loop {p : JobPool n α} {w : Fin n} {k : Code α} (next : p.code (some w) = .drain :: k)
      (drained : p.jobs = []) :
      JobStep p (.go (some w)) (p.go (some w) (workerMainloop ++ k) none)
  | spurious {p : JobPool n α} {w : Fin n} (asleep : w ∈ p.waitSet) :
      JobStep p (.spurious w) { p with waitSet := p.waitSet.erase w }

/-- A thread is about to take the mutex that it has. -/
def SelfLock (p : JobPool n α) (t : Thread n) : Prop :=
  ∃ k, p.code t = .lock :: k ∧ p.holder = some t

/-- No step is left to take but for waking for no reason. -/
def Stuck (p : JobPool n α) : Prop := ∀ t q, ¬ JobStep p (.go t) q

end Messagebus
