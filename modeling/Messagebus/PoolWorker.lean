import Mathlib.Data.Fintype.BigOperators
import Messagebus.Lib.CondVar
import Messagebus.Lib.Runs

namespace Messagebus
open CondVar Runs

/-- A scheduled unit of work, numbered so that equal ones are told apart. -/
structure Job (ω : Type) where
  ticket : ℕ
  work : ω
deriving DecidableEq

/-- Where a worker has got to in its main loop. At the top it waits, if it is in
the wait set, or is about to take the mutex and look at the predicate. -/
inductive Worker (ω : Type) where
  | top
  | running (job : Job ω)
  | relock
  | exited

/-- A `PoolWorker` with `n` workers. A job is a value of `ω`; running it takes the state
shared by the jobs to the next, or lets an exception escape (`none`). `accepted`,
`started` and `finished` are a record of what happened; no code reads them. -/
structure Pool (n : ℕ) (ω σ : Type) where
  terminated : Bool
  jobs : List (Job ω)
  workers : Fin n → Worker ω
  waitSet : Finset (Fin n)
  shared : σ
  /-- An exception has left a thread: `std::terminate`. -/
  aborted : Bool
  accepted : List (Job ω)
  started : List (Job ω)
  finished : List (Job ω)

inductive PoolFault where
  | runtimeError (what : String)
  | escaped

namespace Pool

variable {n : ℕ} {ω σ : Type}

def new (n : ℕ) (shared : σ) : Pool n ω σ where
  terminated := false
  jobs := []
  workers := fun _ => .top
  waitSet := ∅
  shared := shared
  aborted := false
  accepted := []
  started := []
  finished := []

def nextJob (p : Pool n ω σ) (work : ω) : Job ω := ⟨p.accepted.length, work⟩

/-- No workers: the job runs under the mutex, in the thread that schedules it. -/
def runInline (p : Pool n ω σ) (work : ω) (shared : σ) : Pool n ω σ :=
  { p with
    shared := shared
    accepted := p.accepted ++ [p.nextJob work]
    started := p.started ++ [p.nextJob work]
    finished := p.finished ++ [p.nextJob work] }

def enqueue (p : Pool n ω σ) (work : ω) : Pool n ω σ :=
  { p with
    jobs := p.jobs ++ [p.nextJob work]
    accepted := p.accepted ++ [p.nextJob work] }

def scheduleWork (run : ω → σ → Option σ) (work : ω) : EStateM PoolFault (Pool n ω σ) Unit := do
  let p ← get
  if p.terminated then
    throw (.runtimeError "PoolThread is terminated")
  if n = 0 then
    match run work p.shared with
    | none => throw .escaped
    | some shared => set (p.runInline work shared)
  else
    set (p.enqueue work)

def start (p : Pool n ω σ) (w : Fin n) (job : Job ω) (jobs : List (Job ω)) : Pool n ω σ :=
  { p with
    jobs := jobs
    workers := Function.update p.workers w (.running job)
    started := p.started ++ [job] }

def move (p : Pool n ω σ) (w : Fin n) (worker : Worker ω) : Pool n ω σ :=
  { p with workers := Function.update p.workers w worker }

/-- From the test of the inner loop on, under the mutex: the next job is taken,
or the worker leaves, or it goes back to the top. -/
def drain (p : Pool n ω σ) (w : Fin n) : Pool n ω σ :=
  match p.jobs with
  | job :: jobs => p.start w job jobs
  | [] => p.move w (if p.terminated then .exited else .top)

/-- The predicate of the wait. -/
def wakes (p : Pool n ω σ) : Bool := p.terminated || !p.jobs.isEmpty

/-- The top of the main loop: the predicate is tested and the wait begun or
passed under the same hold of the mutex. -/
def check (p : Pool n ω σ) (w : Fin n) : Pool n ω σ :=
  if p.wakes then p.drain w else { p with waitSet := insert w p.waitSet }

def finish (p : Pool n ω σ) (w : Fin n) (job : Job ω) (shared : σ) : Pool n ω σ :=
  { p with
    workers := Function.update p.workers w .relock
    shared := shared
    finished := p.finished ++ [job] }

/-- The destructor, up to the joins. -/
def terminate (p : Pool n ω σ) : Pool n ω σ := { p with terminated := true, waitSet := ∅ }

end Pool

inductive PoolAction (n : ℕ) (ω : Type) where
  | schedule (work : ω)
  | check (w : Fin n)
  | finish (w : Fin n)
  | relock (w : Fin n)
  | spurious (w : Fin n)
  | terminate

/-- The atomic steps: the sections under `m_mutex` and, outside of it, the end of a job.
`runInline` and `enqueue` are the branches of `scheduleWork` for a pool without workers
and with some; only the second notifies. -/
inductive Pool.Section {n : ℕ} {ω σ : Type} (run : ω → σ → Option σ) :
    Pool n ω σ → PoolAction n ω → Pool n ω σ → Prop where
  | runInline {p q : Pool n ω σ} {work : ω} (unmanned : n = 0)
      (returns : scheduleWork run work p = .ok () q) : Section run p (.schedule work) q
  | enqueue {p q : Pool n ω σ} {work : ω} {W : Finset (Fin n)} (manned : 0 < n)
      (returns : scheduleWork run work p = .ok () q) (notify : NotifyOne q.waitSet W) :
      Section run p (.schedule work) { q with waitSet := W }
  | refuse {p q : Pool n ω σ} {work : ω} {fault : PoolFault}
      (throws : scheduleWork run work p = .error fault q) : Section run p (.schedule work) q
  | check {p : Pool n ω σ} {w : Fin n} (top : p.workers w = .top) (awake : w ∉ p.waitSet) :
      Section run p (.check w) (p.check w)
  | finish {p : Pool n ω σ} {w : Fin n} {job : Job ω} {shared : σ}
      (runs : p.workers w = .running job) (returns : run job.work p.shared = some shared) :
      Section run p (.finish w) (p.finish w job shared)
  | escape {p : Pool n ω σ} {w : Fin n} {job : Job ω}
      (runs : p.workers w = .running job) (throws : run job.work p.shared = none) :
      Section run p (.finish w) { p with aborted := true }
  | relock {p : Pool n ω σ} {w : Fin n} (back : p.workers w = .relock) :
      Section run p (.relock w) (p.drain w)
  | spurious {p : Pool n ω σ} {w : Fin n} (waits : w ∈ p.waitSet) :
      Section run p (.spurious w) { p with waitSet := p.waitSet.erase w }
  | terminate {p : Pool n ω σ} (manned : 0 < n) : Section run p .terminate p.terminate

/-- The steps of a pool end with the process. -/
def Pool.Step {n : ℕ} {ω σ : Type} (run : ω → σ → Option σ) :
    Pool n ω σ → PoolAction n ω → Pool n ω σ → Prop :=
  restrict (fun p _ => p.aborted = false) (Pool.Section run)

def Pool.Start {n : ℕ} {ω σ : Type} (p : Pool n ω σ) : Prop := ∃ shared, p = .new n shared

/-- How many of the jobs have a ticket. -/
def times {ω : Type} (jobs : List (Job ω)) (ticket : ℕ) : ℕ :=
  jobs.countP (fun job => job.ticket = ticket)

/-- Between its start and its end. -/
def Worker.job {ω : Type} : Worker ω → Multiset (Job ω)
  | .running job => {job}
  | _ => 0

def Pool.inFlight {n : ℕ} {ω σ : Type} (p : Pool n ω σ) : Multiset (Job ω) :=
  ∑ w, (p.workers w).job

/-- What the source says of the destructor: every worker can be joined. -/
def Pool.AllExited {n : ℕ} {ω σ : Type} (p : Pool n ω σ) : Prop := ∀ w, p.workers w = .exited

/-- One thread that offloads jobs in order and then destroys the pool, between the
steps of the workers. The destructor sets `m_terminated` once, and only if there are
workers; from then on it waits for the joins. -/
inductive OffloadStep {n : ℕ} {ω σ : Type} (run : ω → σ → Option σ) :
    Pool n ω σ × List ω → PoolAction n ω → Pool n ω σ × List ω → Prop where
  | offload {p q : Pool n ω σ} {work : ω} {rest : List ω}
      (step : p.Step run (.schedule work) q) :
      OffloadStep run (p, work :: rest) (.schedule work) (q, rest)
  | destroy {p q : Pool n ω σ} (alive : p.terminated = false) (step : p.Step run .terminate q) :
      OffloadStep run (p, []) .terminate (q, [])
  | worker {p q : Pool n ω σ} {rest : List ω} {a : PoolAction n ω}
      (not_offload : ∀ work, a ≠ .schedule work) (not_destroy : a ≠ .terminate)
      (step : p.Step run a q) : OffloadStep run (p, rest) a (q, rest)

end Messagebus
