import Messagebus.PoolWorker

namespace Messagebus
open Runs

/-- What a callable becomes for the pool: `schedule` hands over a call of a
`std::packaged_task`, `offload` the callable itself. A callable is a value of `φ`; calling
it takes the state that the callables share to the next and returns, or throws. -/
inductive WorkUnit (φ : Type) where
  | packagedTask (fn : φ)
  | bound (fn : φ)

variable {n : ℕ} {φ σ ε ρ : Type}

def WorkUnit.fn : WorkUnit φ → φ
  | .packagedTask fn | .bound fn => fn

/-- What the jobs share: the state of the callables, and the futures that are ready. -/
structure Tasks (φ σ ε ρ : Type) where
  state : σ
  futures : List (φ × Except ε ρ)

/-- `work()`: a `std::packaged_task` stores what comes out of its callable, be it an
exception; from a callable that is called directly the exception escapes. -/
def WorkUnit.run (call : φ → EStateM ε σ ρ) (work : WorkUnit φ) (tasks : Tasks φ σ ε ρ) :
    Option (Tasks φ σ ε ρ) :=
  match work, call work.fn tasks.state with
  | .packagedTask fn, .ok value state => some ⟨state, tasks.futures ++ [(fn, .ok value)]⟩
  | .packagedTask fn, .error what state => some ⟨state, tasks.futures ++ [(fn, .error what)]⟩
  | .bound _, .ok _ state => some { tasks with state := state }
  | .bound _, .error _ _ => none

/-- A pool whose jobs are units of work. -/
abbrev TaskPool (n : ℕ) (φ σ ε ρ : Type) := Pool n (WorkUnit φ) (Tasks φ σ ε ρ)

namespace TaskPool

def schedule (call : φ → EStateM ε σ ρ) (fn : φ) :
    EStateM PoolFault (TaskPool n φ σ ε ρ) Unit :=
  Pool.scheduleWork (WorkUnit.run call) (.packagedTask fn)

def offload (call : φ → EStateM ε σ ρ) (fn : φ) :
    EStateM PoolFault (TaskPool n φ σ ε ρ) Unit :=
  Pool.scheduleWork (WorkUnit.run call) (.bound fn)

/-- The call that hands over a unit of work. -/
def submit (call : φ → EStateM ε σ ρ) : WorkUnit φ → EStateM PoolFault (TaskPool n φ σ ε ρ) Unit
  | .packagedTask fn => schedule call fn
  | .bound fn => offload call fn

end TaskPool

/-- The callable throws. -/
def WorkUnit.throws (call : φ → EStateM ε σ ρ) (work : WorkUnit φ) (tasks : Tasks φ σ ε ρ) :
    Bool :=
  match call work.fn tasks.state with
  | .ok _ _ => false
  | .error _ _ => true

/-- A job that a worker has run, and whether its callable threw. -/
structure Ran (φ : Type) where
  job : Job (WorkUnit φ)
  threw : Bool

/-- What a step adds to the history of the jobs that were run. -/
def ran (call : φ → EStateM ε σ ρ) (p : TaskPool n φ σ ε ρ) :
    PoolAction n (WorkUnit φ) → Option (Ran φ)
  | .finish w =>
    match p.workers w with
    | .running job => some ⟨job, job.work.throws call p.shared⟩
    | _ => none
  | _ => none

end Messagebus
