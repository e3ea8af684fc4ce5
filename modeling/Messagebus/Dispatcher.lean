import Messagebus.Lib.Parts
import Messagebus.Lib.SortedMap

namespace Messagebus

/-- How a call of a `std::function` throws: because there is nothing to call, or as
its target does. -/
inductive Thrown (ε : Type) where
  | badFunctionCall
  | byTarget (e : ε)
deriving DecidableEq

/-- A callable object: what it keeps between its calls, and what a call does. What it
reads and writes elsewhere is part of its argument and of its result. -/
structure Callable (σ α ρ ε : Type) where
  kept : σ
  body : σ → α → Except ε ρ × σ

/-- A `std::function`, which may be empty. -/
abbrev StdFunction (σ α ρ ε : Type) := Option (Callable σ α ρ ε)

variable {κ σ μ α ρ ε : Type}

def StdFunction.call : StdFunction σ α ρ ε → α → Except (Thrown ε) ρ × StdFunction σ α ρ ε
  | none, _ => (.error .badFunctionCall, none)
  | some f, a =>
    let (result, kept) := f.body f.kept a
    (result.mapError .byTarget, some { f with kept := kept })

/-- A callable that chooses another one by a key. The callables of the map may differ from
the default handler in what they keep. -/
structure Dispatcher (κ σ μ α ρ ε : Type) [LinearOrder κ] where
  map : SortedMap κ (StdFunction σ α ρ ε)
  defaultHandler : StdFunction μ (κ × α) ρ ε

namespace Dispatcher

variable [LinearOrder κ]

/-- The constructor without default handler. -/
def ofMap (map : SortedMap κ (StdFunction σ α ρ ε)) : Dispatcher κ σ μ α ρ ε := ⟨map, none⟩

/-- `operator()`: the callable is called where it is in the map. -/
def call (d : Dispatcher κ σ μ α ρ ε) (c : κ × α) :
    Except (Thrown ε) ρ × Dispatcher κ σ μ α ρ ε :=
  match d.map.find c.1 with
  | some it => ((it.call c.2).1, { d with map := d.map.assign c.1 (it.call c.2).2 })
  | none => ((d.defaultHandler.call c).1, { d with defaultHandler := (d.defaultHandler.call c).2 })

/-- Calls one after the other, each with its outcome. An exception is caught by the caller. -/
def run (d : Dispatcher κ σ μ α ρ ε) (calls : List (κ × α)) :
    List ((κ × α) × Except (Thrown ε) ρ) × Dispatcher κ σ μ α ρ ε :=
  Parts.run call d calls

end Dispatcher

end Messagebus
