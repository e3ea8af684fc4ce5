import Messagebus.Lib.Runs

namespace Messagebus.Cli

/-- Where the main thread is. When it is `checked` it has found `g_exit` false and is
not in the wait set yet. -/
inductive Place where
  | starting
  | installed
  | checked
  | asleep
  | woken
  | returned
  | killed
deriving DecidableEq

/-- The `receive` and `subscribe` actions of `fty-msgbus-cli` as they wait for their
interrupt: the handler writes `g_exit` and notifies without the mutex. -/
structure Waiter where
  place : Place
  g_exit : Bool
deriving DecidableEq

inductive WaitAction where
  | setSignalHandler
  | check
  | sleep
  | spurious
  | signal
deriving DecidableEq

namespace Waiter

def start : Waiter := ⟨.starting, false⟩

/-- The predicate of the wait is evaluated before the first sleep and after each one.
Without the handler a signal ends the process. -/
inductive Step : Waiter → WaitAction → Waiter → Prop where
  | setSignalHandler {s : Waiter} (starting : s.place = .starting) :
      Step s .setSignalHandler { s with place := .installed }
  | check {s : Waiter} (awake : s.place = .installed ∨ s.place = .woken) :
      Step s .check { s with place := if s.g_exit then .returned else .checked }
  | sleep {s : Waiter} (checked : s.place = .checked) : Step s .sleep { s with place := .asleep }
  | spurious {s : Waiter} (asleep : s.place = .asleep) :
      Step s .spurious { s with place := .woken }
  | kill {s : Waiter} (starting : s.place = .starting) :
      Step s .signal { s with place := .killed }
  | wake {s : Waiter} (asleep : s.place = .asleep) : Step s .signal ⟨.woken, true⟩
  | signal {s : Waiter} (installed : s.place ≠ .starting) (awake : s.place ≠ .asleep)
      (alive : s.place ≠ .killed) : Step s .signal { s with g_exit := true }

end Waiter

/-- What the main thread does when there is no signal and no wake-up for no reason. -/
def WaitAction.own : WaitAction → Bool
  | .check | .sleep => true
  | _ => false

end Messagebus.Cli
