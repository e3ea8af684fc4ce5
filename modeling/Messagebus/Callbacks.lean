import Messagebus.Threads

namespace Messagebus

/-- What the listener thread is doing. In a callback it may be inside a call of
`request`, which then has the given number. -/
inductive ListenerThread where
  | idle
  | callback (inner : Option ℕ)

/-- The bus with callbacks that take time: a listener that was invoked has the listener
thread to itself until it is done, and may call the bus meanwhile. -/
structure CallbackState (L : Type) where
  bus : State L
  thread : ListenerThread

variable {L : Type}

def CallbackState.Start (s : CallbackState L) : Prop :=
  ∃ clientName, s = ⟨.new clientName, .idle⟩

/-- The steps that `listenerMainloop` takes. -/
def Action.handling : Action L → Bool
  | .stream _ _ | .mailbox _ _ | .store => true
  | _ => false

inductive CallbackAction (L : Type) where
  | act (a : Action L)
  | request (i : ℕ) (requestQueue : Bytes) (message : Message) (receiveTimeOut : Int)
  | finish

/-- In a callback, and not inside a call of `request`. -/
def CallbackState.Free (s : CallbackState L) : Prop :=
  ∃ inner, s.thread = .callback inner ∧ ∀ i, inner = some i → (s.bus.calls i).underway = false

/-- Only `request` keeps the caller waiting, so of the calls that a callback makes
only these are told apart from those of other threads. -/
inductive CallbackStep : CallbackState L → CallbackAction L → CallbackState L → Prop where
  | caller {s : CallbackState L} {a : Action L} {t : State L} (other : a.handling = false)
      (h : ThreadStep s.bus a t) : CallbackStep s (.act a) { s with bus := t }
  | handle {s : CallbackState L} {a : Action L} {t : State L} (mine : a.handling = true)
      (idle : s.thread = .idle) (h : FineStep s.bus a t) (quiet : t.invocations = s.bus.invocations) :
      CallbackStep s (.act a) { s with bus := t }
  | invoke {s : CallbackState L} {a : Action L} {t : State L} (mine : a.handling = true)
      (idle : s.thread = .idle) (h : FineStep s.bus a t) (calls : t.invocations ≠ s.bus.invocations) :
      CallbackStep s (.act a) ⟨t, .callback none⟩
  | request {s : CallbackState L} {i : ℕ} {requestQueue : Bytes} {message : Message}
      {receiveTimeOut : Int} (free : s.Free) (fresh : s.bus.calls i = .notMade) :
      CallbackStep s (.request i requestQueue message receiveTimeOut)
        ⟨s.bus.call i requestQueue message receiveTimeOut, .callback (some i)⟩
  | finish {s : CallbackState L} (free : s.Free) : CallbackStep s .finish ⟨s.bus, .idle⟩

end Messagebus
