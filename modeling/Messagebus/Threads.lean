import Mathlib.Logic.Function.Basic
import Messagebus.Bus
import Messagebus.Lib.CondVar
import Messagebus.Lib.Frame
import Messagebus.Lib.Runs

namespace Messagebus
open CondVar Frame

variable {L : Type}

/-- Where a call of `request` has got to. A waiting call that is not in the
wait set of the condition variable has been notified. -/
inductive Call where
  | notMade
  | armed (requestQueue : Bytes) (message : Message) (receiveTimeOut : Int) (address : Bytes)
  | waiting (message : Message)
  | returned (message response : Message)
  | threw (message : Message) (fault : Fault)

def Call.message? : Call → Option Message
  | .notMade => none
  | .armed _ message _ _ | .waiting message | .returned message _ | .threw message _ =>
    some message

/-- The correlation id the call was made with. -/
def Call.uuid (call : Call) : Option Bytes := call.message?.bind Message.correlationId

/-- Made, and neither returned nor thrown yet. -/
def Call.underway : Call → Bool
  | .armed _ _ _ _ | .waiting _ => true
  | _ => false

/-- One bus and its threads: any number of callers of `request`, whose calls are numbered,
threads making the other calls, and the one listener thread. -/
structure State (L : Type) where
  client : Client L
  calls : ℕ → Call
  waitSet : Finset ℕ
  /-- The message that the listener found to match and has not stored yet. -/
  matched : Option Message
  invocations : List (L × Message)

def State.new (clientName : Bytes) : State L := ⟨.new clientName, fun _ => .notMade, ∅, none, []⟩

def Start (s : State L) : Prop := ∃ clientName, s = .new clientName

namespace State

def call (s : State L) (i : ℕ) (requestQueue : Bytes) (message : Message)
    (receiveTimeOut : Int) : State L :=
  match requestArm message s.client with
  | .ok address client =>
    { s with
      client := client
      calls := Function.update s.calls i (.armed requestQueue message receiveTimeOut address) }
  | .error fault client =>
    { s with client := client, calls := Function.update s.calls i (.threw message fault) }

/-- Sending and starting to wait are one step: the mutex is held in between. -/
def send (s : State L) (mlm : Mlm) (i : ℕ) (requestQueue : Bytes) (message : Message)
    (receiveTimeOut : Int) (address : Bytes) : State L :=
  { s with
    client := final (requestSend mlm address requestQueue message receiveTimeOut s.client)
    calls := Function.update s.calls i (.waiting message)
    waitSet := insert i s.waitSet }

def leave (s : State L) (i : ℕ) (message : Message) (timeout : Bool) : State L :=
  match requestLeave timeout s.client with
  | .ok response client =>
    { s with
      client := client
      calls := Function.update s.calls i (.returned message response)
      waitSet := s.waitSet.erase i }
  | .error fault client =>
    { s with
      client := client
      calls := Function.update s.calls i (.threw message fault)
      waitSet := s.waitSet.erase i }

def invoke (s : State L) (client : Client L) (listener : L) (message : Message) : State L :=
  { s with client := client, invocations := s.invocations ++ [(listener, message)] }

end State

inductive Action (L : Type) where
  | call (i : ℕ) (requestQueue : Bytes) (message : Message) (receiveTimeOut : Int)
  | send (i : ℕ) (mlm : Mlm)
  | leave (i : ℕ) (timeout : Bool)
  | api (mlm : Mlm) (call : ApiCall L)
  | stream (subject : Bytes) (content : Zmsg)
  | mailbox (subject : Bytes) (content : Zmsg)
  | store

/-- The steps of everything but the handling of mailbox messages. What runs
into undefined behaviour makes no step: the process is gone. -/
inductive ThreadStep : State L → Action L → State L → Prop where
  | call {s : State L} {i : ℕ} {requestQueue : Bytes} {message : Message} {receiveTimeOut : Int}
      (fresh : s.calls i = .notMade) :
      ThreadStep s (.call i requestQueue message receiveTimeOut)
        (s.call i requestQueue message receiveTimeOut)
  | send {s : State L} {i : ℕ} {mlm : Mlm} {requestQueue : Bytes} {message : Message}
      {receiveTimeOut : Int} {address : Bytes}
      (armed : s.calls i = .armed requestQueue message receiveTimeOut address) :
      ThreadStep s (.send i mlm) (s.send mlm i requestQueue message receiveTimeOut address)
  | ret {s : State L} {i : ℕ} {message : Message}
      (waits : s.calls i = .waiting message) (notified : i ∉ s.waitSet) :
      ThreadStep s (.leave i false) (s.leave i message false)
  | timeOut {s : State L} {i : ℕ} {message : Message} (waits : s.calls i = .waiting message) :
      ThreadStep s (.leave i true) (s.leave i message true)
  | api {s : State L} {mlm : Mlm} {call : ApiCall L}
      (defined : ∀ client, call.run mlm s.client ≠ .error .endIterator client) :
      ThreadStep s (.api mlm call) { s with client := final (call.run mlm s.client) }
  | stream {s : State L} {subject : Bytes} {content : Zmsg} {client : Client L} {listener : L}
      {message : Message} (idle : s.matched = none)
      (handles : listenerHandleStream subject content s.client =
        .ok (.invoke listener message) client) :
      ThreadStep s (.stream subject content) (s.invoke client listener message)
  | streamSkipped {s : State L} {subject : Bytes} {content : Zmsg} {client : Client L}
      (idle : s.matched = none)
      (handles : listenerHandleStream subject content s.client = .ok .skipped client) :
      ThreadStep s (.stream subject content) { s with client := client }

/-- The bus with each call of `listenerHandleMailbox` as one step. -/
inductive Step : State L → Action L → State L → Prop where
  | thread {s t : State L} {a : Action L} (h : ThreadStep s a t) : Step s a t
  | response {s : State L} {subject : Bytes} {content : Zmsg} {client : Client L}
      {message : Message} {W : Finset ℕ}
      (handles : listenerHandleMailbox subject content s.client = .ok (.response message) client)
      (notify : NotifyOne s.waitSet W) :
      Step s (.mailbox subject content) { s with client := client, waitSet := W }
  | invoke {s : State L} {subject : Bytes} {content : Zmsg} {client : Client L} {listener : L}
      {message : Message}
      (handles : listenerHandleMailbox subject content s.client =
        .ok (.invoke listener message) client) :
      Step s (.mailbox subject content) (s.invoke client listener message)
  | skipped {s : State L} {subject : Bytes} {content : Zmsg} {client : Client L}
      (handles : listenerHandleMailbox subject content s.client = .ok .skipped client) :
      Step s (.mailbox subject content) { s with client := client }

/-- The bus with a condition variable as the standard has it: a wait may also end
without a timeout although nobody has notified it. -/
inductive WaitStep : State L → Action L → State L → Prop where
  | step {s t : State L} {a : Action L} (h : Step s a t) : WaitStep s a t
  | spurious {s : State L} {i : ℕ} {message : Message}
      (waits : s.calls i = .waiting message) (asleep : i ∈ s.waitSet) :
      WaitStep s (.leave i false) (s.leave i message false)

/-- The bus with `listenerHandleMailbox` in two steps: the comparison, made
without the mutex, and under it the store. -/
inductive FineStep : State L → Action L → State L → Prop where
  | thread {s t : State L} {a : Action L} (h : ThreadStep s a t) : FineStep s a t
  | compare {s : State L} {subject : Bytes} {content : Zmsg} {message : Message}
      (idle : s.matched = none) (decodes : fromZmsg content = .ok message)
      (hit : syncMatch s.client.bus message = true) :
      FineStep s (.mailbox subject content) { s with matched := some message }
  | store {s : State L} {message : Message} {W : Finset ℕ} (pending : s.matched = some message)
      (notify : NotifyOne s.waitSet W) :
      FineStep s .store
        { s with client := final (storeResponse message s.client), waitSet := W, matched := none }
  | invoke {s : State L} {subject : Bytes} {content : Zmsg} {client : Client L} {listener : L}
      {message sent : Message}
      (idle : s.matched = none) (decodes : fromZmsg content = .ok message)
      (miss : syncMatch s.client.bus message = false)
      (dispatches : dispatchMailbox subject message s.client =
        .ok (.invoke listener sent) client) :
      FineStep s (.mailbox subject content) (s.invoke client listener sent)
  | skipped {s : State L} {subject : Bytes} {content : Zmsg} {client : Client L}
      {message : Message}
      (idle : s.matched = none) (decodes : fromZmsg content = .ok message)
      (miss : syncMatch s.client.bus message = false)
      (dispatches : dispatchMailbox subject message s.client = .ok .skipped client) :
      FineStep s (.mailbox subject content) { s with client := client }

/-- The bus with both, the handler in two steps and waits that end for no reason. -/
inductive LooseStep : State L → Action L → State L → Prop where
  | fine {s t : State L} {a : Action L} (h : FineStep s a t) : LooseStep s a t
  | spurious {s : State L} {i : ℕ} {message : Message}
      (waits : s.calls i = .waiting message) (asleep : i ∈ s.waitSet) :
      LooseStep s (.leave i false) (s.leave i message false)

/-- Requests are made with a correlation id that no other call has. -/
def Distinct (s : State L) : Action L → Prop
  | .call i _ message _ =>
    ∀ j, j ≠ i → message.correlationId ≠ none → (s.calls j).uuid ≠ message.correlationId
  | _ => True

/-- Requests are made one at a time. -/
def OneAtATime (s : State L) : Action L → Prop
  | .call _ _ _ _ => ∀ j, (s.calls j).underway = false
  | _ => True

/-- The runs in which requests are made one at a time with distinct ids. -/
def Orderly (s : State L) (a : Action L) : Prop := OneAtATime s a ∧ Distinct s a

end Messagebus
