import Messagebus.Threads

namespace Messagebus
open CondVar Frame

variable {L : Type}

/-- Where a call of `request` has got to. From `locked` to `sent` it has the mutex;
`sending` is inside `mlm_client_sendto`. An `expired` wait has timed out and wants
the mutex back, and so does a `waiting` call that is not in the wait set. -/
inductive Phase where
  | notMade
  | armed (requestQueue : Bytes) (message : Message) (receiveTimeOut : Int) (address : Bytes)
  | locked (requestQueue : Bytes) (message : Message) (receiveTimeOut : Int) (address : Bytes)
  | sending (message : Message)
  | sent (message : Message)
  | waiting (message : Message)
  | expired (message : Message)
  | returned (message response : Message)
  | threw (message : Message) (fault : Fault)

def Phase.message? : Phase → Option Message
  | .notMade => none
  | .armed _ message _ _ | .locked _ message _ _ | .sending message | .sent message
  | .waiting message | .expired message | .returned message _ | .threw message _ => some message

/-- The correlation id the call was made with. -/
def Phase.uuid (phase : Phase) : Option Bytes := phase.message?.bind Message.correlationId

def Phase.underway : Phase → Bool
  | .notMade | .returned _ _ | .threw _ _ => false
  | _ => true

/-- The call has the mutex. -/
def Phase.holds : Phase → Bool
  | .locked _ _ _ _ | .sending _ | .sent _ => true
  | _ => false

/-- The listener in `listenerHandleMailbox`, with the message that it found to match. -/
inductive Handler where
  | idle
  | matched (message : Message)
  | locked (message : Message)

def Handler.message? : Handler → Option Message
  | .idle => none
  | .matched message | .locked message => some message

inductive Owner where
  | caller (i : ℕ)
  | listener
deriving DecidableEq

/-- The bus in the steps of `request` and `listenerHandleMailbox` between which `m_cv_mtx`
can change hands. The last four fields are there for what is said about the runs: the
call made last, the calls that have woken for no reason, and the messages that the
listener has compared and stored. -/
structure LockState (L : Type) where
  client : Client L
  calls : ℕ → Phase
  waitSet : Finset ℕ
  mutex : Option Owner
  handler : Handler
  invocations : List (L × Message)
  current : Option ℕ
  startled : Finset ℕ
  compared : List Message
  stored : List Message

def LockState.Start (s : LockState L) : Prop :=
  ∃ clientName, s = ⟨.new clientName, fun _ => .notMade, ∅, none, .idle, [], none, ∅, [], []⟩

namespace LockState

def call (s : LockState L) (i : ℕ) (requestQueue : Bytes) (message : Message)
    (receiveTimeOut : Int) : LockState L :=
  match requestArm message s.client with
  | .ok address client =>
    { s with
      client := client
      calls := Function.update s.calls i (.armed requestQueue message receiveTimeOut address)
      current := some i }
  | .error fault client =>
    { s with
      client := client
      calls := Function.update s.calls i (.threw message fault)
      current := some i }

def leave (s : LockState L) (i : ℕ) (message : Message) (timeout : Bool) : LockState L :=
  match requestLeave timeout s.client with
  | .ok response client =>
    { s with client := client, calls := Function.update s.calls i (.returned message response) }
  | .error fault client =>
    { s with client := client, calls := Function.update s.calls i (.threw message fault) }

end LockState

inductive LockAction (L : Type) where
  | call (i : ℕ) (requestQueue : Bytes) (message : Message) (receiveTimeOut : Int)
  | lock (i : ℕ)
  | send (i : ℕ) (mlm : Mlm)
  | sent (i : ℕ)
  | wait (i : ℕ)
  | expire (i : ℕ)
  | startle (i : ℕ)
  | leave (i : ℕ)
  | api (mlm : Mlm) (call : ApiCall L)
  | stream (subject : Bytes) (content : Zmsg)
  | mailbox (subject : Bytes) (content : Zmsg)
  | lockHandler
  | store

/-- Entering the wait gives up the mutex and joins the wait set in one step, and
leaving it takes the mutex. A wait may also end for no reason. -/
inductive LockStep : LockState L → LockAction L → LockState L → Prop where
  | call {s : LockState L} {i : ℕ} {requestQueue : Bytes} {message : Message}
      {receiveTimeOut : Int} (fresh : s.calls i = .notMade) :
      LockStep s (.call i requestQueue message receiveTimeOut)
        (s.call i requestQueue message receiveTimeOut)
  | lock {s : LockState L} {i : ℕ} {requestQueue address : Bytes} {message : Message}
      {receiveTimeOut : Int}
      (armed : s.calls i = .armed requestQueue message receiveTimeOut address)
      (available : s.mutex = none) :
      LockStep s (.lock i)
        { s with
          calls := Function.update s.calls i (.locked requestQueue message receiveTimeOut address)
          mutex := some (.caller i) }
  | send {s : LockState L} {i : ℕ} {mlm : Mlm} {requestQueue address : Bytes} {message : Message}
      {receiveTimeOut : Int}
      (locked : s.calls i = .locked requestQueue message receiveTimeOut address) :
      LockStep s (.send i mlm)
        { s with
          client := final (requestSend mlm address requestQueue message receiveTimeOut s.client)
          calls := Function.update s.calls i (.sending message) }
  | sent {s : LockState L} {i : ℕ} {message : Message} (sending : s.calls i = .sending message) :
      LockStep s (.sent i) { s with calls := Function.update s.calls i (.sent message) }
  | wait {s : LockState L} {i : ℕ} {message : Message} (sent : s.calls i = .sent message) :
      LockStep s (.wait i)
        { s with
          calls := Function.update s.calls i (.waiting message)
          waitSet := insert i s.waitSet
          mutex := none }
  | expire {s : LockState L} {i : ℕ} {message : Message} (waits : s.calls i = .waiting message) :
      LockStep s (.expire i)
        { s with
          calls := Function.update s.calls i (.expired message)
          waitSet := s.waitSet.erase i }
  | startle {s : LockState L} {i : ℕ} (asleep : i ∈ s.waitSet) :
      LockStep s (.startle i)
        { s with waitSet := s.waitSet.erase i, startled := insert i s.startled }
  | ret {s : LockState L} {i : ℕ} {message : Message} (waits : s.calls i = .waiting message)
      (woken : i ∉ s.waitSet) (available : s.mutex = none) :
      LockStep s (.leave i) (s.leave i message false)
  | timeOut {s : LockState L} {i : ℕ} {message : Message} (expired : s.calls i = .expired message)
      (available : s.mutex = none) : LockStep s (.leave i) (s.leave i message true)
  | api {s : LockState L} {mlm : Mlm} {call : ApiCall L}
      (defined : ∀ client, call.run mlm s.client ≠ .error .endIterator client) :
      LockStep s (.api mlm call) { s with client := final (call.run mlm s.client) }
  | stream {s : LockState L} {subject : Bytes} {content : Zmsg} {client : Client L} {listener : L}
      {message : Message} (idle : s.handler = .idle)
      (handles : listenerHandleStream subject content s.client =
        .ok (.invoke listener message) client) :
      LockStep s (.stream subject content)
        { s with client := client, invocations := s.invocations ++ [(listener, message)] }
  | streamSkipped {s : LockState L} {subject : Bytes} {content : Zmsg} {client : Client L}
      (idle : s.handler = .idle)
      (handles : listenerHandleStream subject content s.client = .ok .skipped client) :
      LockStep s (.stream subject content) { s with client := client }
  | compare {s : LockState L} {subject : Bytes} {content : Zmsg} {message : Message}
      (idle : s.handler = .idle) (decodes : fromZmsg content = .ok message)
      (hit : syncMatch s.client.bus message = true) :
      LockStep s (.mailbox subject content)
        { s with handler := .matched message, compared := s.compared ++ [message] }
  | invoke {s : LockState L} {subject : Bytes} {content : Zmsg} {client : Client L} {listener : L}
      {message called : Message} (idle : s.handler = .idle) (decodes : fromZmsg content = .ok message)
      (miss : syncMatch s.client.bus message = false)
      (dispatches : dispatchMailbox subject message s.client =
        .ok (.invoke listener called) client) :
      LockStep s (.mailbox subject content)
        { s with
          client := client
          invocations := s.invocations ++ [(listener, called)]
          compared := s.compared ++ [message] }
  | skipped {s : LockState L} {subject : Bytes} {content : Zmsg} {client : Client L}
      {message : Message} (idle : s.handler = .idle) (decodes : fromZmsg content = .ok message)
      (miss : syncMatch s.client.bus message = false)
      (dispatches : dispatchMailbox subject message s.client = .ok .skipped client) :
      LockStep s (.mailbox subject content)
        { s with client := client, compared := s.compared ++ [message] }
  | lockHandler {s : LockState L} {message : Message} (found : s.handler = .matched message)
      (available : s.mutex = none) :
      LockStep s .lockHandler
        { s with handler := .locked message, mutex := some .listener }
  | store {s : LockState L} {message : Message} {W : Finset ℕ} (locked : s.handler = .locked message)
      (notify : NotifyOne s.waitSet W) :
      LockStep s .store
        { s with
          client := final (storeResponse message s.client)
          waitSet := W
          mutex := none
          handler := .idle
          stored := s.stored ++ [message] }

/-- The call has not come to its sending, and may never do so. -/
def Phase.unsent : Phase → Bool
  | .armed _ _ _ _ | .locked _ _ _ _ => true
  | .threw _ fault => fault ≠ .thrown "Request timed out."
  | _ => false

/-- Requests are made one at a time, and no message with the id of a request comes
in before the request is sent. -/
def FreshIds (s : LockState L) : LockAction L → Prop
  | .call _ _ message _ => (∀ j, (s.calls j).underway = false) ∧
    ∀ m ∈ s.compared, message.correlationId ≠ none → m.correlationId ≠ message.correlationId
  | .mailbox _ content => ∀ m, fromZmsg content = .ok m → ∀ i, s.current = some i →
    (s.calls i).unsent = true → m.correlationId ≠ none →
      m.correlationId ≠ (s.calls i).uuid
  | _ => True

end Messagebus
