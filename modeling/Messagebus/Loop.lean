import Messagebus.Bus
import Messagebus.Lib.Format

namespace Messagebus

/-- How the call of a listener ends: it returns, or throws a `std::exception` or any other.
The listeners here do not call back into the bus, and which end it is is the choice of
the environment. -/
inductive Ending where
  | returns
  | throws (what : Bytes)
  | throwsOther

/-- What `mlm_client_recv` hands over, with the `command`, the `subject` and the
`sender` that the client holds of it. -/
structure Received where
  command : Bytes
  subject : Bytes
  sender : Bytes
  content : Zmsg

/-- What `zpoller_wait` comes back for. A command on the pipe is never null here. -/
inductive Event where
  | command (actorCommand : Bytes)
  | nothing
  | closed
  | received (message : Received)

/-- What leaves a function other than by its return. The last two are undefined. -/
inductive Escape where
  | exception (what : Bytes)
  | otherException
  | fault (fault : Fault)
  | missingArgument

/-- The listener thread: the messages it has handled, the calls of listeners, each
with the number of the message it was for, and the errors and warnings it has
written of its own. -/
structure Loop (L : Type) where
  client : Client L
  handled : List Received
  invocations : List (ℕ × L × Message)
  reports : List Bytes

def Loop.start {L : Type} (client : Client L) : Loop L := ⟨client, [], [], []⟩

abbrev LoopOp (L : Type) := EStateM Escape (Loop L)

variable {L : Type}

/-- A member function of the bus that is called from the loop. -/
def onBus {α : Type} (x : Op L α) : LoopOp L α := fun s =>
  match x s.client with
  | .ok a client => .ok a { s with client := client }
  | .error fault client => .error (.fault fault) { s with client := client }

def formatByte (c : Char) : Fin 256 := ⟨c.toNat % 256, Nat.mod_lt c.toNat (Nat.zero_lt_succ 255)⟩

/-- `log_warning` and `log_error`, which take their arguments like `printf`. -/
def report (format : String) (arguments : List Bytes) : LoopOp L Unit := fun s =>
  match Format.expand formatByte format.toList (arguments.map cStr) with
  | some text => .ok () { s with reports := s.reports ++ [text] }
  | none => .error .missingArgument s

def enter (message : Received) : LoopOp L Unit :=
  modify fun s => { s with handled := s.handled ++ [message] }

def callListener (endings : ℕ → Ending) (listener : L) (message : Message) :
    LoopOp L Unit := fun s =>
  let t := { s with invocations := s.invocations ++ [(s.handled.length, listener, message)] }
  match endings s.invocations.length with
  | .returns => .ok () t
  | .throws what => .error (.exception what) t
  | .throwsOther => .error .otherException t

/-- The two `catch` clauses around the call of a listener. -/
def catching (known unknown : String) (name : Bytes) (x : LoopOp L Unit) : LoopOp L Unit := fun s =>
  match x s with
  | .error (.exception what) t => report known [name, what] t
  | .error .otherException t => report unknown [name] t
  | result => result

/-- A handler of the bus together with the call that it comes to. -/
def deliver (endings : ℕ → Ending) (known unknown : String) (message : Received)
    (handler : Op L (Handled L)) : LoopOp L Unit := do
  enter message
  match ← onBus handler with
  | .invoke listener msg =>
    catching known unknown message.subject (callListener endings listener msg)
  | .response _ | .skipped => return ()

def handleMailbox (endings : ℕ → Ending) (message : Received) : LoopOp L Unit :=
  deliver endings "Error in listener of queue '%s': '%s'"
    "Error in listener of queue '%s': 'unknown error'" message
    (listenerHandleMailbox message.subject message.content)

def handleStream (endings : ℕ → Ending) (message : Received) : LoopOp L Unit :=
  deliver endings "Error in listener of topic '%s': '%s'"
    "Error in listener of topic '%s': 'unknown error'" message
    (listenerHandleStream message.subject message.content)

/-- A pattern that the loop does not know. -/
def handleUnknown (message : Received) : LoopOp L Unit := do
  enter message
  let clientName := (← get).client.bus.clientName
  report "%s - unknown malamute pattern '%s' from '%s' subject '%s'"
    [clientName, message.command, message.sender, message.subject]

/-- The choice of the handler by the pattern of the message. -/
def handleReceived (endings : ℕ → Ending) (message : Received) : LoopOp L Unit :=
  if message.command = lit "MAILBOX DELIVER" then handleMailbox endings message
  else if message.command = lit "STREAM DELIVER" then handleStream endings message
  else handleUnknown message

/-- One turn of the loop; the result is `stopping`. -/
def handleEvent (endings : ℕ → Ending) : Event → LoopOp L Bool
  | .command actorCommand => do
    if actorCommand = lit "$TERM" then
      return true
    -- The client's name is missing here.
    report "%s - received '%s' on pipe, ignored" [actorCommand]
    return false
  | .nothing => return false
  | .closed => return true
  | .received message => do
    handleReceived endings message
    return false

/-- The loop over a finite sequence of events. It is `none` that it returns while it
waits for more of them, and the events it never saw if it was stopped. -/
def listenerMainloop (endings : ℕ → Ending) : List Event → LoopOp L (Option (List Event))
  | [] => return none
  | event :: events => do
    let stopping ← handleEvent endings event
    if stopping then
      return some events
    listenerMainloop endings events

end Messagebus
