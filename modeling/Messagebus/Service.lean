import Messagebus.Loop

namespace Messagebus

/-- The objects that `fty_common_messagebus_dto` puts into user data. -/
structure FooBar where
  foo : Bytes
  bar : Bytes
deriving DecidableEq

/-- What is undefined in a listener: the front of an empty list, the value of an iterator
equal to `end()`. -/
inductive Misread where
  | emptyFront
  | endIterator
deriving DecidableEq

/-- `front` and the `pop_front` after it. -/
def takeFront : UserData → Except Misread (Bytes × UserData)
  | [] => .error .emptyFront
  | item :: data => .ok (item, data)

namespace FooBar

/-- `operator<<` -/
def insert (data : UserData) (object : FooBar) : UserData := data ++ [object.foo, object.bar]

/-- `operator>>`, with what is left of the data. -/
def extract (data : UserData) : Except Misread (FooBar × UserData) := do
  let (foo, data) ← takeFront data
  let (bar, data) ← takeFront data
  return (⟨foo, bar⟩, data)

end FooBar

/-- `find(key)->second` -/
def valueOf (metaData : MetaData) (key : Bytes) : Except Misread Bytes :=
  match metaData.find key with
  | some value => .ok value
  | none => .error .endIterator

/-- The response that the query listeners build. -/
def queryResponse (status : FooBar) (address id : Bytes) : Message where
  metaData := ((SortedMap.empty.emplace Message.SUBJECT (lit "response")).emplace
    Message.TO address).emplace Message.CORRELATION_ID id
  userData := FooBar.insert [] status

/-- A query listener, up to its call of `sendReply`: the queue and the response, if it
makes one. The listeners differ in the status that they send back. -/
def answerQuery (status : FooBar → FooBar) (message : Message) :
    Except Misread (Option (Bytes × Message)) := do
  let (fooBar, _) ← FooBar.extract message.userData
  if message.metaData.entries.length ≠ 0 then
    let address ← valueOf message.metaData Message.FROM
    let id ← valueOf message.metaData Message.CORRELATION_ID
    let replyQueue ← valueOf message.metaData Message.REPLY_TO
    return some (replyQueue, queryResponse (status fooBar) address id)
  else
    return none

namespace Example

def status (_ : FooBar) : FooBar := ⟨lit "status", lit "ok"⟩

/-- The second example has the same one. Both sleep before some replies. -/
def queryListener := answerQuery status

end Example

namespace ExampleRep

def status (fooBar : FooBar) : FooBar := ⟨lit "status::ok", cStr fooBar.bar⟩

def queryListener := answerQuery status

end ExampleRep

namespace SrrManager

def status (fooBar : FooBar) : FooBar := ⟨lit "status::ok", cStr fooBar.bar⟩

def handleRequest := answerQuery status

end SrrManager

/-- What ends the listener thread of a bus whose listeners are query listeners. -/
inductive Crash where
  | escape (why : Escape)
  | misread (what : Misread)

abbrev ServiceOp (L : Type) := EStateM Crash (Loop L)

variable {L : Type}

def onThread {α : Type} (x : LoopOp L α) : ServiceOp L α := fun s =>
  match x s with
  | .ok a t => .ok a t
  | .error why t => .error (.escape why) t

/-- A call that a listener makes on its bus. What it throws is thrown by the listener. -/
def fromListener (x : Op L Unit) : LoopOp L Unit := fun s =>
  match x s.client with
  | .ok _ client => .ok () { s with client := client }
  | .error (.thrown what) client => .error (.exception (lit what)) { s with client := client }
  | .error fault client => .error (.fault fault) { s with client := client }

/-- The call of a query listener and the two `catch` clauses around it. -/
def callQueryListener (status : FooBar → FooBar) (mlm : Mlm) (queue : Bytes) (message : Message) :
    ServiceOp L Unit :=
  match answerQuery status message with
  | .error what => throw (.misread what)
  | .ok none => return ()
  | .ok (some (replyQueue, response)) =>
    onThread (catching "Error in listener of queue '%s': '%s'"
      "Error in listener of queue '%s': 'unknown error'" queue
      (fromListener (sendReply mlm replyQueue response)))

def serveMailbox (status : L → FooBar → FooBar) (mlm : Mlm) (message : Received) :
    ServiceOp L Unit := do
  onThread (enter message)
  match ← onThread (onBus (listenerHandleMailbox message.subject message.content)) with
  | .invoke listener msg => callQueryListener (status listener) mlm message.subject msg
  | .response _ | .skipped => return ()

/-- One message after the other, each with what malamute answers meanwhile. -/
def serveMailboxes (status : L → FooBar → FooBar) : List (Mlm × Received) → ServiceOp L Unit
  | [] => return ()
  | (mlm, message) :: messages => do
    serveMailbox status mlm message
    serveMailboxes status messages

end Messagebus
