import Messagebus.Zmsg

namespace Messagebus

/-- The members of `MessageBusMalamute` that the calls below read or write. Listeners are
values of `L`: the bus stores them and says which one is called with which message. -/
structure Bus (L : Type) where
  clientName : Bytes
  publishTopic : Bytes
  subscriptions : SortedMap Bytes L
  syncResponse : Message
  syncUuid : Bytes

def Bus.new {L : Type} (clientName : Bytes) : Bus L :=
  ⟨clientName, [], .empty, .empty, []⟩

/-- A call on the malamute client and whether it succeeded. -/
inductive MlmCall where
  | setProducer (topic : Bytes) (ok : Bool)
  | setConsumer (topic : Bytes) (ok : Bool)
  | send (topic : Bytes) (content : Zmsg) (ok : Bool)
  | sendto (address subject : Bytes) (content : Zmsg) (ok : Bool)
deriving DecidableEq

/-- The message that is handed over with the call. -/
def MlmCall.content? : MlmCall → Option Zmsg
  | .send _ content _ => some content
  | .sendto _ _ content _ => some content
  | _ => none

/-- What malamute answers during one call; `false` stands for -1. -/
structure Mlm where
  setProducer : Bool
  setConsumer : Bool
  send : Bool

/-- The bus with the calls it has made on malamute and the warnings it has
logged, oldest first. -/
structure Client (L : Type) where
  bus : Bus L
  calls : List MlmCall
  log : List String

def Client.new {L : Type} (clientName : Bytes) : Client L := ⟨.new clientName, [], []⟩

/-- A member function: what it did to the bus stays done when it throws. -/
abbrev Op (L : Type) := EStateM Fault (Client L)

variable {L : Type}

def getBus : Op L (Bus L) := return (← get).bus

def modifyBus (f : Bus L → Bus L) : Op L Unit := modify fun c => { c with bus := f c.bus }

def mlmCall (call : MlmCall) : Op L Unit :=
  modify fun c => { c with calls := c.calls ++ [call] }

/-- The text without the client's name, which the source puts before most of them. -/
def logWarning (text : String) : Op L Unit :=
  modify fun c => { c with log := c.log ++ [text] }

/-- `iterator == end() || iterator->second == ""` -/
def missing (iterator : Option Bytes) : Bool := iterator = none ∨ iterator = some []

/-- `iterator->second` -/
def second (iterator : Option Bytes) : Op L Bytes :=
  match iterator with
  | some value => pure value
  | none => throw .endIterator

def publish (mlm : Mlm) (topic : Bytes) (message : Message) : Op L Unit := do
  if (← getBus).publishTopic = [] then
    modifyBus fun b => { b with publishTopic := topic }
    mlmCall (.setProducer (cStr topic) mlm.setProducer)
    if mlm.setProducer = false then
      throw (.thrown "Failed to set producer on Malamute connection.")
  if topic ≠ (← getBus).publishTopic then
    throw (.thrown "MessageBusMalamute requires publishing to declared topic.")
  mlmCall (.send (cStr topic) (toZmsg message) mlm.send)

def subscribe (mlm : Mlm) (topic : Bytes) (messageListener : L) : Op L Unit := do
  mlmCall (.setConsumer (cStr topic) mlm.setConsumer)
  if mlm.setConsumer = false then
    throw (.thrown "Failed to set consumer on Malamute connection.")
  modifyBus fun b => { b with subscriptions := b.subscriptions.emplace topic messageListener }

def unsubscribe (topic : Bytes) : Op L Unit := do
  if (← getBus).subscriptions.find topic = none then
    throw (.thrown "Trying to unsubscribe on non-subscribed topic.")
  logWarning "mlm_client_remove_consumer() not implemented"
  modifyBus fun b => { b with subscriptions := b.subscriptions.erase topic }

def sendRequest (mlm : Mlm) (requestQueue : Bytes) (message : Message) : Op L Unit := do
  if missing (message.metaData.find Message.CORRELATION_ID) then
    logWarning "request should have a correlation id"
  if missing (message.metaData.find Message.REPLY_TO) then
    logWarning "request should have a reply to field"
  let iterator := message.metaData.find Message.TO
  let (address, subject) ←
    if missing iterator then do
      logWarning "request should have a to field"
      pure (cStr requestQueue, cStr requestQueue)
    else do
      let value ← second iterator
      pure (value, requestQueue)
  mlmCall (.sendto (cStr address) (cStr subject) (toZmsg message) mlm.send)

def receive (queue : Bytes) (messageListener : L) : Op L Unit := do
  if (← getBus).subscriptions.find queue ≠ none then
    throw (.thrown "Already have queue map to listener")
  modifyBus fun b => { b with subscriptions := b.subscriptions.emplace queue messageListener }

/-- The form of `sendRequest` with a listener for the responses. -/
def sendRequestWithListener (mlm : Mlm) (requestQueue : Bytes) (message : Message)
    (messageListener : L) : Op L Unit := do
  let iterator := message.metaData.find Message.REPLY_TO
  if missing iterator then
    throw (.thrown "Request must have a reply to queue.")
  let queue ← second iterator
  receive queue messageListener
  sendRequest mlm requestQueue message

def sendReply (mlm : Mlm) (replyQueue : Bytes) (message : Message) : Op L Unit := do
  if missing (message.metaData.find Message.CORRELATION_ID) then
    throw (.thrown "Reply must have a correlation id.")
  let iterator := message.metaData.find Message.TO
  if missing iterator then
    logWarning "request should have a to field"
  let address ← second iterator
  mlmCall (.sendto (cStr address) (cStr replyQueue) (toZmsg message) mlm.send)

/-- A call of one of the functions above, as any thread can make it. -/
inductive ApiCall (L : Type) where
  | publish (topic : Bytes) (message : Message)
  | subscribe (topic : Bytes) (messageListener : L)
  | unsubscribe (topic : Bytes)
  | sendRequest (requestQueue : Bytes) (message : Message)
  | sendRequestWithListener (requestQueue : Bytes) (message : Message) (messageListener : L)
  | sendReply (replyQueue : Bytes) (message : Message)
  | receive (queue : Bytes) (messageListener : L)

def ApiCall.run (mlm : Mlm) : ApiCall L → Op L Unit
  | .publish topic message => Messagebus.publish mlm topic message
  | .subscribe topic listener => Messagebus.subscribe mlm topic listener
  | .unsubscribe topic => Messagebus.unsubscribe topic
  | .sendRequest queue message => Messagebus.sendRequest mlm queue message
  | .sendRequestWithListener queue message listener =>
    Messagebus.sendRequestWithListener mlm queue message listener
  | .sendReply queue message => Messagebus.sendReply mlm queue message
  | .receive queue listener => Messagebus.receive queue listener

/-- The message that the call sends, if it is one of those that send. -/
def ApiCall.message? : ApiCall L → Option Message
  | .publish _ message => some message
  | .sendRequest _ message => some message
  | .sendRequestWithListener _ message _ => some message
  | .sendReply _ message => some message
  | _ => none

/-- `request` comes in pieces, between which other threads can get in. The first one goes
up to the mutex: the checks, with `m_syncUuid` written between them. -/
def requestArm (message : Message) : Op L Bytes := do
  let iterator := message.metaData.find Message.CORRELATION_ID
  if missing iterator then
    throw (.thrown "Request must have a correlation id.")
  let uuid ← second iterator
  modifyBus fun b => { b with syncUuid := uuid }
  let iterator := message.metaData.find Message.TO
  if missing iterator then
    throw (.thrown "Request must have a to field.")
  second iterator

/-- The copy of the message that goes out. A `_timeout` or `_replyTo` of the
caller's own is left alone. -/
def requestMessage (clientName : Bytes) (message : Message) (receiveTimeOut : Int) : Message :=
  { message with
    metaData := (message.metaData.emplace Message.TIMEOUT (lit (toString receiveTimeOut))).emplace
      Message.REPLY_TO clientName }

/-- Under the mutex, up to the wait. -/
def requestSend (mlm : Mlm) (address requestQueue : Bytes) (message : Message)
    (receiveTimeOut : Int) : Op L Unit := do
  let msg := requestMessage (← getBus).clientName message receiveTimeOut
  mlmCall (.sendto (cStr address) (cStr requestQueue) (toZmsg msg) mlm.send)

/-- After the wait; `timeout` is the `std::cv_status` it ended with. -/
def requestLeave (timeout : Bool) : Op L Message := do
  if timeout then
    throw (.thrown "Request timed out.")
  else
    return (← getBus).syncResponse

/-- The whole of `request` as one thread sees it; `meanwhile` is what the others
do to the bus during the wait. -/
def request (mlm : Mlm) (requestQueue : Bytes) (message : Message) (receiveTimeOut : Int)
    (meanwhile : Bus L → Bus L) (timeout : Bool) : Op L Message := do
  let address ← requestArm message
  requestSend mlm address requestQueue message receiveTimeOut
  modifyBus meanwhile
  requestLeave timeout

/-- What became of a message that the listener thread has received. -/
inductive Handled (L : Type) where
  | response (message : Message)
  | invoke (listener : L) (message : Message)
  | skipped

def decode (message : Zmsg) : Op L Message :=
  match fromZmsg message with
  | .ok msg => pure msg
  | .error fault => throw fault

/-- The three nested tests of `listenerHandleMailbox`. -/
def syncMatch (bus : Bus L) (msg : Message) : Bool :=
  bus.syncUuid ≠ [] ∧ msg.correlationId = some bus.syncUuid

/-- Under the mutex; the caller of this notifies the condition variable. -/
def storeResponse (msg : Message) : Op L Unit :=
  modifyBus fun b => { b with syncResponse := msg, syncUuid := [] }

def dispatchMailbox (subject : Bytes) (msg : Message) : Op L (Handled L) := do
  match (← getBus).subscriptions.find subject with
  | some listener => return .invoke listener msg
  | none =>
    logWarning "Message skipped"
    return .skipped

def listenerHandleMailbox (subject : Bytes) (message : Zmsg) : Op L (Handled L) := do
  let msg ← decode message
  if syncMatch (← getBus) msg then
    storeResponse msg
    return .response msg
  else
    dispatchMailbox subject msg

def listenerHandleStream (subject : Bytes) (message : Zmsg) : Op L (Handled L) := do
  let msg ← decode message
  match (← getBus).subscriptions.find subject with
  | some listener => return .invoke listener msg
  | none => return .skipped

end Messagebus
