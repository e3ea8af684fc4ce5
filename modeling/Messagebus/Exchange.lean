import Messagebus.Network

namespace Messagebus

variable {ι L : Type} {names : ι → Bytes}

/-- One request and its response: call number `call` of `request` on the bus `asker`, and
what the listener of its queue on the bus `replier` has for it. -/
structure Exchange (ι L : Type) (names : ι → Bytes) where
  asker : ι
  replier : ι
  queue : Bytes
  listener : L
  call : ℕ
  request : Message
  receiveTimeOut : Int
  response : Message
  id : Bytes
  different : names asker ≠ names replier
  plain : 0 ∉ names asker ∧ 0 ∉ names replier ∧ 0 ∉ queue
  id_set : id ≠ []
  correlated : request.correlationId = some id
  addressed : request.metaData.find Message.TO = some (names replier)
  signed : request.metaData.find Message.FROM = some (names asker)
  request_plain : request.metaData.find metadataEnd = none
  response_plain : response.metaData.find metadataEnd = none

namespace Exchange

variable (e : Exchange ι L names)

/-- The message that goes out for the request. -/
def sent : Message := requestMessage (names e.asker) e.request e.receiveTimeOut

/-- A call that does not use the id and leaves the registration of the queue in
place, once the request is made. -/
def Other (n : Net ι L) (i : ι) (call : ApiCall L) : Prop :=
  (∀ message, call.message? = some message → message.correlationId ≠ some e.id) ∧
    (i = e.replier → call = .unsubscribe e.queue → (n.nodes e.asker).calls e.call = .notMade)

/-- The listener's answer to a message with the id. -/
def Answer (message : Message) (script : Script L) : Prop :=
  ∃ mlm replyTo, script = [(mlm, .sendReply replyTo e.response)] ∧
    message.metaData.find Message.REPLY_TO = some replyTo ∧
    e.response.metaData.find Message.TO = message.metaData.find Message.FROM ∧
    e.response.correlationId = message.correlationId

/-- The request itself: as agreed, not overlapping another one, and made when the
listener is in place. -/
def Asks (n : Net ι L) (requestQueue : Bytes) (message : Message) (receiveTimeOut : Int) : Prop :=
  requestQueue = e.queue ∧ message = e.request ∧ receiveTimeOut = e.receiveTimeOut ∧
    (∀ j, ((n.nodes e.asker).calls j).underway = false) ∧
    (n.nodes e.replier).client.bus.subscriptions.find e.queue = some e.listener

/-- Everything may happen besides, except what uses the id, takes the listener
off its queue or overlaps the request with another one of its bus. -/
def Allows (n : Net ι L) : NetAction ι L → Prop
  | .act i (.call j requestQueue message receiveTimeOut) _ =>
    (i = e.asker ∧ j = e.call ∧ e.Asks n requestQueue message receiveTimeOut) ∨
      (¬ (i = e.asker ∧ j = e.call) ∧ message.correlationId ≠ some e.id ∧
        (i = e.asker → ((n.nodes e.asker).calls e.call).underway = false))
  | .act i (.api _ call) _ => e.Other n i call
  | .act i (.stream _ content) script =>
    carries e.id content = false ∧ ∀ call ∈ script, e.Other n i call.2
  | .act _ _ _ => True
  | .deliver i x script =>
    (∀ call ∈ script, e.Other n i call.2) ∨
      (i = e.replier ∧ ∀ message, fromZmsg x.content = .ok message →
        message.correlationId = some e.id ∧ e.Answer message script)
  | .post x => carries e.id x.content = false

end Exchange

end Messagebus
