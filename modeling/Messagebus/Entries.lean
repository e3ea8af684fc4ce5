import Messagebus.Lib.Frame
import Messagebus.Loop

namespace Messagebus

/-- An entry of `m_subscriptions`. The serial tells it from any other that is put under
the same key once it is gone. -/
structure Entry (L : Type) where
  serial : ℕ
  callable : L

/-- An iterator that is not `end()`. -/
structure Iterator where
  key : Bytes
  serial : ℕ

inductive RegistryCall (L : Type) where
  | subscribe (mlm : Mlm) (topic : Bytes) (messageListener : L)
  | unsubscribe (topic : Bytes)
  | receive (queue : Bytes) (messageListener : L)

/-- What a listener does when it is called: its calls on the bus, and how it ends. -/
structure Callback (L : Type) where
  calls : List (RegistryCall L)
  ending : Ending

/-- The loop while it handles a message, with the serial of the next entry. The listener
that it calls may call its own bus, and take its own entry off the map. -/
structure Visit (L : Type) where
  loop : Loop (Entry L)
  next : ℕ

/-- What leaves a handler, or the use of an iterator whose entry is gone. -/
inductive Slip where
  | escape (why : Escape)
  | dangling

abbrev VisitOp (L : Type) := EStateM Slip (Visit L)

variable {L : Type}

def RegistryCall.run (serial : ℕ) : RegistryCall L → Op (Entry L) Unit
  | .subscribe mlm topic listener => Messagebus.subscribe mlm topic ⟨serial, listener⟩
  | .unsubscribe topic => Messagebus.unsubscribe topic
  | .receive queue listener => Messagebus.receive queue ⟨serial, listener⟩

/-- The bus without the serials. -/
def Client.forget (client : Client (Entry L)) : Client L where
  bus := {
    clientName := client.bus.clientName
    publishTopic := client.bus.publishTopic
    subscriptions := client.bus.subscriptions.mapValues Entry.callable
    syncResponse := client.bus.syncResponse
    syncUuid := client.bus.syncUuid }
  calls := client.calls
  log := client.log

/-- The bus as it is when a message comes in. -/
def Visit.start (client : Client L) : Visit L where
  loop := .start {
    bus := {
      clientName := client.bus.clientName
      publishTopic := client.bus.publishTopic
      subscriptions := client.bus.subscriptions.mapValues (Entry.mk 0)
      syncResponse := client.bus.syncResponse
      syncUuid := client.bus.syncUuid }
    calls := client.calls
    log := client.log }
  next := 1

def onLoop {α : Type} (x : LoopOp (Entry L) α) : VisitOp L α := fun s =>
  match x s.loop with
  | .ok a loop => .ok a { s with loop := loop }
  | .error why loop => .error (.escape why) { s with loop := loop }

def Visit.present (s : Visit L) (iterator : Iterator) : Bool :=
  match s.loop.client.bus.subscriptions.find iterator.key with
  | some entry => entry.serial = iterator.serial
  | none => false

/-- Every use of the iterator. -/
def access (iterator : Iterator) : VisitOp L Unit := do
  if (← get).present iterator = false then
    throw .dangling

/-- `iterator->first` -/
def first (iterator : Iterator) : VisitOp L Bytes := do
  access iterator
  return iterator.key

/-- A call on the bus from a listener. If it throws, the listener catches the exception
and goes on, or comes to its end. -/
def callBack (call : RegistryCall L) : VisitOp L Unit :=
  modify fun s =>
    let client := Frame.final (call.run s.next s.loop.client)
    { loop := { s.loop with client := client }, next := s.next + 1 }

/-- `(iterator->second)(msg)` up to its end: the callable is in use all the time. -/
def execute (iterator : Iterator) : List (RegistryCall L) → VisitOp L Unit
  | [] => access iterator
  | call :: calls => do
    access iterator
    callBack call
    execute iterator calls

/-- The `try` block and its two `catch` clauses. -/
def invokeEntry (known unknown : String) (iterator : Iterator) (callback : Callback L) :
    VisitOp L Unit := do
  execute iterator callback.calls
  match callback.ending with
  | .returns => return ()
  | .throws what => do
    let name ← first iterator
    onLoop (report known [name, what])
  | .throwsOther => do
    let name ← first iterator
    onLoop (report unknown [name])

/-- A handler with what the listeners do. -/
def visit (listeners : L → Message → Callback L) (known unknown : String) (message : Received)
    (handler : Op (Entry L) (Handled (Entry L))) : VisitOp L Unit := do
  onLoop (enter message)
  match ← onLoop (onBus handler) with
  | .invoke entry msg =>
    invokeEntry known unknown ⟨message.subject, entry.serial⟩ (listeners entry.callable msg)
  | .response _ | .skipped => return ()

def visitMailbox (listeners : L → Message → Callback L) (message : Received) : VisitOp L Unit :=
  visit listeners "Error in listener of queue '%s': '%s'"
    "Error in listener of queue '%s': 'unknown error'" message
    (listenerHandleMailbox message.subject message.content)

def visitStream (listeners : L → Message → Callback L) (message : Received) : VisitOp L Unit :=
  visit listeners "Error in listener of topic '%s': '%s'"
    "Error in listener of topic '%s': 'unknown error'" message
    (listenerHandleStream message.subject message.content)

end Messagebus
