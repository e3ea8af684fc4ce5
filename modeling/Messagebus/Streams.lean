import Messagebus.Lib.Tagged
import Messagebus.Threads

namespace Messagebus
open Runs

/-- A message of a stream. The buses know it by its subject alone. -/
structure Streamed (ι : Type) where
  /-- `none` for a client that is not one of the buses. -/
  sender : Option ι
  stream : Bytes
  subject : Bytes
  content : Zmsg

def MlmCall.declares : MlmCall → Option Bytes
  | .setProducer topic true => some topic
  | _ => none

/-- The stream that a client sends on. -/
def declared (calls : List MlmCall) : Option Bytes := (calls.filterMap MlmCall.declares).getLast?

/-- The patterns of `mlm_client_set_consumer` are empty here: they match every subject. -/
def consumes (calls : List MlmCall) (stream : Bytes) : Prop := .setConsumer stream true ∈ calls

instance (calls : List MlmCall) (stream : Bytes) : Decidable (consumes calls stream) :=
  inferInstanceAs (Decidable (_ ∈ calls))

variable {ι L : Type}

def MlmCall.streamed? (sender : ι) (stream : Bytes) : MlmCall → Option (Streamed ι)
  | .send subject content true => some ⟨some sender, stream, subject, content⟩
  | _ => none

/-- The messages that a client has sent on its stream since an earlier state. -/
def streamed (sender : ι) (before after : Client L) : List (Streamed ι) :=
  match declared after.calls with
  | none => []
  | some stream =>
    (after.calls.drop before.calls.length).filterMap (MlmCall.streamed? sender stream)

/-- Buses connected to one broker, by their topics. The broker is not part of the source.
It is taken to hand what a client sends on the stream that it has declared to the clients
that consume the stream by then, once, and in one order for each stream. `archive` is a
record of what was sent and `heard` of the listeners that were invoked with the messages
of a stream. -/
structure StreamNet (ι L : Type) where
  nodes : ι → State L
  inbox : ι → List (Streamed ι)
  archive : List (Streamed ι)
  heard : ι → List (Bytes × L × Message)

inductive StreamAction (ι L : Type) where
  | act (i : ι) (a : Action L)
  | deliver (i : ι)
  | post (topic : Bytes) (content : Zmsg)

/-- Whether the broker is to hand a message to a client. `echoes` says whether a
sender gets its own messages. -/
def StreamNet.takes (echoes : Bool) (n : StreamNet ι L) (i : ι) (x : Streamed ι) : Prop :=
  consumes (n.nodes i).client.calls x.stream ∧ (echoes = true ∨ x.sender ≠ some i)

variable [DecidableEq ι]

instance (echoes : Bool) (n : StreamNet ι L) (i : ι) (x : Streamed ι) :
    Decidable (n.takes echoes i x) :=
  inferInstanceAs (Decidable (_ ∧ _))

def StreamNet.spread (echoes : Bool) (n : StreamNet ι L) (xs : List (Streamed ι)) :
    StreamNet ι L :=
  { n with
    inbox := fun i => n.inbox i ++ xs.filter (n.takes echoes i)
    archive := n.archive ++ xs }

/-- A bus acts, and what it sends is spread. -/
def StreamNet.act (echoes : Bool) (n : StreamNet ι L) (i : ι) (u : State L) : StreamNet ι L :=
  { n.spread echoes (streamed i (n.nodes i).client u.client) with
    nodes := Function.update n.nodes i u }

/-- A bus handles a message, and the rest goes on waiting for it. -/
def StreamNet.deliver (n : StreamNet ι L) (i : ι) (x : Streamed ι) (rest : List (Streamed ι))
    (u : State L) : StreamNet ι L where
  nodes := Function.update n.nodes i u
  inbox := Function.update n.inbox i rest
  archive := n.archive
  heard := Function.update n.heard i (n.heard i ++
    (u.invocations.drop (n.nodes i).invocations.length).map (fun call => (x.stream, call)))

/-- Whatever comes in at the mailboxes is up to the environment. Other clients use the
topic for the stream and the subject, like the buses. Of two streams the messages may
overtake each other. -/
inductive StreamStep (echoes : Bool) :
    StreamNet ι L → StreamAction ι L → StreamNet ι L → Prop where
  | act {n : StreamNet ι L} {i : ι} {a : Action L} {u : State L}
      (own : ∀ subject content, a ≠ .stream subject content) (step : LooseStep (n.nodes i) a u) :
      StreamStep echoes n (.act i a) (n.act echoes i u)
  | deliver {n : StreamNet ι L} {i : ι} {x : Streamed ι} {before after : List (Streamed ι)}
      {u : State L} (waits : n.inbox i = before ++ x :: after)
      (next : ∀ y ∈ before, y.stream ≠ x.stream)
      (step : LooseStep (n.nodes i) (.stream x.subject x.content) u) :
      StreamStep echoes n (.deliver i) (n.deliver i x (before ++ after) u)
  | post {n : StreamNet ι L} {topic : Bytes} {content : Zmsg} :
      StreamStep echoes n (.post topic content) (n.spread echoes [⟨none, topic, topic, content⟩])

/-- The messages among some that a client is to get from a stream, in their order. -/
def sentOn (echoes : Bool) (i : ι) (stream : Bytes) (xs : List (Streamed ι)) :
    List (Except Fault Message) :=
  (xs.filter (fun x => x.stream = stream ∧ (echoes = true ∨ x.sender ≠ some i))).map
    (fun x => fromZmsg x.content)

/-- The messages of a stream that a client has yet to handle. -/
def StreamNet.waiting (n : StreamNet ι L) (i : ι) (stream : Bytes) : List (Except Fault Message) :=
  ((n.inbox i).filter (fun x => x.stream = stream)).map (fun x => fromZmsg x.content)

/-- The listeners that the messages of a stream have invoked. -/
def StreamNet.passed (n : StreamNet ι L) (i : ι) (stream : Bytes) : List (L × Message) :=
  Tagged.select stream (n.heard i)

def StreamNet.Start (names : ι → Bytes) (n : StreamNet ι L) : Prop :=
  n = ⟨fun i => State.new (names i), fun _ => [], [], fun _ => []⟩

end Messagebus
