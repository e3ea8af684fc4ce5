import Mathlib.Algebra.Order.Group.Multiset
import Messagebus.Lib.Tagged
import Messagebus.Network

namespace Messagebus
open Runs

/-- A net with a record of what became of the mail: `archive` is what has been handed to
the broker, `heard` the listeners that were invoked with mail, each with the subject of
the mail, and `answers` the mail that was taken for the response of a request. -/
structure PostalNet (ι L : Type) where
  net : Net ι L
  archive : List Mail
  heard : ι → List (Bytes × L × Message)
  answers : ι → List (Bytes × Message)

variable {ι L : Type} [DecidableEq ι]

namespace PostalNet

/-- The record of a step that leads to the given net. -/
def note (p : PostalNet ι L) (a : NetAction ι L) (n : Net ι L) : PostalNet ι L :=
  match a with
  | .act i _ _ =>
    { p with
      net := n
      archive := p.archive ++ posted (p.net.nodes i).client (n.nodes i).client }
  | .deliver i x _ =>
    { net := n
      archive := p.archive ++ posted (p.net.nodes i).client (n.nodes i).client
      heard := Function.update p.heard i (p.heard i ++
        ((n.nodes i).invocations.drop (p.net.nodes i).invocations.length).map
          (fun call => (x.subject, call)))
      answers := Function.update p.answers i (p.answers i ++
        (n.nodes i).matched.toList.map (fun message => (x.subject, message))) }
  | .post x => { p with net := n, archive := p.archive ++ [x] }

/-- The listeners that the mail of a queue has invoked. -/
def passed (p : PostalNet ι L) (i : ι) (queue : Bytes) : List (L × Message) :=
  Tagged.select queue (p.heard i)

/-- The mail of a queue that was taken for responses. -/
def taken (p : PostalNet ι L) (i : ι) (queue : Bytes) : List Message :=
  Tagged.select queue (p.answers i)

def Start (names : ι → Bytes) (p : PostalNet ι L) : Prop :=
  p.net.Start names ∧ p.archive = [] ∧ p.heard = (fun _ => []) ∧ p.answers = fun _ => []

end PostalNet

def PostalStep (p : PostalNet ι L) (a : NetAction ι L) (q : PostalNet ι L) : Prop :=
  LooseNetStep p.net a q.net ∧ q = p.note a q.net

/-- The messages that some mail has for a queue of a client. -/
def mailTo (clientName queue : Bytes) (mail : List Mail) : Multiset (Except Fault Message) :=
  (mail.filter (fun x => x.address = clientName ∧ x.subject = queue)).map
    (fun x => fromZmsg x.content)

/-- Messages that have been handled, as the mail had them. -/
def decoded (messages : List Message) : Multiset (Except Fault Message) :=
  (messages.map Except.ok : List (Except Fault Message))

end Messagebus
