import Messagebus.Threads

namespace Messagebus
open Runs

/-- Decodes to a message with the correlation id. -/
def carries (id : Bytes) (content : Zmsg) : Bool :=
  match fromZmsg content with
  | .ok message => message.correlationId = some id
  | .error _ => false

structure Mail where
  address : Bytes
  subject : Bytes
  content : Zmsg
deriving DecidableEq

/-- What the broker takes over with a call on the client. -/
def MlmCall.mail? : MlmCall → Option Mail
  | .sendto address subject content true => some ⟨address, subject, content⟩
  | _ => none

variable {ι L : Type}

/-- The mailbox messages that a client has handed over since an earlier state. -/
def posted (before after : Client L) : List Mail :=
  (after.calls.drop before.calls.length).filterMap MlmCall.mail?

/-- Buses connected to one broker, and the mail that it has taken. It delivers each message
once, to a client of the name that the message is addressed to, in any order. -/
structure Net (ι L : Type) where
  nodes : ι → State L
  mail : List Mail

/-- Calls that a listener makes, each with what malamute answers. -/
abbrev Script (L : Type) := List (Mlm × ApiCall L)

def Script.actions (script : Script L) : List (Action L) :=
  script.map (fun call => .api call.1 call.2)

/-- A step of one bus together with the callback, if the step invokes a listener. -/
def NodeStep (s : State L) (a : Action L) (script : Script L) (u : State L) : Prop :=
  ∃ t, Step s a t ∧ Run Step t script.actions u ∧ (t.invocations = s.invocations → script = [])

inductive NetAction (ι L : Type) where
  | act (i : ι) (a : Action L) (script : Script L)
  | deliver (i : ι) (x : Mail) (script : Script L)
  | post (x : Mail)

variable [DecidableEq ι]

/-- A bus acts, with the mail in flight but for what it was handed. -/
def Net.after (n : Net ι L) (i : ι) (u : State L) (mail : List Mail) : Net ι L where
  nodes := Function.update n.nodes i u
  mail := mail ++ posted (n.nodes i).client u.client

@[simp] theorem Net.after_self (n : Net ι L) (i : ι) (u : State L) (mail : List Mail) :
    (n.after i u mail).nodes i = u := Function.update_self ..

theorem Net.after_other (n : Net ι L) {i j : ι} (u : State L) (mail : List Mail) (h : j ≠ i) :
    (n.after i u mail).nodes j = n.nodes j := Function.update_of_ne h ..

/-- Other clients of the broker can post whatever they like. -/
inductive NetStep : Net ι L → NetAction ι L → Net ι L → Prop where
  | act {n : Net ι L} {i : ι} {a : Action L} {script : Script L} {u : State L}
      (own : ∀ subject content, a ≠ .mailbox subject content)
      (step : NodeStep (n.nodes i) a script u) :
      NetStep n (.act i a script) (n.after i u n.mail)
  | deliver {n : Net ι L} {i : ι} {x : Mail} {script : Script L} {u : State L}
      (flight : x ∈ n.mail) (addressed : x.address = (n.nodes i).client.bus.clientName)
      (step : NodeStep (n.nodes i) (.mailbox x.subject x.content) script u) :
      NetStep n (.deliver i x script) (n.after i u (n.mail.erase x))
  | post {n : Net ι L} {x : Mail} : NetStep n (.post x) { n with mail := n.mail ++ [x] }

/-- The buses with all that can get in between: what the calls of a callback do are
steps of the bus like those of the other threads. -/
inductive LooseNetStep : Net ι L → NetAction ι L → Net ι L → Prop where
  | act {n : Net ι L} {i : ι} {a : Action L} {u : State L}
      (own : ∀ subject content, a ≠ .mailbox subject content)
      (step : LooseStep (n.nodes i) a u) : LooseNetStep n (.act i a []) (n.after i u n.mail)
  | deliver {n : Net ι L} {i : ι} {x : Mail} {u : State L}
      (flight : x ∈ n.mail) (addressed : x.address = (n.nodes i).client.bus.clientName)
      (step : LooseStep (n.nodes i) (.mailbox x.subject x.content) u) :
      LooseNetStep n (.deliver i x []) (n.after i u (n.mail.erase x))
  | post {n : Net ι L} {x : Mail} : LooseNetStep n (.post x) { n with mail := n.mail ++ [x] }

def Net.Start (names : ι → Bytes) (n : Net ι L) : Prop := n = ⟨fun i => State.new (names i), []⟩

end Messagebus
