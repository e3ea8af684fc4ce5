import Messagebus.Proofs.Calls

namespace Messagebus.Proofs.Lookups
open Frame Proofs.Calls

variable {L : Type}

/-- A call of one of the functions that send to a mailbox. -/
inductive Sending (L : Type) where
  | sendRequest (requestQueue : Bytes) (message : Message)
  | sendRequestWithListener (requestQueue : Bytes) (message : Message) (messageListener : L)
  | sendReply (replyQueue : Bytes) (message : Message)
  | request (requestQueue : Bytes) (message : Message) (receiveTimeOut : Int)
      (meanwhile : Bus L → Bus L) (timeout : Bool)

def Sending.run (mlm : Mlm) : Sending L → Op L (Option Message)
  | .sendRequest queue message => do
    Messagebus.sendRequest mlm queue message
    return none
  | .sendRequestWithListener queue message listener => do
    Messagebus.sendRequestWithListener mlm queue message listener
    return none
  | .sendReply queue message => do
    Messagebus.sendReply mlm queue message
    return none
  | .request queue message receiveTimeOut meanwhile timeout => do
    return some (← Messagebus.request mlm queue message receiveTimeOut meanwhile timeout)

/-- One mailbox message was handed over. -/
def SentOne (before after : Client L) : Prop :=
  ∃ address subject content ok,
    after.calls = before.calls ++ [.sendto address subject content ok]

/-- No undefined value was read, and either one mailbox message was handed over or
none was and the call threw. -/
def Settled {α : Type} (c : Client L) : EStateM.Result Fault (Client L) α → Prop
  | .ok _ c' => SentOne c c'
  | .error fault c' => ∃ what, fault = .thrown what ∧ (c'.calls = c.calls ∨ SentOne c c')

/-- A reply with a correlation id but without a receiver. -/
def Sending.Unaddressed : Sending L → Prop
  | .sendReply _ message =>
    missing message.correlationId = false ∧ message.metaData.find Message.TO = none
  | _ => False

/-- What is done with the result afterwards makes no difference. -/
theorem settled_return_iff {α β : Type} (x : Op L α) (f : α → β) (c : Client L) :
    Settled c ((do return f (← x) : Op L β) c) ↔ Settled c (x c) :=
  return_iff x f c (fun _ _ => Iff.rfl) fun _ _ => Iff.rfl

theorem sendRequest_sent (mlm : Mlm) (requestQueue : Bytes) (message : Message)
    {c c₀ : Client L} (h : c.calls = c₀.calls) :
    Settled c₀ (sendRequest mlm requestQueue message c) := by
  obtain ⟨address, subject, log, he⟩ := sendRequest_eq mlm requestQueue message c
  rw [he]
  exact ⟨address, subject, toZmsg message, mlm.send, by simp [h]⟩

theorem sendRequestWithListener_settled (mlm : Mlm) (requestQueue : Bytes) (message : Message)
    (listener : L) (c : Client L) :
    Settled c (sendRequestWithListener mlm requestQueue message listener c) := by
  rcases sendRequestWithListener_eq mlm requestQueue message listener c with
    ⟨_, he⟩ | ⟨queue, _, _, he⟩
  · rw [he]
    exact ⟨"Request must have a reply to queue.", rfl, Or.inl rfl⟩
  · rw [he, receive_eq]
    cases c.bus.subscriptions.find queue with
    | some taken => exact ⟨"Already have queue map to listener", rfl, Or.inl rfl⟩
    | none => exact sendRequest_sent mlm requestQueue message rfl

/-- `request` sends before it waits, so it can throw after it has sent. -/
theorem request_settled (mlm : Mlm) (requestQueue : Bytes) (message : Message)
    (receiveTimeOut : Int) (meanwhile : Bus L → Bus L) (timeout : Bool) (c : Client L) :
    Settled c (request mlm requestQueue message receiveTimeOut meanwhile timeout c) := by
  rcases request_cases mlm requestQueue message receiveTimeOut meanwhile timeout c with
    ⟨_, what, c', he, hc⟩ | ⟨_, _, address, subject, content, c', he, hc⟩
  · rw [he]
    exact ⟨what, rfl, Or.inl hc⟩
  · rw [he]
    cases timeout with
    | true => exact ⟨"Request timed out.", rfl, Or.inr ⟨_, _, _, _, hc⟩⟩
    | false => exact ⟨_, _, _, _, hc⟩

/-- `sendReply` goes on to the value of a receiver that it did not find. -/
theorem sendReply_settled_iff (mlm : Mlm) (replyQueue : Bytes) (message : Message)
    (c : Client L) :
    Settled c (sendReply mlm replyQueue message c) ↔
      ¬ (missing message.correlationId = false ∧ message.metaData.find Message.TO = none) := by
  obtain ⟨log, he⟩ := sendReply_eq mlm replyQueue message c
  rw [he]
  cases hid : missing message.correlationId with
  | true => simpa using ⟨"Reply must have a correlation id.", rfl, Or.inl rfl⟩
  | false =>
    cases ht : message.metaData.find Message.TO with
    | none =>
      simp only [not_true_eq_false, iff_false, and_self]
      intro h
      obtain ⟨what, he, _⟩ := h
      cases he
    | some address =>
      simp only [reduceCtorEq, and_false, not_false_eq_true, iff_true]
      exact ⟨_, _, _, _, rfl⟩

/-- A call that sends to a mailbox throws or sends exactly once, without reading
what a lookup did not find, unless it is a reply without a receiver. -/
theorem settled_iff (mlm : Mlm) (call : Sending L) (c : Client L) :
    Settled c (call.run mlm c) ↔ ¬ call.Unaddressed := by
  cases call with
  | sendRequest queue message =>
    refine (settled_return_iff _ _ c).trans (iff_of_true ?_ not_false)
    exact sendRequest_sent mlm queue message rfl
  | sendRequestWithListener queue message listener =>
    refine (settled_return_iff _ _ c).trans (iff_of_true ?_ not_false)
    exact sendRequestWithListener_settled mlm queue message listener c
  | request queue message receiveTimeOut meanwhile timeout =>
    refine (settled_return_iff _ _ c).trans (iff_of_true ?_ not_false)
    exact request_settled mlm queue message receiveTimeOut meanwhile timeout c
  | sendReply queue message =>
    exact (settled_return_iff _ _ c).trans (sendReply_settled_iff mlm queue message c)

/-- A reply that says whom it answers but not whom it is for. -/
theorem unaddressed_reply_unsettled :
    ¬ (∀ (call : Sending Unit) (mlm : Mlm) (c : Client Unit), Settled c (call.run mlm c)) ∧
      ∃ c : Client Unit,
        sendReply ⟨true, true, true⟩ (lit "queue")
          ⟨SortedMap.empty.emplace Message.CORRELATION_ID (lit "a"), []⟩ (.new (lit "bus")) =
            .error .endIterator c := by
  refine ⟨?_, _, rfl⟩
  intro h
  obtain ⟨what, he, _⟩ := h
    (.sendReply (lit "queue") ⟨SortedMap.empty.emplace Message.CORRELATION_ID (lit "a"), []⟩)
    ⟨true, true, true⟩ (.new (lit "bus"))
  cases he

end Messagebus.Proofs.Lookups
