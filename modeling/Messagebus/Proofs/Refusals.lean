import Messagebus.Proofs.Lookups

namespace Messagebus.Proofs.Refusals
open Frame Proofs.Calls Proofs.Lookups

variable {L : Type}

/-- A call of one of the functions that send. -/
inductive Posting (L : Type) where
  | publish (topic : Bytes) (message : Message)
  | toMailbox (call : Sending L)

def Posting.run (mlm : Mlm) : Posting L → Op L (Option Message)
  | .publish topic message => do
    Messagebus.publish mlm topic message
    return none
  | .toMailbox call => call.run mlm

/-- A call on malamute with which it has taken a message. -/
def accepts : MlmCall → Bool
  | .send _ _ ok => ok
  | .sendto _ _ _ ok => ok
  | _ => false

/-- Malamute has taken exactly one message in between. -/
def AcceptedOne (before after : Client L) : Prop :=
  ∃ new, after.calls = before.calls ++ new ∧ new.countP accepts = 1

/-- The call returns only if its message was taken, and throws a `MessageBusException`
otherwise. -/
def Reported {α : Type} (c : Client L) : EStateM.Result Fault (Client L) α → Prop
  | .ok _ c' => AcceptedOne c c'
  | .error fault _ => ∃ what, fault = .thrown what

/-- The call comes to hand a message over: it passes the checks before that. -/
def Posting.HandsOver (mlm : Mlm) (c : Client L) : Posting L → Prop
  | .publish topic _ =>
    if c.bus.publishTopic = [] then mlm.setProducer = true else topic = c.bus.publishTopic
  | .toMailbox (.sendRequest _ _) => True
  | .toMailbox (.sendRequestWithListener _ message _) =>
    ∃ queue, message.metaData.find Message.REPLY_TO = some queue ∧ queue ≠ [] ∧
      c.bus.subscriptions.find queue = none
  | .toMailbox (.sendReply _ message) => missing message.correlationId = false
  | .toMailbox (.request _ message _ _ _) =>
    missing message.correlationId = false ∧ missing (message.metaData.find Message.TO) = false

/-- A request whose wait times out. -/
def Posting.timesOut : Posting L → Bool
  | .toMailbox (.request _ _ _ _ timeout) => timeout
  | _ => false

def Posting.Unaddressed : Posting L → Prop
  | .publish _ _ => False
  | .toMailbox call => call.Unaddressed

/-- What is done with the result afterwards makes no difference. -/
theorem reported_return_iff {α β : Type} (x : Op L α) (f : α → β) (c : Client L) :
    Reported c ((do return f (← x) : Op L β) c) ↔ Reported c (x c) :=
  return_iff x f c (fun _ _ => Iff.rfl) fun _ _ => Iff.rfl

/-- The last call on malamute is the one that takes a message, if malamute says so. -/
theorem acceptedOne_iff {c c' : Client L} {new : List MlmCall} {call : MlmCall} {ok : Bool}
    (hc : c'.calls = c.calls ++ new ++ [call]) (hnew : new.countP accepts = 0)
    (hok : accepts call = ok) : AcceptedOne c c' ↔ ok = true := by
  have hcount : (new ++ [call]).countP accepts = if ok = true then 1 else 0 := by
    rw [List.countP_append, hnew, Nat.zero_add, List.countP_singleton, hok]
  constructor
  · intro h
    obtain ⟨new', he, hone⟩ := h
    have hn : new' = new ++ [call] := by
      rw [hc, List.append_assoc] at he
      exact (List.append_cancel_left he).symm
    rw [hn, hcount] at hone
    by_contra hno
    rw [if_neg hno] at hone
    cases hone
  · intro h
    exact ⟨new ++ [call], by rw [hc, List.append_assoc], by rw [hcount, if_pos h]⟩

theorem acceptedOne_single {c c' : Client L} {call : MlmCall} {ok : Bool}
    (hc : c'.calls = c.calls ++ [call]) (hok : accepts call = ok) :
    AcceptedOne c c' ↔ ok = true := by
  have hc' : c'.calls = c.calls ++ [] ++ [call] := by rwa [List.append_nil]
  exact acceptedOne_iff hc' rfl hok

theorem sendRequest_reported_iff (mlm : Mlm) (requestQueue : Bytes) (message : Message)
    {c c₀ : Client L} (h : c.calls = c₀.calls) :
    Reported c₀ (sendRequest mlm requestQueue message c) ↔ mlm.send = true := by
  obtain ⟨address, subject, log, he⟩ := sendRequest_eq mlm requestQueue message c
  rw [he, h]
  change AcceptedOne c₀ _ ↔ _
  exact acceptedOne_single rfl rfl

theorem publish_reported_iff (mlm : Mlm) (topic : Bytes) (message : Message) (c : Client L) :
    Reported c (publish mlm topic message c) ↔
      ((Posting.publish topic message).HandsOver mlm c → mlm.send = true) := by
  by_cases hfirst : c.bus.publishTopic = []
  · rw [publish_first mlm topic message hfirst]
    simp only [Posting.HandsOver, if_pos hfirst]
    cases hok : mlm.setProducer with
    | false => exact iff_of_true ⟨_, rfl⟩ (by simp)
    | true =>
      have ha : AcceptedOne c { c with
          bus := { c.bus with publishTopic := topic }
          calls := c.calls ++ [.setProducer (cStr topic) true] ++
            [.send (cStr topic) (toZmsg message) mlm.send] } ↔ mlm.send = true :=
        acceptedOne_iff rfl rfl rfl
      exact ha.trans ⟨fun h _ => h, fun h => h rfl⟩
  · rw [publish_later mlm topic message hfirst]
    simp only [Posting.HandsOver, if_neg hfirst]
    by_cases ht : topic = c.bus.publishTopic
    · have ha : AcceptedOne c { c with
          calls := c.calls ++ [.send (cStr topic) (toZmsg message) mlm.send] } ↔
            mlm.send = true :=
        acceptedOne_single rfl rfl
      rw [if_pos ht]
      exact ha.trans ⟨fun h _ => h, fun h => h ht⟩
    · rw [if_neg ht]
      exact iff_of_true ⟨_, rfl⟩ fun he => absurd he ht

theorem sendRequestWithListener_reported_iff (mlm : Mlm) (requestQueue : Bytes)
    (message : Message) (listener : L) (c : Client L) :
    Reported c (sendRequestWithListener mlm requestQueue message listener c) ↔
      ((Posting.toMailbox (.sendRequestWithListener requestQueue message listener)).HandsOver
        mlm c → mlm.send = true) := by
  unfold Posting.HandsOver
  rcases sendRequestWithListener_eq mlm requestQueue message listener c with
    ⟨hr, he⟩ | ⟨queue, hr, hq, he⟩
  · rw [he]
    refine iff_of_true ⟨_, rfl⟩ ?_
    intro h
    obtain ⟨queue, hf, hne, _⟩ := h
    simp [hf, missing, hne] at hr
  · rw [he, receive_eq]
    cases hf : c.bus.subscriptions.find queue with
    | some taken =>
      refine iff_of_true ⟨_, rfl⟩ ?_
      intro h
      obtain ⟨queue', hr', _, hf'⟩ := h
      cases hr.symm.trans hr'
      cases hf.symm.trans hf'
    | none =>
      refine (sendRequest_reported_iff mlm requestQueue message rfl).trans ?_
      exact ⟨fun h _ => h, fun h => h ⟨queue, hr, hq, hf⟩⟩

theorem sendReply_reported_iff (mlm : Mlm) (replyQueue : Bytes) (message : Message)
    (c : Client L) :
    Reported c (sendReply mlm replyQueue message c) ↔
      ¬ (Sending.sendReply replyQueue message : Sending L).Unaddressed ∧
        (missing message.correlationId = false → mlm.send = true) := by
  obtain ⟨log, he⟩ := sendReply_eq mlm replyQueue message c
  rw [he]
  change _ ↔ ¬ (missing message.correlationId = false ∧
    message.metaData.find Message.TO = none) ∧ _
  cases hid : missing message.correlationId with
  | true => exact iff_of_true ⟨_, rfl⟩ (by simp)
  | false =>
    rw [if_neg Bool.false_ne_true]
    cases ht : message.metaData.find Message.TO with
    | none =>
      refine iff_of_false ?_ (by simp)
      intro h
      obtain ⟨what, hw⟩ := h
      cases hw
    | some address =>
      have ha : AcceptedOne c { c with
          calls := c.calls ++
            [.sendto (cStr address) (cStr replyQueue) (toZmsg message) mlm.send]
          log := log } ↔ mlm.send = true :=
        acceptedOne_single rfl rfl
      refine ha.trans ⟨fun h => ⟨by simp, fun _ => h⟩, fun h => h.2 rfl⟩

/-- A request that times out throws whether its message was taken or not. -/
theorem request_reported_iff (mlm : Mlm) (requestQueue : Bytes) (message : Message)
    (receiveTimeOut : Int) (meanwhile : Bus L → Bus L) (timeout : Bool) (c : Client L) :
    Reported c (request mlm requestQueue message receiveTimeOut meanwhile timeout c) ↔
      (missing message.correlationId = false ∧
        missing (message.metaData.find Message.TO) = false →
        mlm.send = true ∨ timeout = true) := by
  rcases request_cases mlm requestQueue message receiveTimeOut meanwhile timeout c with
    ⟨hm, what, c', he, _⟩ | ⟨hid, hto, address, subject, content, c', he, hc⟩
  · rw [he]
    refine iff_of_true ⟨what, rfl⟩ ?_
    intro h
    rcases hm with hm | hm
    · cases hm.symm.trans h.1
    · cases hm.symm.trans h.2
  · rw [he]
    cases timeout with
    | true => exact iff_of_true ⟨_, rfl⟩ fun _ => Or.inr rfl
    | false =>
      have ha : AcceptedOne c c' ↔ mlm.send = true := acceptedOne_single hc rfl
      exact ha.trans ⟨fun h _ => Or.inl h, fun h => (h ⟨hid, hto⟩).resolve_right (by simp)⟩

/-- A call that sends reports that its message was refused exactly if it does not come
to send, or times out in its wait for the response; and a reply needs a receiver. -/
theorem reported_iff (mlm : Mlm) (call : Posting L) (c : Client L) :
    Reported c (call.run mlm c) ↔
      ¬ call.Unaddressed ∧
        (call.HandsOver mlm c → mlm.send = true ∨ call.timesOut = true) := by
  cases call with
  | publish topic message =>
    refine (reported_return_iff _ _ c).trans ((publish_reported_iff mlm topic message c).trans ?_)
    simp [Posting.Unaddressed, Posting.timesOut]
  | toMailbox call =>
    cases call with
    | sendRequest queue message =>
      refine (reported_return_iff _ _ c).trans
        ((sendRequest_reported_iff mlm queue message rfl).trans ?_)
      simp [Posting.Unaddressed, Sending.Unaddressed, Posting.HandsOver, Posting.timesOut]
    | sendRequestWithListener queue message listener =>
      refine (reported_return_iff _ _ c).trans
        ((sendRequestWithListener_reported_iff mlm queue message listener c).trans ?_)
      simp [Posting.Unaddressed, Sending.Unaddressed, Posting.timesOut]
    | sendReply queue message =>
      refine (reported_return_iff _ _ c).trans
        ((sendReply_reported_iff mlm queue message c).trans ?_)
      simp [Posting.Unaddressed, Posting.HandsOver, Posting.timesOut]
    | request queue message receiveTimeOut meanwhile timeout =>
      refine (reported_return_iff _ _ c).trans
        ((request_reported_iff mlm queue message receiveTimeOut meanwhile timeout c).trans ?_)
      simp [Posting.Unaddressed, Sending.Unaddressed, Posting.HandsOver, Posting.timesOut]

/-- A request that malamute refuses is as good as sent to the caller. -/
theorem refused_request_unreported :
    ¬ (∀ (call : Posting Unit) (mlm : Mlm) (c : Client Unit), Reported c (call.run mlm c)) ∧
      ∃ c : Client Unit,
        sendRequest ⟨true, true, false⟩ (lit "queue") .empty (.new (lit "bus")) = .ok () c ∧
          c.calls.countP accepts = 0 := by
  refine ⟨?_, _, rfl, rfl⟩
  intro h
  have hr := (reported_return_iff _ _ _).mp
    (h (.toMailbox (.sendRequest (lit "queue") .empty)) ⟨true, true, false⟩ (.new (lit "bus")))
  cases (sendRequest_reported_iff _ _ _ rfl).mp hr

end Messagebus.Proofs.Refusals
