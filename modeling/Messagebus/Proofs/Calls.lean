import Messagebus.Bus
import Messagebus.Lib.Frame

namespace Messagebus.Proofs.Calls
open Frame

variable {L : Type}

theorem keeps_getBus {F : Footprint (Client L)} : Keeps F (getBus : Op L (Bus L)) :=
  keeps_bind keeps_get (fun _ => keeps_pure _)

theorem keeps_second {F : Footprint (Client L)} (iterator : Option Bytes) :
    Keeps F (second iterator : Op L Bytes) := by
  cases iterator with
  | none => exact keeps_throw _
  | some value => exact keeps_pure value

/-- A footprint that everything keeps which the calls are made of, if they hand
over no other message than the given one. -/
structure Admits (F : Footprint (Client L)) (carried : Option Message) : Prop where
  warning : ∀ text, Keeps F (logWarning text : Op L Unit)
  handover : ∀ call, (∀ content, MlmCall.content? call = some content →
    ∃ message, carried = some message ∧ content = toZmsg message) →
    Keeps F (mlmCall call : Op L Unit)
  record : ∀ topic, Keeps F (modifyBus fun b => { b with publishTopic := topic } : Op L Unit)
  bind : ∀ key listener, Keeps F (modifyBus fun b =>
    { b with subscriptions := b.subscriptions.emplace key listener } : Op L Unit)

section Admits

variable {F : Footprint (Client L)} {carried : Option Message} {message : Message}

theorem Admits.control (h : Admits F carried) {call : MlmCall} (hc : call.content? = none) :
    Keeps F (mlmCall call : Op L Unit) :=
  h.handover call (by simp [hc])

theorem Admits.carry (h : Admits F (some message)) {call : MlmCall}
    (hc : call.content? = some (toZmsg message)) : Keeps F (mlmCall call : Op L Unit) :=
  h.handover call (by simp [hc])

theorem publish_keeps (h : Admits F (some message)) (mlm : Mlm) (topic : Bytes) :
    Keeps F (publish mlm topic message) := by
  unfold publish
  have hsend : ∀ _ : Unit, Keeps F (do
      if topic ≠ (← getBus).publishTopic then
        throw (.thrown "MessageBusMalamute requires publishing to declared topic.")
      mlmCall (.send (cStr topic) (toZmsg message) mlm.send) : Op L Unit) := by
    intro _
    exact keeps_bind keeps_getBus fun _ => keeps_when (keeps_throw _) fun _ => h.carry rfl
  refine keeps_bind keeps_getBus fun _ => keeps_ite ?_ (hsend ())
  exact keeps_bind (h.record topic) fun _ => keeps_bind (h.control rfl) fun _ =>
    keeps_when (keeps_throw _) hsend

theorem subscribe_keeps (h : Admits F carried) (mlm : Mlm) (topic : Bytes) (listener : L) :
    Keeps F (subscribe mlm topic listener) := by
  unfold subscribe
  exact keeps_bind (h.control rfl) fun _ => keeps_when (keeps_throw _) fun _ =>
    h.bind topic listener

theorem unsubscribe_keeps (h : Admits F carried) {topic : Bytes}
    (herase : Keeps F (modifyBus fun b =>
      { b with subscriptions := b.subscriptions.erase topic } : Op L Unit)) :
    Keeps F (unsubscribe topic) := by
  unfold unsubscribe
  exact keeps_bind keeps_getBus fun _ => keeps_when (keeps_throw _) fun _ =>
    keeps_bind (h.warning _) fun _ => herase

theorem sendRequest_keeps (h : Admits F (some message)) (mlm : Mlm) (requestQueue : Bytes) :
    Keeps F (sendRequest mlm requestQueue message) := by
  unfold sendRequest
  refine keeps_when (h.warning _) fun _ => keeps_when (h.warning _) fun _ => keeps_ite ?_ ?_
  · exact keeps_bind (h.warning _) fun _ => keeps_bind (keeps_pure _) fun _ => h.carry rfl
  · exact keeps_bind (keeps_second _) fun _ => keeps_bind (keeps_pure _) fun _ => h.carry rfl

theorem receive_keeps (h : Admits F carried) (queue : Bytes) (listener : L) :
    Keeps F (receive queue listener) := by
  unfold receive
  exact keeps_bind keeps_getBus fun _ => keeps_when (keeps_throw _) fun _ => h.bind queue listener

theorem sendRequestWithListener_keeps (h : Admits F (some message)) (mlm : Mlm)
    (requestQueue : Bytes) (listener : L) :
    Keeps F (sendRequestWithListener mlm requestQueue message listener) := by
  unfold sendRequestWithListener
  exact keeps_when (keeps_throw _) fun _ => keeps_bind (keeps_second _) fun queue =>
    keeps_bind (receive_keeps h queue listener) fun _ => sendRequest_keeps h mlm requestQueue

theorem sendReply_keeps (h : Admits F (some message)) (mlm : Mlm) (replyQueue : Bytes) :
    Keeps F (sendReply mlm replyQueue message) := by
  unfold sendReply
  exact keeps_when (keeps_throw _) fun _ => keeps_when (h.warning _) fun _ =>
    keeps_bind (keeps_second _) fun _ => h.carry rfl

/-- Only `unsubscribe` takes a listener off. -/
theorem api_keeps (mlm : Mlm) {call : ApiCall L} (h : Admits F call.message?)
    (herase : ∀ topic, call = .unsubscribe topic → Keeps F (modifyBus fun b =>
      { b with subscriptions := b.subscriptions.erase topic } : Op L Unit)) :
    Keeps F (call.run mlm) := by
  cases call with
  | publish topic message => exact publish_keeps h mlm topic
  | subscribe topic listener => exact subscribe_keeps h mlm topic listener
  | unsubscribe topic => exact unsubscribe_keeps h (herase topic rfl)
  | sendRequest queue message => exact sendRequest_keeps h mlm queue
  | sendRequestWithListener queue message listener =>
    exact sendRequestWithListener_keeps h mlm queue listener
  | sendReply queue message => exact sendReply_keeps h mlm queue
  | receive queue listener => exact receive_keeps h queue listener

end Admits

/-- What all calls but `request` do: the fields of the synchronous protocol are
left alone, calls on malamute are only added, and what is handed over with
them is the encoding of the message that the call was given. -/
def sends (carried : Option Message) : Footprint (Client L) where
  rel c c' :=
    c'.bus.clientName = c.bus.clientName ∧ c'.bus.syncUuid = c.bus.syncUuid ∧
      c'.bus.syncResponse = c.bus.syncResponse ∧
      ∃ new, c'.calls = c.calls ++ new ∧ ∀ call ∈ new, ∀ content,
        call.content? = some content → ∃ message, carried = some message ∧
          content = toZmsg message
  refl c := ⟨rfl, rfl, rfl, [], (List.append_nil c.calls).symm, by simp⟩
  trans c c' c'' h h' := by
    obtain ⟨hn, hu, hr, new, hc, hm⟩ := h
    obtain ⟨hn', hu', hr', new', hc', hm'⟩ := h'
    refine ⟨hn'.trans hn, hu'.trans hu, hr'.trans hr, new ++ new', ?_, ?_⟩
    · rw [hc', hc, List.append_assoc]
    · intro call hcall
      rcases List.mem_append.mp hcall with h | h
      · exact hm call h
      · exact hm' call h

theorem modifyBus_sends (carried : Option Message) {f : Bus L → Bus L}
    (hn : ∀ b, (f b).clientName = b.clientName) (hu : ∀ b, (f b).syncUuid = b.syncUuid)
    (hr : ∀ b, (f b).syncResponse = b.syncResponse) :
    Keeps (sends carried) (modifyBus f : Op L Unit) :=
  keeps_modify fun c =>
    ⟨hn c.bus, hu c.bus, hr c.bus, [], (List.append_nil c.calls).symm, by simp⟩

theorem sends_admits (carried : Option Message) : Admits (sends carried) carried (L := L) where
  warning _ := keeps_modify fun c => ⟨rfl, rfl, rfl, [], (List.append_nil c.calls).symm, by simp⟩
  handover call hc := keeps_modify fun _ => ⟨rfl, rfl, rfl, [call], rfl, by simpa using hc⟩
  record _ := modifyBus_sends _ (fun _ => rfl) (fun _ => rfl) (fun _ => rfl)
  bind _ _ := modifyBus_sends _ (fun _ => rfl) (fun _ => rfl) (fun _ => rfl)

theorem api_sends (mlm : Mlm) (call : ApiCall L) :
    Keeps (sends call.message?) (call.run mlm) := by
  apply api_keeps mlm (sends_admits call.message?)
  intro topic _
  exact modifyBus_sends _ (fun _ => rfl) (fun _ => rfl) (fun _ => rfl)

/-- While no topic is recorded, `publish` records and declares its own. -/
theorem publish_first (mlm : Mlm) (topic : Bytes) (message : Message) {c : Client L}
    (h : c.bus.publishTopic = []) :
    publish mlm topic message c =
      if mlm.setProducer = true then
        .ok () { c with
          bus := { c.bus with publishTopic := topic }
          calls := c.calls ++ [.setProducer (cStr topic) true] ++
            [.send (cStr topic) (toZmsg message) mlm.send] }
      else
        .error (.thrown "Failed to set producer on Malamute connection.") { c with
          bus := { c.bus with publishTopic := topic }
          calls := c.calls ++ [.setProducer (cStr topic) false] } := by
  unfold publish
  change (if c.bus.publishTopic = [] then _ else _ : Op L Unit) c = _
  rw [if_pos h]
  cases hok : mlm.setProducer with
  | false => rfl
  | true =>
    change (if topic ≠ topic then _ else _ : Op L Unit) _ = _
    rw [if_neg (not_not_intro rfl)]
    rfl

/-- A recorded topic is never declared again. -/
theorem publish_later (mlm : Mlm) (topic : Bytes) (message : Message) {c : Client L}
    (h : c.bus.publishTopic ≠ []) :
    publish mlm topic message c =
      if topic = c.bus.publishTopic then
        .ok () { c with calls := c.calls ++ [.send (cStr topic) (toZmsg message) mlm.send] }
      else
        .error (.thrown "MessageBusMalamute requires publishing to declared topic.") c := by
  unfold publish
  change (if c.bus.publishTopic = [] then _ else _ : Op L Unit) c = _
  rw [if_neg h]
  change (if topic ≠ c.bus.publishTopic then _ else _ : Op L Unit) c = _
  by_cases ht : topic = c.bus.publishTopic
  · rw [if_neg (not_not_intro ht), if_pos ht]
    rfl
  · rw [if_pos ht, if_neg ht]
    rfl

theorem subscribe_eq (mlm : Mlm) (topic : Bytes) (listener : L) (c : Client L) :
    subscribe mlm topic listener c =
      if mlm.setConsumer = true then
        .ok () { c with
          bus := { c.bus with subscriptions := c.bus.subscriptions.emplace topic listener }
          calls := c.calls ++ [.setConsumer (cStr topic) true] }
      else
        .error (.thrown "Failed to set consumer on Malamute connection.")
          { c with calls := c.calls ++ [.setConsumer (cStr topic) false] } := by
  unfold subscribe
  cases mlm.setConsumer with
  | true => rfl
  | false => rfl

theorem unsubscribe_eq (topic : Bytes) (c : Client L) :
    unsubscribe topic c =
      match c.bus.subscriptions.find topic with
      | none => .error (.thrown "Trying to unsubscribe on non-subscribed topic.") c
      | some _ => .ok () { c with
          bus := { c.bus with subscriptions := c.bus.subscriptions.erase topic }
          log := c.log ++ ["mlm_client_remove_consumer() not implemented"] } := by
  change (if c.bus.subscriptions.find topic = none then _ else _ : Op L Unit) c = _
  cases c.bus.subscriptions.find topic with
  | none => rfl
  | some listener => rfl

theorem receive_eq (queue : Bytes) (listener : L) (c : Client L) :
    receive queue listener c =
      match c.bus.subscriptions.find queue with
      | some _ => .error (.thrown "Already have queue map to listener") c
      | none => .ok () { c with
          bus := { c.bus with subscriptions := c.bus.subscriptions.emplace queue listener } } := by
  change (if c.bus.subscriptions.find queue ≠ none then _ else _ : Op L Unit) c = _
  cases c.bus.subscriptions.find queue with
  | none => rfl
  | some taken => rfl

theorem second_of_present {iterator : Option Bytes} (h : missing iterator = false) :
    ∃ value, iterator = some value ∧ (second iterator : Op L Bytes) = pure value := by
  cases iterator with
  | none => simp [missing] at h
  | some value => exact ⟨value, rfl, rfl⟩

/-- A warning changes the log and nothing that follows. -/
theorem warn_eq {β : Type} (warns : Bool) (text : String) (k : Unit → Op L β) (c : Client L) :
    (if warns = true then logWarning text >>= k else k ()) c =
      k () { c with log := c.log ++ if warns then [text] else [] } := by
  cases warns with
  | true => rfl
  | false => simp

/-- A missing receiver is no obstacle to `sendRequest`: it falls back on the queue. -/
theorem sendRequest_eq (mlm : Mlm) (requestQueue : Bytes) (message : Message) (c : Client L) :
    ∃ address subject log, sendRequest mlm requestQueue message c =
      .ok () { c with
        calls := c.calls ++ [.sendto address subject (toZmsg message) mlm.send]
        log := log } := by
  unfold sendRequest
  simp only [warn_eq]
  cases ht : missing (message.metaData.find Message.TO) with
  | true =>
    simp only [if_true]
    exact ⟨_, _, _, rfl⟩
  | false =>
    obtain ⟨value, _, hv⟩ := second_of_present (L := L) ht
    simp only [hv]
    exact ⟨_, _, _, rfl⟩

/-- Without a reply queue the call throws; with one it is `receive` and then
`sendRequest`. -/
theorem sendRequestWithListener_eq (mlm : Mlm) (requestQueue : Bytes) (message : Message)
    (listener : L) (c : Client L) :
    (missing (message.metaData.find Message.REPLY_TO) = true ∧
      sendRequestWithListener mlm requestQueue message listener c =
        .error (.thrown "Request must have a reply to queue.") c) ∨
    ∃ queue, message.metaData.find Message.REPLY_TO = some queue ∧ queue ≠ [] ∧
      sendRequestWithListener mlm requestQueue message listener c =
        match receive queue listener c with
        | .ok _ c' => sendRequest mlm requestQueue message c'
        | .error fault c' => .error fault c' := by
  unfold sendRequestWithListener
  cases hr : message.metaData.find Message.REPLY_TO with
  | none => exact Or.inl ⟨rfl, rfl⟩
  | some queue =>
    by_cases hq : queue = []
    · subst hq
      exact Or.inl ⟨rfl, rfl⟩
    · have hm : missing (some queue) = false := by simp [missing, hq]
      refine Or.inr ⟨queue, rfl, hq, ?_⟩
      simp only [hm]
      change (receive queue listener >>= fun _ => sendRequest mlm requestQueue message) c = _
      cases hc : receive queue listener c with
      | ok u c' => exact bind_of_ok hc
      | error fault c' => exact bind_of_error hc

theorem sendReply_eq (mlm : Mlm) (replyQueue : Bytes) (message : Message) (c : Client L) :
    ∃ log, sendReply mlm replyQueue message c =
      if missing message.correlationId = true then
        .error (.thrown "Reply must have a correlation id.") c
      else
        match message.metaData.find Message.TO with
        | none => .error .endIterator { c with log := log }
        | some address => .ok () { c with
            calls := c.calls ++
              [.sendto (cStr address) (cStr replyQueue) (toZmsg message) mlm.send]
            log := log } := by
  refine ⟨c.log ++ if missing (message.metaData.find Message.TO) then
    ["request should have a to field"] else [], ?_⟩
  unfold sendReply
  change (if missing message.correlationId = true then _ else _ : Op L Unit) c = _
  cases hid : missing message.correlationId with
  | true => rfl
  | false =>
    simp only [Bool.false_eq_true, if_false, warn_eq]
    cases message.metaData.find Message.TO with
    | none => rfl
    | some address => rfl

/-- The checks of `request`: what `m_syncUuid` is after them says how far the
call got. -/
theorem requestArm_cases (message : Message) (c : Client L) :
    (missing message.correlationId = true ∧ requestArm message c =
      .error (.thrown "Request must have a correlation id.") c) ∨
    ∃ uuid, message.correlationId = some uuid ∧ uuid ≠ [] ∧
      (missing (message.metaData.find Message.TO) = true ∧ requestArm message c =
        .error (.thrown "Request must have a to field.")
          { c with bus := { c.bus with syncUuid := uuid } } ∨
      ∃ address, message.metaData.find Message.TO = some address ∧ address ≠ [] ∧
        requestArm message c = .ok address { c with bus := { c.bus with syncUuid := uuid } }) := by
  unfold requestArm
  change missing (message.metaData.find Message.CORRELATION_ID) = true ∧ _ ∨
    ∃ uuid, message.metaData.find Message.CORRELATION_ID = some uuid ∧ _
  cases hc : message.metaData.find Message.CORRELATION_ID with
  | none => exact Or.inl ⟨rfl, rfl⟩
  | some uuid =>
    by_cases hu : uuid = []
    · subst hu
      exact Or.inl ⟨rfl, rfl⟩
    · have hm : missing (some uuid) = false := by simp [missing, hu]
      refine Or.inr ⟨uuid, rfl, hu, ?_⟩
      cases ht : message.metaData.find Message.TO with
      | none =>
        simp only [hm]
        exact Or.inl ⟨rfl, rfl⟩
      | some address =>
        by_cases ha : address = []
        · subst ha
          simp only [hm]
          exact Or.inl ⟨rfl, rfl⟩
        · have hm' : missing (some address) = false := by simp [missing, ha]
          simp only [hm, hm']
          exact Or.inr ⟨address, rfl, ha, rfl⟩

/-- `request` hands over exactly one message under the mutex. -/
theorem requestSend_eq (mlm : Mlm) (address requestQueue : Bytes) (message : Message)
    (receiveTimeOut : Int) (c : Client L) :
    requestSend mlm address requestQueue message receiveTimeOut c =
      .ok () { c with calls := c.calls ++
        [.sendto (cStr address) (cStr requestQueue)
          (toZmsg (requestMessage c.bus.clientName message receiveTimeOut)) mlm.send] } := rfl

/-- `request` throws at its checks, or sends and then waits. -/
theorem request_cases (mlm : Mlm) (requestQueue : Bytes) (message : Message)
    (receiveTimeOut : Int) (meanwhile : Bus L → Bus L) (timeout : Bool) (c : Client L) :
    ((missing message.correlationId = true ∨
        missing (message.metaData.find Message.TO) = true) ∧
      ∃ what c', request mlm requestQueue message receiveTimeOut meanwhile timeout c =
          .error (.thrown what) c' ∧
        c'.calls = c.calls) ∨
    (missing message.correlationId = false ∧
      missing (message.metaData.find Message.TO) = false ∧
      ∃ address subject content c',
        (request mlm requestQueue message receiveTimeOut meanwhile timeout c =
          if timeout then .error (.thrown "Request timed out.") c'
          else .ok c'.bus.syncResponse c') ∧
        c'.calls = c.calls ++ [.sendto address subject content mlm.send]) := by
  have hbind : request mlm requestQueue message receiveTimeOut meanwhile timeout c =
      match requestArm message c with
      | .ok address c₁ => (do
          requestSend mlm address requestQueue message receiveTimeOut
          modifyBus meanwhile
          requestLeave timeout : Op L Message) c₁
      | .error fault c₁ => .error fault c₁ := by
    cases ha : requestArm message c with
    | ok address c₁ => exact bind_of_ok ha
    | error fault c₁ => exact bind_of_error ha
  rw [hbind]
  rcases requestArm_cases message c with
    ⟨hid, he⟩ | ⟨uuid, hu, hne, ⟨hto, he⟩ | ⟨address, ha, hne', he⟩⟩
  · rw [he]
    exact Or.inl ⟨Or.inl hid, _, _, rfl, rfl⟩
  · rw [he]
    exact Or.inl ⟨Or.inr hto, _, _, rfl, rfl⟩
  · rw [he]
    refine Or.inr ⟨by simp [hu, missing, hne], by simp [ha, missing, hne'], ?_⟩
    cases timeout with
    | true => exact ⟨_, _, _, _, rfl, rfl⟩
    | false => exact ⟨_, _, _, _, rfl, rfl⟩

theorem decode_eq (content : Zmsg) (c : Client L) :
    decode content c =
      match fromZmsg content with
      | .ok message => .ok message c
      | .error fault => .error fault c := by
  unfold decode
  cases fromZmsg content with
  | ok message => rfl
  | error fault => rfl

theorem dispatchMailbox_eq (subject : Bytes) (message : Message) (c : Client L) :
    dispatchMailbox subject message c =
      match c.bus.subscriptions.find subject with
      | some listener => .ok (.invoke listener message) c
      | none => .ok .skipped { c with log := c.log ++ ["Message skipped"] } := by
  change (match c.bus.subscriptions.find subject with
    | some listener => (pure (.invoke listener message) : Op L (Handled L))
    | none => do
      logWarning "Message skipped"
      return .skipped) c = _
  cases c.bus.subscriptions.find subject with
  | some listener => rfl
  | none => rfl

/-- A mailbox message that decodes is a response or is dispatched. -/
theorem listenerHandleMailbox_eq {content : Zmsg} {message : Message} (subject : Bytes)
    (c : Client L) (h : fromZmsg content = .ok message) :
    listenerHandleMailbox subject content c =
      if syncMatch c.bus message then
        .ok (.response message)
          { c with bus := { c.bus with syncResponse := message, syncUuid := [] } }
      else dispatchMailbox subject message c := by
  have hd : decode content c = .ok message c := by rw [decode_eq, h]
  rw [listenerHandleMailbox, bind_of_ok hd]
  change (if syncMatch c.bus message then _ else dispatchMailbox subject message : Op L _) c = _
  split
  · rfl
  · rfl

theorem listenerHandleStream_eq {content : Zmsg} {message : Message} (subject : Bytes)
    (c : Client L) (h : fromZmsg content = .ok message) :
    listenerHandleStream subject content c =
      match c.bus.subscriptions.find subject with
      | some listener => .ok (.invoke listener message) c
      | none => .ok .skipped c := by
  have hd : decode content c = .ok message c := by rw [decode_eq, h]
  rw [listenerHandleStream, bind_of_ok hd]
  change (match c.bus.subscriptions.find subject with
    | some listener => (pure (.invoke listener message) : Op L (Handled L))
    | none => pure .skipped) c = _
  cases c.bus.subscriptions.find subject with
  | some listener => rfl
  | none => rfl

/-- Neither handler gets past a missing value frame. -/
theorem handlers_fault {content : Zmsg} {fault : Fault} (subject : Bytes) (c : Client L)
    (h : fromZmsg content = .error fault) :
    listenerHandleMailbox subject content c = .error fault c ∧
      listenerHandleStream subject content c = .error fault c := by
  have hd : decode content c = .error fault c := by rw [decode_eq, h]
  constructor
  · exact bind_of_error hd
  · exact bind_of_error hd

end Messagebus.Proofs.Calls
