import Messagebus.Proofs.EventLoop
import Messagebus.Proofs.Service

namespace Messagebus.Proofs.Availability
open Frame Proofs.Calls Proofs.EventLoop Proofs.Requests Proofs.Service

variable {L : Type} {message : Received}

/-- A query listener gets through the message: the object is there, and if there is
metadata at all, so are the fields that it looks up. -/
def Legible (msg : Message) : Prop :=
  2 ≤ msg.userData.length ∧ (msg.metaData = .empty ∨
    ∀ key ∈ [Message.FROM, Message.CORRELATION_ID, Message.REPLY_TO],
      msg.metaData.find key ≠ none)

/-- The frames decode, and to a message that the listener of the subject gets through. -/
def Servable (subscriptions : SortedMap Bytes L) (message : Received) : Prop :=
  ∃ msg, fromZmsg message.content = .ok msg ∧
    (subscriptions.find message.subject ≠ none → Legible msg)

/-- What is handed over for a message that a query listener is called with. -/
def answer (make : FooBar → FooBar) (mlm : Mlm) (msg : Message) : Option MlmCall := do
  let (fooBar, _) ← (FooBar.extract msg.userData).toOption
  let address ← msg.metaData.find Message.FROM
  let id ← msg.correlationId
  let replyQueue ← msg.metaData.find Message.REPLY_TO
  if id = [] then
    none
  else
    some (.sendto (cStr address) (cStr replyQueue)
      (toZmsg (queryResponse (make fooBar) address id)) mlm.send)

def reply (status : L → FooBar → FooBar) (subscriptions : SortedMap Bytes L)
    (x : Mlm × Received) : Option MlmCall := do
  let listener ← subscriptions.find x.2.subject
  let msg ← (fromZmsg x.2.content).toOption
  answer (status listener) x.1 msg

theorem extract_iff (data : UserData) :
    (∃ r, FooBar.extract data = .ok r) ↔ 2 ≤ data.length := by
  cases data with
  | nil => exact ⟨nofun, nofun⟩
  | cons foo data =>
    cases data with
    | nil => exact ⟨nofun, nofun⟩
    | cons bar data =>
      have hle : 2 ≤ (foo :: bar :: data).length := by simp
      exact ⟨fun _ => hle, fun _ => ⟨_, rfl⟩⟩

/-- What a query listener that gets through has seen of the message. -/
theorem answerQuery_inv {make : FooBar → FooBar} {msg : Message} {r : Option (Bytes × Message)}
    (h : answerQuery make msg = .ok r) :
    Legible msg ∧ (r = none → msg.metaData = .empty) := by
  unfold answerQuery at h
  obtain ⟨⟨fooBar, rest⟩, hx, h⟩ := of_bind h
  have hlen : 2 ≤ msg.userData.length := (extract_iff _).mp ⟨_, hx⟩
  change (if msg.metaData.entries.length ≠ 0 then _ else _) = _ at h
  split at h
  · obtain ⟨address, hf, h⟩ := of_bind h
    obtain ⟨id, hc, h⟩ := of_bind h
    obtain ⟨replyQueue, hr, h⟩ := of_bind h
    cases h
    refine ⟨⟨hlen, Or.inr ?_⟩, nofun⟩
    simp [valueOf_iff.mp hf, valueOf_iff.mp hc, valueOf_iff.mp hr]
  · rename_i hentries
    have hempty : msg.metaData = .empty :=
      SortedMap.ext_entries (List.length_eq_zero_iff.mp (not_not.mp hentries))
    exact ⟨⟨hlen, Or.inl hempty⟩, fun _ => hempty⟩

/-- Exactly these messages have nothing undefined happen in a query listener. -/
theorem legible_iff (make : FooBar → FooBar) (msg : Message) :
    (∃ r, answerQuery make msg = .ok r) ↔ Legible msg := by
  constructor
  · rintro ⟨r, h⟩
    exact (answerQuery_inv h).1
  · intro h
    obtain ⟨hlen, hfields⟩ := h
    obtain ⟨⟨fooBar, rest⟩, hx⟩ := (extract_iff _).mpr hlen
    rcases hfields with hempty | hfields
    · have hnone : ¬ msg.metaData.entries.length ≠ 0 := by
        rw [hempty]
        exact not_not.mpr rfl
      refine ⟨none, ?_⟩
      unfold answerQuery
      rw [hx]
      exact if_neg hnone
    · simp only [List.forall_mem_cons, ne_eq, Option.ne_none_iff_exists'] at hfields
      obtain ⟨⟨address, hf⟩, ⟨id, hc⟩, ⟨replyQueue, hr⟩, _⟩ := hfields
      exact ⟨_, answerQuery_iff.mpr ⟨fooBar, rest, address, id, hx, hf, hc, hr, rfl⟩⟩

/-- What has happened when messages have been served. -/
structure Served (s t : Loop L) (messages : List Received) (calls : List MlmCall) : Prop where
  bus : t.client.bus = s.client.bus
  calls : t.client.calls = s.client.calls ++ calls
  handled : t.handled = s.handled ++ messages

theorem onThread_ok {α : Type} {x : LoopOp L α} {s t : Loop L} {a : α} (h : x s = .ok a t) :
    onThread x s = .ok a t := by
  unfold onThread
  rw [h]

theorem onThread_error {α : Type} {x : LoopOp L α} {s t : Loop L} {why : Escape}
    (h : x s = .error why t) : onThread x s = .error (.escape why) t := by
  unfold onThread
  rw [h]

section Calls

variable {make : FooBar → FooBar} {msg response : Message} {replyQueue address id : Bytes}

/-- A reply with an id is handed over, one without is refused and reported. -/
theorem reply_served (mlm : Mlm) (queue replyQueue : Bytes) (s : Loop L)
    (hid : response.correlationId = some id)
    (hto : response.metaData.find Message.TO = some address) :
    ∃ t, onThread (catching "Error in listener of queue '%s': '%s'"
        "Error in listener of queue '%s': 'unknown error'" queue
        (fromListener (sendReply mlm replyQueue response))) s = .ok () t ∧
      Served s t [] (if id = [] then []
        else [.sendto (cStr address) (cStr replyQueue) (toZmsg response) mlm.send]) := by
  obtain ⟨log, he⟩ := sendReply_eq mlm replyQueue response s.client
  rw [hid, hto] at he
  rcases eq_or_ne id [] with rfl | hne
  · have hthrown : fromListener (sendReply mlm replyQueue response) s =
        .error (.exception (lit "Reply must have a correlation id.")) s := by
      simp [fromListener, he, missing]
    have hk : Format.directives "Error in listener of queue '%s': '%s'".toList ≤ 2 := by decide
    have hreport : ∃ t, report "Error in listener of queue '%s': '%s'"
        [queue, lit "Reply must have a correlation id."] s = .ok () t ∧ core t = core s :=
      report_core hk s
    obtain ⟨t, ht, hcore⟩ := hreport
    have hclient : t.client = s.client := congrArg Core.client hcore
    have hhandled : t.handled = s.handled := congrArg Core.handled hcore
    refine ⟨t, onThread_ok ?_, ⟨by rw [hclient], by simp [hclient], by simp [hhandled]⟩⟩
    unfold catching
    rw [hthrown]
    exact ht
  · have hm : missing (some id) = false := by simp [missing, hne]
    rw [hm, if_neg Bool.false_ne_true] at he
    rw [if_neg hne]
    let handed : MlmCall :=
      .sendto (cStr address) (cStr replyQueue) (toZmsg response) mlm.send
    refine ⟨{ s with client := { s.client with calls := s.client.calls ++ [handed], log := log } },
      onThread_ok ?_, ⟨rfl, rfl, (List.append_nil s.handled).symm⟩⟩
    unfold catching fromListener
    rw [he]

/-- Nothing is sent for a message without metadata. -/
theorem answer_empty (make : FooBar → FooBar) (mlm : Mlm) (h : msg.metaData = .empty) :
    answer make mlm msg = none := by
  unfold answer
  rw [h]
  cases (FooBar.extract msg.userData).toOption with
  | none => rfl
  | some extracted => rfl

theorem listener_served (make : FooBar → FooBar) (mlm : Mlm) (queue : Bytes) (s : Loop L)
    (h : Legible msg) :
    ∃ t, callQueryListener make mlm queue msg s = .ok () t ∧
      Served s t [] (answer make mlm msg).toList := by
  obtain ⟨r, hr⟩ := (legible_iff make msg).mpr h
  unfold callQueryListener
  rw [hr]
  cases r with
  | none =>
    rw [answer_empty make mlm ((answerQuery_inv hr).2 rfl)]
    exact ⟨s, rfl, ⟨rfl, (List.append_nil _).symm, (List.append_nil _).symm⟩⟩
  | some made =>
    obtain ⟨replyQueue, response⟩ := made
    obtain ⟨fooBar, rest, address, id, hx, hfrom, hid, hreply, rfl⟩ := answerQuery_iff.mp hr
    have ha : (answer make mlm msg).toList = if id = [] then []
        else [.sendto (cStr address) (cStr replyQueue)
          (toZmsg (queryResponse (make fooBar) address id)) mlm.send] := by
      simp only [answer, hx, hfrom, hid, hreply, Except.toOption, Option.bind_eq_bind,
        Option.bind_some]
      split
      · rfl
      · rfl
    rw [ha]
    exact reply_served mlm queue replyQueue s (response_id _ _ _) (response_to _ _ _)

theorem listener_crashes (make : FooBar → FooBar) (mlm : Mlm) (queue : Bytes) (s : Loop L)
    (h : ¬ Legible msg) :
    ∃ what, callQueryListener make mlm queue msg s = .error (.misread what) s := by
  unfold callQueryListener
  cases hr : answerQuery make msg with
  | ok r => exact absurd ((legible_iff make msg).mp ⟨r, hr⟩) h
  | error what => exact ⟨what, rfl⟩

end Calls

section Messages

variable {s : Loop L}

/-- A bus that does not wait for a response takes no message for one. -/
theorem idle_dispatches (subject : Bytes) {content : Zmsg} {msg : Message} {client : Client L}
    (hidle : client.bus.syncUuid = []) (hd : fromZmsg content = .ok msg) :
    listenerHandleMailbox subject content client = dispatchMailbox subject msg client := by
  have hmiss : syncMatch client.bus msg = false := by simp [syncMatch, hidle]
  rw [listenerHandleMailbox_eq subject client hd, hmiss, if_neg Bool.false_ne_true]

/-- One message on a bus that does not wait for a response. -/
theorem mailbox_served (status : L → FooBar → FooBar) (mlm : Mlm)
    (hidle : s.client.bus.syncUuid = [])
    (h : Servable s.client.bus.subscriptions message) :
    ∃ t, serveMailbox status mlm message s = .ok () t ∧
      Served s t [message] (reply status s.client.bus.subscriptions (mlm, message)).toList := by
  obtain ⟨msg, hd, hlegible⟩ := h
  let entered : Loop L := { s with handled := s.handled ++ [message] }
  have hhandle := idle_dispatches message.subject hidle hd
  rw [dispatchMailbox_eq] at hhandle
  cases hl : s.client.bus.subscriptions.find message.subject with
  | none =>
    rw [hl] at hhandle
    let skipped : Loop L := { entered with
      client := { s.client with log := s.client.log ++ ["Message skipped"] } }
    have hbus : onBus (listenerHandleMailbox message.subject message.content) entered =
        .ok .skipped skipped := by simp only [onBus, hhandle, entered, skipped]
    refine ⟨skipped, bind_of_ok (onThread_ok hbus), ⟨rfl, ?_, rfl⟩⟩
    simp [reply, hl, skipped]
  | some listener =>
    rw [hl] at hhandle
    have hbus : onBus (listenerHandleMailbox message.subject message.content) entered =
        .ok (.invoke listener msg) entered := by simp only [onBus, hhandle, entered]
    obtain ⟨t, ht, hserved⟩ := listener_served (status listener) mlm message.subject entered
      (hlegible (by rw [hl]; exact Option.some_ne_none listener))
    refine ⟨t, (bind_of_ok (onThread_ok hbus)).trans ht, ⟨hserved.bus, ?_, ?_⟩⟩
    · rw [hserved.calls]
      simp [reply, hl, hd, Except.toOption, entered]
    · rw [hserved.handled, List.append_nil]

theorem mailbox_crashes (status : L → FooBar → FooBar) (mlm : Mlm)
    (hidle : s.client.bus.syncUuid = [])
    (h : ¬ Servable s.client.bus.subscriptions message) :
    ∃ crash t, serveMailbox status mlm message s = .error crash t := by
  let entered : Loop L := { s with handled := s.handled ++ [message] }
  cases hd : fromZmsg message.content with
  | error fault =>
    have hhandle := (handlers_fault message.subject s.client hd).1
    have hbus : onBus (listenerHandleMailbox message.subject message.content) entered =
        .error (.fault fault) entered := by simp only [onBus, hhandle, entered]
    have hthread := onThread_error hbus
    refine ⟨.escape (.fault fault), entered, ?_⟩
    exact (bind_of_ok (x := onThread (enter message)) rfl).trans (bind_of_error hthread)
  | ok msg =>
    have hhandle := idle_dispatches message.subject hidle hd
    rw [dispatchMailbox_eq] at hhandle
    cases hl : s.client.bus.subscriptions.find message.subject with
    | none => exact absurd ⟨msg, hd, fun hne => absurd hl hne⟩ h
    | some listener =>
      rw [hl] at hhandle
      have hbus : onBus (listenerHandleMailbox message.subject message.content) entered =
          .ok (.invoke listener msg) entered := by simp only [onBus, hhandle, entered]
      obtain ⟨what, hw⟩ := listener_crashes (status listener) mlm message.subject entered
        (fun hlegible => h ⟨msg, hd, fun _ => hlegible⟩)
      exact ⟨_, _, (bind_of_ok (onThread_ok hbus)).trans hw⟩

/-- Peers can bring the thread down with exactly the messages that are not servable. As
long as there is none, each message that has the fields of a query gets its one reply, in
the order of arrival, and nothing else is sent. -/
theorem service_survives_iff (status : L → FooBar → FooBar) (s : Loop L)
    (hidle : s.client.bus.syncUuid = []) (messages : List (Mlm × Received)) :
    ((∃ t, serveMailboxes status messages s = .ok () t) ↔
      ∀ x ∈ messages, Servable s.client.bus.subscriptions x.2) ∧
    ∀ t, serveMailboxes status messages s = .ok () t →
      Served s t (messages.map Prod.snd)
        (messages.filterMap (reply status s.client.bus.subscriptions)) := by
  induction messages generalizing s with
  | nil =>
    refine ⟨⟨nofun, fun _ => ⟨s, rfl⟩⟩, ?_⟩
    intro t ht
    cases ht
    exact ⟨rfl, (List.append_nil _).symm, (List.append_nil _).symm⟩
  | cons x messages ih =>
    obtain ⟨mlm, message⟩ := x
    by_cases h : Servable s.client.bus.subscriptions message
    · obtain ⟨u, hu, hserved⟩ := mailbox_served status mlm hidle h
      have hrest : serveMailboxes status ((mlm, message) :: messages) s =
          serveMailboxes status messages u := bind_of_ok hu
      obtain ⟨hiff, hall⟩ := ih u (hserved.bus ▸ hidle)
      rw [hserved.bus] at hiff hall
      rw [hrest]
      refine ⟨?_, ?_⟩
      · rw [hiff, List.forall_mem_cons]
        exact ⟨fun hr => ⟨h, hr⟩, And.right⟩
      · intro t ht
        have hlast := hall t ht
        refine ⟨hlast.bus.trans hserved.bus, ?_, ?_⟩
        · rw [hlast.calls, hserved.calls, List.append_assoc]
          cases hr : reply status s.client.bus.subscriptions (mlm, message) <;> simp [hr]
        · rw [hlast.handled, hserved.handled, List.append_assoc]
          rfl
    · obtain ⟨crash, u, hu⟩ := mailbox_crashes status mlm hidle h
      have hend : serveMailboxes status ((mlm, message) :: messages) s = .error crash u :=
        bind_of_error hu
      rw [hend]
      refine ⟨⟨nofun, fun hall => absurd (hall _ List.mem_cons_self) h⟩, nofun⟩

/-- The replier of the examples with its listener in place. -/
def replier : Loop Unit :=
  .start ⟨{ Bus.new (L := Unit) (lit "receiver") with
    subscriptions := SortedMap.empty.emplace (lit "doAction.queue.query") () }, [], []⟩

/-- It answers the first query of the requester, and is gone
with the first message that has no second item. -/
theorem first_query_served :
    (∃ t, serveMailboxes (fun _ : Unit => ExampleRep.status)
        [(⟨true, true, true⟩, ⟨lit "MAILBOX DELIVER", lit "doAction.queue.query", lit "requester",
          toZmsg (requestMessage (lit "requester") firstQuery 5)⟩)] replier = .ok () t ∧
      t.client.calls = [.sendto (lit "requester") (lit "requester") (toZmsg firstAnswer) true]) ∧
    ¬ ∃ t, serveMailboxes (fun _ : Unit => ExampleRep.status)
        [(⟨true, true, true⟩, ⟨lit "MAILBOX DELIVER", lit "doAction.queue.query", lit "requester",
          [lit "doAction"]⟩)] replier = .ok () t := by
  obtain ⟨hquery, hserved⟩ := service_survives_iff (fun _ : Unit => ExampleRep.status) replier rfl
    [(⟨true, true, true⟩, ⟨lit "MAILBOX DELIVER", lit "doAction.queue.query", lit "requester",
      toZmsg (requestMessage (lit "requester") firstQuery 5)⟩)]
  obtain ⟨hshort, _⟩ := service_survives_iff (fun _ : Unit => ExampleRep.status) replier rfl
    [(⟨true, true, true⟩, ⟨lit "MAILBOX DELIVER", lit "doAction.queue.query", lit "requester",
      [lit "doAction"]⟩)]
  constructor
  · obtain ⟨t, ht⟩ := hquery.mpr (List.forall_mem_singleton.mpr
      ⟨requestMessage (lit "requester") firstQuery 5, rfl,
        fun _ => ⟨by decide, Or.inr (by decide)⟩⟩)
    refine ⟨t, ht, (hserved t ht).calls.trans ?_⟩
    rfl
  · rw [hshort]
    intro hall
    obtain ⟨msg, hd, hlegible⟩ := List.forall_mem_singleton.mp hall
    cases hd
    exact absurd (hlegible (by decide)).1 (by decide)

end Messages

end Messagebus.Proofs.Availability
