import Messagebus.Proofs.Correlation
import Messagebus.Proofs.Origins
import Messagebus.Service

namespace Messagebus.Proofs.Service
open Frame Runs Proofs.Calls Proofs.Requests Proofs.Nodes Proofs.Correlation
open Replies (Honest ToItself entry noted)

variable {ι L : Type}

section Answers

variable {status : FooBar → FooBar} {message : Message} {replyQueue : Bytes} {response : Message}

theorem extract_insert (object : FooBar) (data : UserData) :
    FooBar.extract (FooBar.insert [] object ++ data) = .ok (object, data) := rfl

theorem response_find {object : FooBar} {address id key : Bytes} (hs : key ≠ Message.SUBJECT)
    (ht : key ≠ Message.TO) (hc : key ≠ Message.CORRELATION_ID) :
    (queryResponse object address id).metaData.find key = none := by
  unfold queryResponse
  rw [SortedMap.find_emplace_other _ _ hc, SortedMap.find_emplace_other _ _ ht,
    SortedMap.find_emplace_other _ _ hs, SortedMap.find_empty]

theorem response_id (object : FooBar) (address id : Bytes) :
    (queryResponse object address id).correlationId = some id := by
  unfold queryResponse Message.correlationId
  rw [SortedMap.find_emplace_self, SortedMap.find_emplace_other _ _ (by decide),
    SortedMap.find_emplace_other _ _ (by decide), SortedMap.find_empty]
  rfl

theorem response_to (object : FooBar) (address id : Bytes) :
    (queryResponse object address id).metaData.find Message.TO = some address := by
  unfold queryResponse
  rw [SortedMap.find_emplace_other _ _ (by decide), SortedMap.find_emplace_self,
    SortedMap.find_emplace_other _ _ (by decide), SortedMap.find_empty]
  rfl

theorem valueOf_iff {metaData : MetaData} {key value : Bytes} :
    valueOf metaData key = .ok value ↔ metaData.find key = some value := by
  unfold valueOf
  cases metaData.find key with
  | none => simp
  | some found => simp

theorem of_bind {ε α β : Type} {x : Except ε α} {f : α → Except ε β} {b : β}
    (h : x >>= f = .ok b) : ∃ a, x = .ok a ∧ f a = .ok b := by
  cases x with
  | error fault => cases h
  | ok a => exact ⟨a, rfl, h⟩

/-- What a query listener makes of a message that it answers. -/
theorem answerQuery_iff : answerQuery status message = .ok (some (replyQueue, response)) ↔
    ∃ fooBar rest address id, FooBar.extract message.userData = .ok (fooBar, rest) ∧
      message.metaData.find Message.FROM = some address ∧ message.correlationId = some id ∧
      message.metaData.find Message.REPLY_TO = some replyQueue ∧
      response = queryResponse (status fooBar) address id := by
  unfold answerQuery
  constructor
  · intro h
    obtain ⟨⟨fooBar, rest⟩, hx, h⟩ := of_bind h
    change (if message.metaData.entries.length ≠ 0 then _ else _) = _ at h
    split at h
    · obtain ⟨address, hf, h⟩ := of_bind h
      obtain ⟨id, hc, h⟩ := of_bind h
      obtain ⟨queue, hr, h⟩ := of_bind h
      cases h
      exact ⟨fooBar, rest, address, id, hx, valueOf_iff.mp hf, valueOf_iff.mp hc,
        valueOf_iff.mp hr, rfl⟩
    · cases h
  · intro h
    obtain ⟨fooBar, rest, address, id, hx, hf, hc, hr, rfl⟩ := h
    have hne : message.metaData.entries.length ≠ 0 :=
      List.length_pos_iff_exists_mem.mpr ⟨_, SortedMap.mem_of_find hf⟩ |>.ne'
    rw [hx]
    change (if message.metaData.entries.length ≠ 0 then _ else _) = _
    rw [if_pos hne, valueOf_iff.mpr hf, valueOf_iff.mpr hc, valueOf_iff.mpr hr]
    rfl

end Answers

/-- Requests are made one at a time on each bus and to other buses, what they wait for
is a notification, and a response is stored while it is waited for. -/
def Regular (n : Net ι L) : NetAction ι L → Prop
  | .act i a _ => Orderly (n.nodes i) a ∧ Unchanged (n.nodes i) a ∧
      (∀ j, a = .leave j false → j ∉ (n.nodes i).waitSet) ∧
      ∀ j requestQueue message receiveTimeOut, a = .call j requestQueue message receiveTimeOut →
        ¬ ToItself (n.nodes i).client.bus.clientName message
  | _ => True

theorem regular_api (n : Net ι L) (i : ι) (mlm : Mlm) (call : ApiCall L) :
    Regular n (.act i (.api mlm call) []) :=
  ⟨⟨trivial, trivial⟩, by simp [Unchanged], by simp, by simp⟩

/-- A reply with the id of a request is what a query listener answers to a message that
it was invoked with, and no stream has one. -/
def Answering (ids : Set Bytes) (status : L → FooBar → FooBar) (n : Net ι L) :
    NetAction ι L → Prop
  | .act _ (.api _ (.sendReply replyQueue response)) _ =>
    ∀ id ∈ ids, response.correlationId = some id → ∃ i listener message,
      (listener, message) ∈ (n.nodes i).invocations ∧
        answerQuery (status listener) message = .ok (some (replyQueue, response))
  | .act _ (.stream _ content) _ => ∀ id ∈ ids, carries id content = false
  | _ => True

def Serves (ids : Set Bytes) (status : L → FooBar → FooBar) (n : Net ι L) (a : NetAction ι L) :
    Prop :=
  Honest ids n a ∧ Regular n a ∧ Answering ids status n a

section Bus

variable {s t : State L} {a : Action L}

/-- A call that is under way or has returned has an id. -/
def Signed : Call → Prop
  | .armed _ message _ _ | .waiting message | .returned message _ =>
    ∃ id, message.correlationId = some id ∧ id ≠ []
  | _ => True

/-- What becomes of the calls: each keeps its message, and only one with an id is let
past the checks. -/
theorem loose_calls (h : LooseStep s a t) (hs : ∀ j, Signed (s.calls j)) :
    (∀ j, Signed (t.calls j)) ∧
      ∀ j message, (s.calls j).message? = some message → (t.calls j).message? = some message := by
  have hupdate : ∀ i call, Signed call →
      ((s.calls i).message? = none ∨ call.message? = (s.calls i).message?) →
      (∀ j, Signed (Function.update s.calls i call j)) ∧ ∀ j message,
        (s.calls j).message? = some message →
        (Function.update s.calls i call j).message? = some message := by
    intro i call hsigned hmessage
    refine ⟨(Function.forall_update_iff s.calls fun _ => Signed).mpr ⟨hsigned, fun j _ => hs j⟩, ?_⟩
    intro j message hj
    rcases eq_or_ne j i with rfl | hne
    · rw [Function.update_self]
      rcases hmessage with hnone | hkeep
      · rw [hnone] at hj
        cases hj
      · rw [hkeep, hj]
    · rw [Function.update_of_ne hne, hj]
  have hmoved : ∀ i call call', s.calls i = call → (Signed call → Signed call') →
      (call.message? = none ∨ call'.message? = call.message?) →
      (∀ j, Signed (Function.update s.calls i call' j)) ∧ ∀ j message,
        (s.calls j).message? = some message →
        (Function.update s.calls i call' j).message? = some message := by
    intro i call call' hi hsigned hmessage
    subst hi
    exact hupdate i call' (hsigned (hs i)) hmessage
  rcases Origins.loose_turn h with ⟨i, message, waits, rfl⟩ | hturn
  · exact hmoved i _ _ waits id (Or.inr rfl)
  · change (∀ j, Signed ((sync t).calls j)) ∧ ∀ j message,
      (s.calls j).message? = some message → ((sync t).calls j).message? = some message
    generalize sync t = v at hturn ⊢
    cases hturn with
    | compare idle named hit => exact ⟨hs, fun _ _ hj => hj⟩
    | store pending notify => exact ⟨hs, fun _ _ hj => hj⟩
    | thread turn =>
      cases turn with
      | other => exact ⟨hs, fun _ _ hj => hj⟩
      | refuse fresh ok => exact hmoved _ _ _ fresh id (Or.inl rfl)
      | reject fresh ok id named => exact hmoved _ _ _ fresh (fun _ => trivial) (Or.inl rfl)
      | arm fresh ok id named => exact hmoved _ _ _ fresh (fun _ => ⟨_, id, named⟩) (Or.inl rfl)
      | send armed => exact hmoved _ _ _ armed id (Or.inr rfl)
      | ret waits notified => exact hmoved _ _ _ waits id (Or.inr rfl)
      | timeOut waits => exact hmoved _ _ _ waits (fun _ => trivial) (Or.inr rfl)

/-- What a step invokes was in the message that it handles. -/
theorem loose_invocations (h : LooseStep s a t) {listener : L} {message : Message}
    (ht : (listener, message) ∈ t.invocations) : (listener, message) ∈ s.invocations ∨
      ∃ subject content, (a = .mailbox subject content ∨ a = .stream subject content) ∧
        fromZmsg content = .ok message := by
  cases h with
  | spurious waits asleep => exact Or.inl ht
  | fine h =>
    cases h with
    | compare idle decodes hit => exact Or.inl ht
    | store pending notify => exact Or.inl ht
    | skipped idle decodes miss dispatches => exact Or.inl ht
    | @invoke subject content client called decoded sent idle decodes miss dispatches =>
      have hsent : sent = decoded := by
        rw [dispatchMailbox_eq] at dispatches
        split at dispatches
        · cases dispatches
          rfl
        · cases dispatches
      rcases List.mem_append.mp ht with ht | ht
      · exact Or.inl ht
      · cases List.mem_singleton.mp ht
        exact Or.inr ⟨subject, content, Or.inl rfl, hsent ▸ decodes⟩
    | thread h =>
      rcases step_invocations (.thread h) with he | ⟨subject, content, _, _, ha, hd, _, he⟩
      · exact Or.inl (he ▸ ht)
      · rw [he] at ht
        rcases List.mem_append.mp ht with ht | ht
        · exact Or.inl ht
        · cases List.mem_singleton.mp ht
          exact Or.inr ⟨subject, content, ha, hd⟩

end Bus

section Net

variable {ids : Set Bytes} {status : L → FooBar → FooBar} {history history' : List Replies.Entry}
  {names : ι → Bytes} {n m : Net ι L}

/-- What goes out for the request of some call. -/
def Query (n : Net ι L) (query : Message) : Prop :=
  ∃ i j message receiveTimeOut, ((n.nodes i).calls j).message? = some message ∧
    query = requestMessage (n.nodes i).client.bus.clientName message receiveTimeOut

/-- The answer to the query of some call. -/
def Answer (status : L → FooBar → FooBar) (n : Net ι L) (response : Message) : Prop :=
  ∃ query listener replyQueue, Query n query ∧
    answerQuery (status listener) query = .ok (some (replyQueue, response))

structure Inv (ids : Set Bytes) (status : L → FooBar → FooBar) (n : Net ι L)
    (history : List Replies.Entry) : Prop where
  correlated : ∀ i, Correlated (sync (n.nodes i))
  signed : ∀ i j, Signed ((n.nodes i).calls j)
  once : ∀ i j l id, id ≠ [] → ((n.nodes i).calls j).uuid = some id →
    ((n.nodes i).calls l).uuid = some id → j = l
  requests : ∀ x, .requested x ∈ history → ∃ query, Query n query ∧ x.content = toZmsg query
  answers : ∀ response, .replied response ∈ history → ∀ id ∈ ids,
    response.correlationId = some id → Answer status n response
  invoked : ∀ i listener message, (listener, message) ∈ (n.nodes i).invocations → ∀ id ∈ ids,
    message.correlationId = some id → message.metaData.find Message.FROM ≠ none → Query n message

theorem start_inv (h : n.Start names) : Inv ids status n [] := by
  cases h
  refine ⟨fun _ => new_correlated, fun _ _ => trivial, nofun, nofun, nofun, nofun⟩

/-- An answer does not say whom it is from, so that nobody answers it. -/
theorem Answer.unsigned {response : Message} (h : Answer status n response) :
    response.metaData.find Message.FROM = none := by
  obtain ⟨query, listener, replyQueue, _, hr⟩ := h
  obtain ⟨fooBar, rest, address, id, _, _, _, _, rfl⟩ := answerQuery_iff.mp hr
  exact response_find (by decide) (by decide) (by decide)

/-- What arrives with the id of a request is a query or an answer. -/
theorem Inv.received (hi : Inv ids status n history) (hr : Replies.Inv ids n history) {x : Mail}
    {message : Message} (hx : x ∈ n.mail) (hd : fromZmsg x.content = .ok message) {id : Bytes}
    (hid : id ∈ ids) (hm : message.correlationId = some id) :
    Query n message ∨ Answer status n message := by
  rcases hr.mail x hx id hid ((carries_iff hd).mpr hm) with hx | ⟨reply, hreply, hc⟩
  · obtain ⟨query, hq, hc⟩ := hi.requests x hx
    rw [hc] at hd
    rw [Codec.decoded_with_id hd hm]
    exact Or.inl hq
  · rw [hc] at hd
    have he : message = reply := Codec.decoded_with_id hd hm
    subst he
    exact Or.inr (hi.answers message hreply.replied id hid hm)

/-- What a listener answers to a message that it was invoked with is an answer. -/
theorem Inv.answered (hi : Inv ids status n history) {i : ι} {listener : L}
    {message response : Message} {replyQueue id : Bytes}
    (hm : (listener, message) ∈ (n.nodes i).invocations)
    (ha : answerQuery (status listener) message = .ok (some (replyQueue, response)))
    (hid : id ∈ ids) (hr : response.correlationId = some id) : Answer status n response := by
  refine ⟨message, listener, replyQueue, ?_, ha⟩
  obtain ⟨fooBar, rest, address, id', _, hfrom, hid', _, rfl⟩ := answerQuery_iff.mp ha
  rw [response_id] at hr
  refine hi.invoked i listener message hm id hid (hid'.trans hr) ?_
  rw [hfrom]
  exact Option.some_ne_none address

/-- What is noted down of a request is its query. -/
theorem noted_query {i : ι} {a : Action L} {x : Mail}
    (h : noted (n.nodes i) a = some (.requested x)) :
    ∃ query, Query n query ∧ x.content = toZmsg query := by
  cases a with
  | send j mlm =>
    simp only [noted] at h
    split at h
    · rename_i q message receiveTimeOut address armed
      cases h
      exact ⟨_, ⟨i, j, message, receiveTimeOut, by rw [armed]; rfl, rfl⟩, rfl⟩
    · cases h
  | api mlm call => cases call <;> cases h
  | _ => cases h

theorem noted_reply {s : State L} {a : Action L} {response : Message}
    (h : noted s a = some (.replied response)) :
    ∃ mlm replyQueue, a = .api mlm (.sendReply replyQueue response) := by
  cases a with
  | send j mlm =>
    simp only [noted] at h
    split at h
    · cases h
    · cases h
  | api mlm call =>
    cases call with
    | sendReply replyQueue message =>
      cases h
      exact ⟨mlm, replyQueue, rfl⟩
    | _ => cases h
  | _ => cases h

/-- What a call has returned is the answer to the query of this call and no other. -/
theorem Inv.returned (hi : Inv ids status n history) (hr : Replies.Inv ids n history) {i : ι}
    {j : ℕ} {message response : Message} (hreturned : (n.nodes i).calls j = .returned message response) :
    ∃ listener fooBar rest address id,
      FooBar.extract message.userData = .ok (fooBar, rest) ∧
      message.correlationId = some id ∧ message.metaData.find Message.FROM = some address ∧
      cStr address = (n.nodes i).client.bus.clientName ∧
      response = queryResponse (status listener fooBar) address id := by
  have hsigned := hi.signed i j
  rw [hreturned] at hsigned
  obtain ⟨id, hid, hne⟩ := hsigned
  have huuid : ((n.nodes i).calls j).uuid = some id := by
    rw [hreturned]
    exact hid
  have hreply := (hr.sound i).calls j
  change Replies.CallSound history _ ((n.nodes i).calls j) at hreply
  rw [hreturned] at hreply
  have hresponse : response.correlationId = some id :=
    ((hi.correlated i).answered j message response hreturned).trans hid
  obtain ⟨query, listener, replyQueue, ⟨k, l, asked, receiveTimeOut, hasked, rfl⟩, ha⟩ :=
    hi.answers response hreply.2.replied id ((hr.sound i).known j id huuid hne) hresponse
  obtain ⟨fooBar, rest, address, id', hx, hfrom, hid', _, rfl⟩ := answerQuery_iff.mp ha
  rw [response_id] at hresponse
  cases hresponse
  rw [requestMessage_correlationId] at hid'
  rw [requestMessage_find _ _ _ (by decide) (by decide)] at hfrom
  -- The query has the id, so it is the one of this call.
  have hother : ((n.nodes k).calls l).uuid = some id := by
    rw [Call.uuid, hasked]
    exact hid'
  have hki : k = i := hr.once k l i j id hne hother huuid
  subst hki
  have hlj : l = j := hi.once k l j id hne hother huuid
  subst hlj
  rw [hreturned] at hasked
  cases hasked
  obtain ⟨address', hto, hname⟩ := hreply.2.addressed
  rw [response_to] at hto
  cases hto
  exact ⟨listener, fooBar, rest, address, id, hx, hid, hfrom, hname, rfl⟩

theorem Serves.meant {b : NetAction ι L} (h : Serves ids status n b) : Replies.Meant n b := by
  obtain ⟨_, hregular, _⟩ := h
  cases b with
  | act i a script =>
    obtain ⟨_, _, hnotified, haway⟩ := hregular
    cases a with
    | call j q message t => exact haway j q message t rfl
    | leave j timeout =>
      cases timeout with
      | false => exact fun hm => absurd hm (hnotified j rfl)
      | true => trivial
    | _ => trivial
  | _ => trivial

variable [DecidableEq ι] {i : ι} {u : State L} {a : Action L}

theorem Query.after {query : Message} (hq : Query n query) (hs : ∀ j, Signed ((n.nodes i).calls j))
    (h : LooseStep (n.nodes i) a u) (mail : List Mail) : Query (n.after i u mail) query := by
  obtain ⟨k, j, message, receiveTimeOut, hm, rfl⟩ := hq
  refine ⟨k, j, message, receiveTimeOut, ?_, by rw [Replies.name_kept h mail k]⟩
  rcases eq_or_ne k i with rfl | hne
  · rw [Net.after_self]
    exact (loose_calls h hs).2 j message hm
  · rwa [Net.after_other n u mail hne]

theorem Answer.after {response : Message} (ha : Answer status n response)
    (hs : ∀ j, Signed ((n.nodes i).calls j)) (h : LooseStep (n.nodes i) a u) (mail : List Mail) :
    Answer status (n.after i u mail) response := by
  obtain ⟨query, listener, replyQueue, hq, hr⟩ := ha
  exact ⟨query, listener, replyQueue, hq.after hs h mail, hr⟩

theorem loose_fine {s t : State L} {a : Action L} (h : LooseStep s a t)
    (ha : ∀ j, a = .leave j false → j ∉ s.waitSet) : FineStep s a t := by
  cases h with
  | fine h => exact h
  | spurious waits asleep => exact absurd asleep (ha _ rfl)

/-- A step of one bus. -/
theorem Inv.after (hi : Inv ids status n history) (hserves : Serves ids status n (.act i a []))
    (h : LooseStep (n.nodes i) a u) (mail : List Mail)
    (hreceived : ∀ subject content message id, a = .mailbox subject content →
      fromZmsg content = .ok message → id ∈ ids → message.correlationId = some id →
      Query n message ∨ Answer status n message) :
    Inv ids status (n.after i u mail) (history ++ (noted (n.nodes i) a).toList) := by
  obtain ⟨hhonest, ⟨horderly, hunchanged, hnotified, _⟩, hanswering⟩ := hserves
  have hs := hi.signed i
  have heach : ∀ P : State L → Prop, (∀ k, P (n.nodes k)) → P u →
      ∀ k, P ((n.after i u mail).nodes k) :=
    fun P hn hu => (Function.forall_update_iff n.nodes fun _ => P).mpr ⟨hu, fun k _ => hn k⟩
  refine ⟨?_, ?_, ?_, ?_, ?_, ?_⟩
  · exact heach (fun s => Correlated (sync s)) hi.correlated
      ((hi.correlated i).step hunchanged horderly (loose_fine h hnotified))
  · exact heach (fun s => ∀ j, Signed (s.calls j)) hi.signed (loose_calls h hs).1
  · intro k j l id hne hj hl
    rcases Replies.uuid_after h hj with hold | ⟨rfl, q, message, timeOut, rfl, hid⟩
    · rcases Replies.uuid_after h hl with hold' | ⟨rfl, q, message, timeOut, rfl, hid⟩
      · exact hi.once k j l id hne hold hold'
      · by_contra hjl
        exact (hhonest id hid hne).2 k j (fun he => hjl he.2) hold
    · rcases Replies.uuid_after h hl with hold' | ⟨_, q', message', timeOut', he, _⟩
      · by_contra hjl
        exact (hhonest id hid hne).2 k l (fun he => hjl he.2.symm) hold'
      · cases he
        rfl
  · intro x hx
    rcases List.mem_append.mp hx with hx | hx
    · obtain ⟨query, hq, hc⟩ := hi.requests x hx
      exact ⟨query, hq.after hs h mail, hc⟩
    · obtain ⟨query, hq, hc⟩ := noted_query (Option.mem_toList.mp hx)
      exact ⟨query, hq.after hs h mail, hc⟩
  · intro response hr id hid hc
    rcases List.mem_append.mp hr with hr | hr
    · exact (hi.answers response hr id hid hc).after hs h mail
    · obtain ⟨mlm, replyQueue, rfl⟩ := noted_reply (Option.mem_toList.mp hr)
      obtain ⟨k, listener, message, hm, ha⟩ := hanswering id hid hc
      exact (hi.answered hm ha hid hc).after hs h mail
  · intro k listener message hm id hid hc hfrom
    suffices hq : Query n message from hq.after hs h mail
    rcases eq_or_ne k i with rfl | hne
    · rw [Net.after_self] at hm
      rcases loose_invocations h hm with hm | ⟨subject, content, rfl | rfl, hd⟩
      · exact hi.invoked k listener message hm id hid hc hfrom
      · rcases hreceived subject content message id rfl hd hid hc with hq | ha
        · exact hq
        · exact absurd ha.unsigned hfrom
      · have hno : carries id content = false := hanswering id hid
        rw [(carries_iff hd).mpr hc] at hno
        cases hno
    · rw [Net.after_other n u mail hne] at hm
      exact hi.invoked k listener message hm id hid hc hfrom

theorem Inv.step (hi : Inv ids status n history) (hr : Replies.Inv ids n history)
    {b : NetAction ι L} (hserves : Serves ids status n b) (h : LooseNetStep n b m) :
    Inv ids status m (history ++ (entry n b).toList) := by
  cases h with
  | act own step =>
    refine hi.after hserves step _ ?_
    intro subject content message id he
    exact absurd he (own subject content)
  | @deliver i x u flight addressed step =>
    refine hi.after (a := .mailbox x.subject x.content)
      ⟨trivial, ⟨⟨trivial, trivial⟩, nofun, nofun, nofun⟩, trivial⟩ step _ ?_
    intro subject content message id he hd hid hm
    cases he
    exact hi.received hr flight hd hid hm
  | post =>
    rw [show entry n (.post _ : NetAction ι L) = none from rfl, Option.toList_none, List.append_nil]
    exact ⟨hi.correlated, hi.signed, hi.once, hi.requests, hi.answers, hi.invoked⟩

/-- What `request` returns is the answer of a query listener to what it asked. -/
theorem queries_answered
    (h : Reachable (unrecorded (Net.Start names))
      (record entry (restrict (Serves ids status) LooseNetStep)) (n, history)) {i : ι} {j : ℕ}
    {message response : Message} (hr : (n.nodes i).calls j = .returned message response) :
    ∃ listener fooBar rest address id,
      FooBar.extract message.userData = .ok (fooBar, rest) ∧
      message.correlationId = some id ∧ message.metaData.find Message.FROM = some address ∧
      cStr address = names i ∧
      response = queryResponse (status listener fooBar) address id ∧
      FooBar.extract response.userData = .ok (status listener fooBar, []) := by
  have hi : Inv ids status n history ∧ Replies.Inv ids n history ∧ Queues.Sound names n := by
    refine h.invariant (I := fun x => Inv ids status x.1 x.2 ∧ Replies.Inv ids x.1 x.2 ∧
      Queues.Sound names x.1) ?_ ?_
    · intro x hx
      obtain ⟨hstart, hempty⟩ := hx
      rw [hempty]
      exact ⟨start_inv hstart, Replies.start_inv hstart, Queues.start_sound hstart⟩
    · intro x b y hx hstep
      obtain ⟨hi, hr, hs⟩ := hx
      obtain ⟨⟨hserves, hstep⟩, hy⟩ := hstep
      rw [hy]
      exact ⟨hi.step hr hserves hstep, hr.step hstep hserves.1 hserves.meant,
        Queues.step_sound hs hstep⟩
  obtain ⟨hi, hreplies, hs⟩ := hi
  obtain ⟨listener, fooBar, rest, address, id, hx, hid, hfrom, hname, rfl⟩ :=
    hi.returned hreplies hr
  exact ⟨listener, fooBar, rest, address, id, hx, hid, hfrom, hname.trans (hs.named i), rfl,
    extract_insert (status listener fooBar) []⟩

/-- The first query of the requester among the examples, and the answer of the replier. -/
def clientNames : Bool → Bytes
  | false => lit "requester"
  | true => lit "receiver"

def firstQuery : Message where
  metaData := (((SortedMap.empty.emplace Message.SUBJECT (lit "query")).emplace
    Message.FROM (lit "requester")).emplace Message.TO (lit "receiver")).emplace
    Message.CORRELATION_ID (lit "id")
  userData := FooBar.insert [] ⟨lit "doAction", lit "0"⟩

def firstAnswer : Message := queryResponse ⟨lit "status::ok", lit "0"⟩ (lit "requester") (lit "id")

theorem first_query_answered : ∃ (n : Net Bool Unit),
    (n.nodes false).calls 0 = .returned firstQuery firstAnswer ∧
    ∃ (_ : Unit) (fooBar : FooBar) (rest : UserData) (address id : Bytes),
      FooBar.extract firstQuery.userData = .ok (fooBar, rest) ∧
      firstQuery.correlationId = some id ∧ firstQuery.metaData.find Message.FROM = some address ∧
      cStr address = clientNames false ∧
      firstAnswer = queryResponse (ExampleRep.status fooBar) address id ∧
      FooBar.extract firstAnswer.userData = .ok (ExampleRep.status fooBar, []) := by
  let mlm : Mlm := ⟨true, true, true⟩
  let queue := lit "doAction.queue.query"
  let sent := requestMessage (lit "requester") firstQuery 5
  let x : Mail := ⟨lit "receiver", queue, toZmsg sent⟩
  let y : Mail := ⟨lit "requester", lit "requester", toZmsg firstAnswer⟩
  let n₀ : Net Bool Unit := ⟨fun i => State.new (clientNames i), []⟩
  let registered : State Unit := { n₀.nodes true with
    client := final ((ApiCall.receive queue ()).run mlm (n₀.nodes true).client) }
  let n₁ := n₀.after true registered []
  let n₂ := n₁.after false ((n₁.nodes false).call 0 queue firstQuery 5) []
  let n₃ := n₂.after false ((n₂.nodes false).send mlm 0 queue firstQuery 5 (lit "receiver")) []
  let n₄ := n₃.after true ((n₃.nodes true).invoke (n₃.nodes true).client () sent) []
  let answered : State Unit := { n₄.nodes true with
    client := final ((ApiCall.sendReply (lit "requester") firstAnswer).run mlm
      (n₄.nodes true).client) }
  let n₅ := n₄.after true answered []
  let n₆ := n₅.after false { n₅.nodes false with matched := some firstAnswer } []
  let stored : State Unit := { n₆.nodes false with
    client := final (storeResponse firstAnswer (n₆.nodes false).client)
    waitSet := (n₆.nodes false).waitSet.erase 0
    matched := none }
  let n₇ := n₆.after false stored []
  let n₈ := n₇.after false ((n₇.nodes false).leave 0 firstQuery false) []
  let status := fun _ : Unit => ExampleRep.status
  have hrun : Run (record entry (restrict (Serves {lit "id"} status) LooseNetStep)) (n₀, [])
      [.act true (.api mlm (.receive queue ())) [], .act false (.call 0 queue firstQuery 5) [],
        .act false (.send 0 mlm) [], .deliver true x [],
        .act true (.api mlm (.sendReply (lit "requester") firstAnswer)) [], .deliver false y [],
        .act false .store [], .act false (.leave 0 false) []]
      (n₈, [.requested x, .replied firstAnswer]) := by
    refine .cons (t := (n₁, [])) ⟨⟨⟨by simp [Honest, ApiCall.message?],
      regular_api n₀ true mlm _, trivial⟩,
      .act (by simp) (.fine (.thread (.api ?_)))⟩, rfl⟩ ?_
    · intro c hc
      cases hc
    refine .cons (t := (n₂, [])) ⟨⟨⟨?_, ⟨⟨fun _ => rfl, ?_⟩, by simp [Unchanged], by simp, ?_⟩,
      trivial⟩, .act (by simp) (.fine (.thread (.call rfl)))⟩, rfl⟩ ?_
    · intro id hid _
      cases hid
      refine ⟨Set.mem_singleton _, ?_⟩
      intro k l _ hk
      cases k with
      | false => cases hk
      | true => cases hk
    · intro j _ _ hj
      cases hj
    · intro j q message t he hself
      cases he
      obtain ⟨_, address, hto, _, he⟩ := hself
      cases hto
      exact absurd he (by decide)
    refine .cons (t := (n₃, [.requested x])) ⟨⟨⟨trivial,
      ⟨⟨trivial, trivial⟩, by simp [Unchanged], by simp, by simp⟩, trivial⟩,
      .act (by simp) (.fine (.thread (.send rfl)))⟩, rfl⟩ ?_
    refine .cons (t := (n₄, [.requested x])) ⟨⟨⟨trivial, trivial, trivial⟩,
      .deliver (x := x) List.mem_cons_self rfl (.fine (.invoke rfl rfl rfl rfl))⟩, rfl⟩ ?_
    refine .cons (t := (n₅, [.requested x, .replied firstAnswer])) ⟨⟨⟨trivial,
      regular_api n₄ true mlm _, ?_⟩,
      .act (by simp) (.fine (.thread (.api ?_)))⟩, rfl⟩ ?_
    · intro id _ _
      exact ⟨true, (), sent, List.mem_cons_self, rfl⟩
    · intro c hc
      cases hc
    refine .cons (t := (n₆, [.requested x, .replied firstAnswer])) ⟨⟨⟨trivial, trivial, trivial⟩,
      .deliver (x := y) List.mem_cons_self rfl (.fine (.compare rfl rfl rfl))⟩, rfl⟩ ?_
    refine .cons (t := (n₇, [.requested x, .replied firstAnswer])) ⟨⟨⟨trivial,
      ⟨⟨trivial, trivial⟩, fun _ _ => rfl, by simp, by simp⟩, trivial⟩,
      .act (by simp) (.fine (.store rfl (Or.inr ⟨0, by decide, rfl⟩)))⟩, rfl⟩ ?_
    refine .cons (t := (n₈, [.requested x, .replied firstAnswer])) ⟨⟨⟨trivial,
      ⟨⟨trivial, trivial⟩, by simp [Unchanged], ?_, by simp⟩, trivial⟩,
      .act (by simp) (.fine (.thread (.ret rfl (by decide))))⟩, rfl⟩ (.nil _)
    intro j he
    cases he
    decide
  have hreach : Reachable (unrecorded (Net.Start clientNames))
      (record entry (restrict (Serves {lit "id"} status) LooseNetStep))
      (n₈, [.requested x, .replied firstAnswer]) := ⟨(n₀, []), _, ⟨rfl, rfl⟩, hrun⟩
  have hreturned : (n₈.nodes false).calls 0 = .returned firstQuery firstAnswer := rfl
  exact ⟨n₈, hreturned, queries_answered hreach hreturned⟩

end Net

end Messagebus.Proofs.Service
