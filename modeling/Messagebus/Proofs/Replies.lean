import Messagebus.Proofs.RoundTrip

namespace Messagebus.Proofs.Replies
open CondVar Frame Runs Proofs.Calls Proofs.Requests Proofs.Nodes

variable {ι L : Type}

/-- What is noted down of a run: the messages of requests as they are handed over,
and the messages passed to `sendReply`. -/
inductive Entry where
  | requested (x : Mail)
  | replied (message : Message)

def noted (s : State L) : Action L → Option Entry
  | .send i _ =>
    match s.calls i with
    | .armed requestQueue message receiveTimeOut address =>
      some (.requested ⟨cStr address, cStr requestQueue,
        toZmsg (requestMessage s.client.bus.clientName message receiveTimeOut)⟩)
    | _ => none
  | .api _ (.sendReply _ message) => some (.replied message)
  | _ => none

def entry (n : Net ι L) : NetAction ι L → Option Entry
  | .act i a _ => noted (n.nodes i) a
  | _ => none

/-- The ids are those of the requests. Each is used by one of them, and otherwise in
replies only. -/
def Honest (ids : Set Bytes) (n : Net ι L) : NetAction ι L → Prop
  | .act i (.call j _ message _) _ => ∀ id, message.correlationId = some id → id ≠ [] →
      id ∈ ids ∧ ∀ k l, ¬ (k = i ∧ l = j) → ((n.nodes k).calls l).uuid ≠ some id
  | .act _ (.api _ (.sendReply _ _)) _ => True
  | .act _ (.api _ call) _ =>
    ∀ message, call.message? = some message → ∀ id ∈ ids, message.correlationId ≠ some id
  | .post x => ∀ id ∈ ids, carries id x.content = false
  | _ => True

/-- The request passes its checks and is addressed to the bus that makes it. -/
def ToItself (clientName : Bytes) (message : Message) : Prop :=
  missing message.correlationId = false ∧
    ∃ address, message.metaData.find Message.TO = some address ∧ address ≠ [] ∧
      cStr address = clientName

/-- Requests go to other buses, and a wait that ends for no reason does not do so
before the first response. -/
def Meant (n : Net ι L) : NetAction ι L → Prop
  | .act i (.call _ _ message _) _ => ¬ ToItself (n.nodes i).client.bus.clientName message
  | .act i (.leave j false) _ =>
    j ∈ (n.nodes i).waitSet → (n.nodes i).client.bus.syncResponse ≠ .empty
  | _ => True

/-- The message went to the listener of its subject, or was skipped if it has none. -/
def Dispatched (s : State L) (x : Mail) (t : State L) : Prop :=
  ∃ message, fromZmsg x.content = .ok message ∧
    t = match s.client.bus.subscriptions.find x.subject with
      | some listener => s.invoke s.client listener message
      | none => { s with client := { s.client with log := s.client.log ++ ["Message skipped"] } }

/-- What was returned was passed to `sendReply` and is not the request, and requests
are dispatched wherever they are delivered. -/
structure OnlyReplies [DecidableEq ι] (n : Net ι L) (history : List Entry) : Prop where
  replied : ∀ i j message response, (n.nodes i).calls j = .returned message response →
    .replied response ∈ history ∧ response ≠ message ∧ ∀ receiveTimeOut,
      response ≠ requestMessage (n.nodes i).client.bus.clientName message receiveTimeOut
  dispatched : ∀ i x n', .requested x ∈ history → LooseNetStep n (.deliver i x []) n' →
    Dispatched (n.nodes i) x (n'.nodes i)

/-- A reply that the bus of the name can have been sent. -/
structure ReplyTo (history : List Entry) (clientName : Bytes) (response : Message) : Prop where
  replied : .replied response ∈ history
  addressed : ∃ address, response.metaData.find Message.TO = some address ∧
    cStr address = clientName
  correlated : response ≠ .empty

/-- The message is addressed to another bus. -/
def Outward (clientName : Bytes) (message : Message) : Prop :=
  ∃ address, message.metaData.find Message.TO = some address ∧ cStr address ≠ clientName

/-- How far a call has got, and with what. -/
def CallSound (history : List Entry) (clientName : Bytes) : Call → Prop
  | .armed _ message _ address =>
    message.metaData.find Message.TO = some address ∧ cStr address ≠ clientName
  | .waiting message => Outward clientName message
  | .returned message response =>
    Outward clientName message ∧ ReplyTo history clientName response
  | _ => True

/-- What holds of one bus. -/
structure Sound (ids : Set Bytes) (history : List Entry) (clientName : Bytes) (v : Sync) :
    Prop where
  known : ∀ j id, (v.calls j).uuid = some id → id ≠ [] → id ∈ ids
  own : v.uuid ≠ [] → ∃ j, (v.calls j).uuid = some v.uuid
  calls : ∀ j, CallSound history clientName (v.calls j)
  stored : v.response ≠ .empty → ReplyTo history clientName v.response
  pending : ∀ response, v.matched = some response → ReplyTo history clientName response
  woken : ∀ j message, v.calls j = .waiting message → j ∉ v.waitSet → v.response ≠ .empty

section Bus

variable {ids : Set Bytes} {history history' : List Entry} {clientName : Bytes} {v : Sync}
  {s t : State L} {a : Action L}

theorem new_sound : Sound ids history clientName .new where
  known j id h := by simp [Sync.new, Call.uuid, Call.message?] at h
  own h := by simp [Sync.new] at h
  calls j := trivial
  stored h := by simp [Sync.new] at h
  pending response h := by simp [Sync.new] at h
  woken j message h := by simp [Sync.new] at h

theorem ReplyTo.mono {response : Message} (h : ReplyTo history clientName response)
    (hh : history ⊆ history') : ReplyTo history' clientName response :=
  ⟨hh h.replied, h.addressed, h.correlated⟩

theorem Sound.mono (hv : Sound ids history clientName v) (hh : history ⊆ history') :
    Sound ids history' clientName v := by
  refine ⟨hv.known, hv.own, ?_, fun h => (hv.stored h).mono hh,
    fun r h => (hv.pending r h).mono hh, hv.woken⟩
  intro j
  have hc := hv.calls j
  cases hj : v.calls j with
  | returned message response =>
    rw [hj] at hc
    exact ⟨hc.1, hc.2.mono hh⟩
  | armed q m timeOut address =>
    rw [hj] at hc
    exact hc
  | waiting message =>
    rw [hj] at hc
    exact hc
  | notMade => trivial
  | threw message fault => trivial

/-- A call goes on; if it is new, its id may be the one waited for from then on. -/
theorem Sound.update (hv : Sound ids history clientName v) {j : ℕ} {call : Call} {uuid : Bytes}
    {W : Finset ℕ} (hknown : ∀ id, call.uuid = some id → id ≠ [] → id ∈ ids)
    (hkeep : ∀ id, (v.calls j).uuid = some id → call.uuid = some id)
    (huuid : uuid = v.uuid ∨ call.uuid = some uuid)
    (hcall : CallSound history clientName call)
    (hwoken : ∀ i message, Function.update v.calls j call i = .waiting message → i ∉ W →
      v.response ≠ .empty) :
    Sound ids history clientName
      { v with uuid := uuid, calls := Function.update v.calls j call, waitSet := W } := by
  have hown : ∀ i id, (v.calls i).uuid = some id →
      (Function.update v.calls j call i).uuid = some id := by
    intro i id hi
    rcases eq_or_ne i j with rfl | hne
    · rw [Function.update_self]
      exact hkeep id hi
    · rw [Function.update_of_ne hne]
      exact hi
  refine ⟨?_, ?_, ?_, hv.stored, hv.pending, hwoken⟩
  · apply (Function.forall_update_iff v.calls fun _ c =>
      ∀ id, c.uuid = some id → id ≠ [] → id ∈ ids).mpr
    exact ⟨hknown, fun i _ => hv.known i⟩
  · intro hne
    rcases huuid with rfl | hc
    · obtain ⟨i, hi⟩ := hv.own hne
      exact ⟨i, hown i _ hi⟩
    · exact ⟨j, by simpa using hc⟩
  · apply (Function.forall_update_iff v.calls fun _ c => CallSound history clientName c).mpr
    exact ⟨hcall, fun i _ => hv.calls i⟩

/-- A call under way stays the call that it is. -/
theorem Sound.proceed (hv : Sound ids history clientName v) {j : ℕ} {call call' : Call}
    {W : Finset ℕ} (hj : v.calls j = call) (hu : call'.uuid = call.uuid)
    (hcall : CallSound history clientName call')
    (hwoken : ∀ i message, Function.update v.calls j call' i = .waiting message → i ∉ W →
      v.response ≠ .empty) :
    Sound ids history clientName
      { v with calls := Function.update v.calls j call', waitSet := W } := by
  subst hj
  refine hv.update ?_ ?_ (Or.inl rfl) hcall hwoken
  · intro id hid
    exact hv.known j id (hu.symm.trans hid)
  · intro id hid
    exact hu.trans hid

/-- A call that is not waiting gets nobody to wait. -/
theorem Sound.still (hv : Sound ids history clientName v) {j : ℕ} {call : Call}
    (hc : ∀ message, call ≠ .waiting message) (i : ℕ) (message : Message)
    (hi : Function.update v.calls j call i = .waiting message) (hout : i ∉ v.waitSet.erase j) :
    v.response ≠ .empty := by
  rcases eq_or_ne i j with rfl | hij
  · rw [Function.update_self] at hi
    exact absurd hi (hc message)
  · rw [Function.update_of_ne hij] at hi
    exact hv.woken i message hi fun hm => hout (Finset.mem_erase.mpr ⟨hij, hm⟩)

/-- The checks of a request let it through only with an id and a receiver. -/
theorem call_sound (hv : Sound ids history clientName (sync s)) {i : ℕ} {message : Message}
    (requestQueue : Bytes) (receiveTimeOut : Int) (fresh : s.calls i = .notMade)
    (hid : ∀ id, message.correlationId = some id → id ≠ [] → id ∈ ids)
    (hout : ¬ ToItself clientName message) :
    Sound ids history clientName (sync (s.call i requestQueue message receiveTimeOut)) := by
  have hkeep : ∀ id call, ((sync s).calls i).uuid = some id → Call.uuid call = some id := by
    intro id call h
    change (s.calls i).uuid = some id at h
    rw [fresh] at h
    cases h
  have hwoken : ∀ call, (∀ m, call ≠ .waiting m) → ∀ j m,
      Function.update s.calls i call j = .waiting m → j ∉ s.waitSet →
      (sync s).response ≠ .empty := by
    intro call hc j m hj hw
    exact hv.still hc j m hj fun hm => hw (Finset.mem_of_mem_erase hm)
  unfold State.call
  rcases requestArm_cases message s.client with
    ⟨_, he⟩ | ⟨uuid, hu, hne, ⟨_, he⟩ | ⟨address, hto, hset, he⟩⟩
  · rw [he]
    exact hv.update hid (fun id => hkeep id _) (Or.inl rfl) trivial (hwoken _ (by simp))
  · rw [he]
    exact hv.update hid (fun id => hkeep id _) (Or.inr hu) trivial (hwoken _ (by simp))
  · rw [he]
    refine hv.update hid (fun id => hkeep id _) (Or.inr hu) ⟨hto, ?_⟩ (hwoken _ (by simp))
    intro hself
    exact hout ⟨by simp [hu, missing, hne], address, hto, hset, hself⟩

theorem leave_sound (hv : Sound ids history clientName (sync s)) {j : ℕ} {message : Message}
    (waits : s.calls j = .waiting message)
    (hresponse : s.client.bus.syncResponse ≠ .empty) :
    Sound ids history clientName (sync (s.leave j message false)) := by
  have hc := hv.calls j
  change CallSound history clientName (s.calls j) at hc
  rw [waits] at hc
  exact hv.proceed waits rfl ⟨hc, hv.stored hresponse⟩ (hv.still (by simp))

theorem thread_sound (hv : Sound ids history clientName (sync s)) (h : ThreadStep s a t)
    (hcall : ∀ i q message timeOut, a = .call i q message timeOut →
      (∀ id, message.correlationId = some id → id ≠ [] → id ∈ ids) ∧
        ¬ ToItself clientName message) :
    Sound ids history clientName (sync t) := by
  cases h with
  | call fresh => exact call_sound hv _ _ fresh (hcall _ _ _ _ rfl).1 (hcall _ _ _ _ rfl).2
  | @send j mlm q message timeOut address armed =>
    have hc := hv.calls j
    change CallSound history clientName (s.calls j) at hc
    rw [armed] at hc
    refine hv.proceed armed rfl ⟨address, hc⟩ ?_
    intro i m hi hout
    rcases eq_or_ne i j with rfl | hij
    · exact absurd (Finset.mem_insert_self i s.waitSet) hout
    · rw [Function.update_of_ne hij] at hi
      exact hv.woken i m hi fun hm => hout (Finset.mem_insert_of_mem hm)
  | ret waits notified => exact leave_sound hv waits (hv.woken _ _ waits notified)
  | timeOut waits => exact hv.proceed waits rfl trivial (hv.still (by simp))
  | api defined =>
    rw [api_sync]
    exact hv
  | stream idle handles =>
    cases stream_sync handles
    exact hv
  | streamSkipped idle handles =>
    cases stream_sync handles
    exact hv

/-- A bus keeps sound if it is only given replies to match. -/
theorem loose_sound (hv : Sound ids history clientName (sync s)) (h : LooseStep s a t)
    (hcall : ∀ i q message timeOut, a = .call i q message timeOut →
      (∀ id, message.correlationId = some id → id ≠ [] → id ∈ ids) ∧
        ¬ ToItself clientName message)
    (hleave : ∀ j, a = .leave j false → j ∈ s.waitSet → s.client.bus.syncResponse ≠ .empty)
    (hmatch : ∀ subject content message, a = .mailbox subject content →
      fromZmsg content = .ok message → syncMatch s.client.bus message = true →
      ReplyTo history clientName message) :
    Sound ids history clientName (sync t) := by
  cases h with
  | spurious waits asleep => exact leave_sound hv waits (hleave _ rfl asleep)
  | fine h =>
    cases h with
    | thread h => exact thread_sound hv h hcall
    | @compare subject content message idle decodes hit =>
      refine ⟨hv.known, hv.own, hv.calls, hv.stored, ?_, hv.woken⟩
      intro response hr
      cases hr
      exact hmatch _ _ _ rfl decodes hit
    | @store message W pending notify =>
      have hm := hv.pending message pending
      refine ⟨hv.known, fun h => absurd rfl h, hv.calls, fun _ => hm, ?_,
        fun _ _ _ _ => hm.correlated⟩
      intro response hr
      cases hr
    | @invoke _ _ client listener _ sent idle decodes miss dispatches =>
      have he : sync (s.invoke client listener sent) = sync s := by
        simp only [sync, State.invoke, dispatch_sync dispatches]
      rw [he]
      exact hv
    | @skipped _ _ client _ idle decodes miss dispatches =>
      have he : sync { s with client := client } = sync s := by
        simp only [sync, dispatch_sync dispatches]
      rw [he]
      exact hv

/-- Only a request that is made brings an id with it, and none is lost. -/
theorem loose_uuid (h : LooseStep s a t) (j : ℕ) :
    (t.calls j).uuid = (s.calls j).uuid ∨ (s.calls j).uuid = none ∧
      ∃ message, (∃ q timeOut, a = .call j q message timeOut) ∧
        (t.calls j).uuid = message.correlationId := by
  cases h with
  | @spurious i message waits asleep =>
    left
    change (Function.update s.calls i _ j).uuid = (s.calls j).uuid
    rcases eq_or_ne j i with rfl | hne
    · rw [Function.update_self, waits]
      rfl
    · rw [Function.update_of_ne hne]
  | fine h =>
    have ht : FineTurn (fun _ i message => ∃ q timeOut, a = .call i q message timeOut)
        (sync s) a (sync t) := fine_turn h fun _ q _ timeOut ha => ⟨q, timeOut, ha⟩
    change ((sync t).calls j).uuid = ((sync s).calls j).uuid ∨ ((sync s).calls j).uuid = none ∧
      ∃ message, _ ∧ ((sync t).calls j).uuid = Message.correlationId message
    generalize sync t = v at ht ⊢
    cases ht with
    | thread turn => exact turn_uuid turn j
    | compare idle named hit => exact Or.inl rfl
    | store pending notify => exact Or.inl rfl

/-- What the handler is given or a call of the interface sends. -/
theorem api_step {mlm : Mlm} {call : ApiCall L} (h : LooseStep s (.api mlm call) t) :
    (∀ client, call.run mlm s.client ≠ .error .endIterator client) ∧
      t.client = final (call.run mlm s.client) := by
  cases h with
  | fine h =>
    cases h with
    | thread h =>
      cases h with
      | api defined => exact ⟨defined, rfl⟩

theorem send_step {mlm : Mlm} {j : ℕ} (h : LooseStep s (.send j mlm) t) :
    ∃ q message timeOut address, s.calls j = .armed q message timeOut address ∧
      t.client = final (requestSend mlm address q message timeOut s.client) := by
  cases h with
  | fine h =>
    cases h with
    | thread h =>
      cases h with
      | send armed => exact ⟨_, _, _, _, armed, rfl⟩

end Bus

section Net

variable {ids : Set Bytes} {history history' : List Entry} {n : Net ι L} {i : ι}
  {s u : State L} {a : Action L} {mail : List Mail}

/-- Mail with the id of a request is its message or a reply. -/
def Accounted (ids : Set Bytes) (history : List Entry) (x : Mail) : Prop :=
  ∀ id ∈ ids, carries id x.content = true → .requested x ∈ history ∨
    ∃ message, ReplyTo history x.address message ∧ x.content = toZmsg message

/-- The message of a request has the id of its call and goes to another bus. -/
def Outgoing (n : Net ι L) (x : Mail) : Prop :=
  ∃ i j, x.address ≠ (n.nodes i).client.bus.clientName ∧
    ∀ id, carries id x.content = true → ((n.nodes i).calls j).uuid = some id

structure Inv (ids : Set Bytes) (n : Net ι L) (history : List Entry) : Prop where
  once : ∀ i j k l id, id ≠ [] → ((n.nodes i).calls j).uuid = some id →
    ((n.nodes k).calls l).uuid = some id → i = k
  sound : ∀ i, Sound ids history (n.nodes i).client.bus.clientName (sync (n.nodes i))
  mail : ∀ x ∈ n.mail, Accounted ids history x
  requests : ∀ x, .requested x ∈ history → Outgoing n x

theorem start_inv {names : ι → Bytes} (h : n.Start names) : Inv ids n [] := by
  cases h
  refine ⟨?_, fun _ => new_sound, by simp, by simp⟩
  intro i j k l id _ hj
  simp [State.new, Call.uuid, Call.message?] at hj

theorem Accounted.mono {x : Mail} (h : Accounted ids history x) (hh : history ⊆ history') :
    Accounted ids history' x := by
  intro id hid hc
  rcases h id hid hc with hr | ⟨message, hm, he⟩
  · exact Or.inl (hh hr)
  · exact Or.inr ⟨message, hm.mono hh, he⟩

/-- A request is never taken for a response where it arrives. -/
theorem Inv.miss (hi : Inv ids n history) {x : Mail} {message : Message}
    (hx : .requested x ∈ history) (addressed : x.address = (n.nodes i).client.bus.clientName)
    (hd : fromZmsg x.content = .ok message) :
    syncMatch (n.nodes i).client.bus message = false := by
  rw [← Bool.not_eq_true, syncMatch_iff]
  intro hm
  obtain ⟨hne, hid⟩ := hm
  obtain ⟨k, l, haway, huuid⟩ := hi.requests x hx
  obtain ⟨j, hj⟩ := (hi.sound i).own hne
  -- The id waited for is that of a request made here, and the request is from elsewhere.
  have hki : k = i := hi.once k l i j _ hne (huuid _ ((carries_iff hd).mpr hid)) hj
  subst hki
  exact haway addressed

/-- So what is taken for a response is a reply. -/
theorem Inv.reply (hi : Inv ids n history) {x : Mail} {message : Message} (flight : x ∈ n.mail)
    (addressed : x.address = (n.nodes i).client.bus.clientName)
    (hd : fromZmsg x.content = .ok message)
    (hm : syncMatch (n.nodes i).client.bus message = true) :
    ReplyTo history (n.nodes i).client.bus.clientName message := by
  obtain ⟨hne, hid⟩ := (syncMatch_iff _ _).mp hm
  obtain ⟨j, hj⟩ := (hi.sound i).own hne
  have hknown := (hi.sound i).known j _ hj hne
  rcases hi.mail x flight _ hknown ((carries_iff hd).mpr hid) with hx | ⟨reply, hr, hc⟩
  · rw [hi.miss hx addressed hd] at hm
    cases hm
  · rw [hc] at hd
    rw [Codec.decoded_with_id hd hid, ← addressed]
    exact hr

/-- What is handed over with one call. -/
theorem posted_one {c c' : Client L} {address subject : Bytes} {content : Zmsg} {ok : Bool}
    {x : Mail} (hc : c'.calls = c.calls ++ [.sendto address subject content ok])
    (hx : x ∈ posted c c') : x = ⟨address, subject, content⟩ := by
  rw [posted_eq hc] at hx
  cases ok with
  | true => exact List.mem_singleton.mp hx
  | false => cases hx

theorem sendReply_posted {mlm : Mlm} {replyQueue : Bytes} {message : Message} {c : Client L}
    {x : Mail} (defined : ∀ c', sendReply mlm replyQueue message c ≠ .error .endIterator c')
    (hx : x ∈ posted c (final (sendReply mlm replyQueue message c))) :
    message ≠ .empty ∧ x.content = toZmsg message ∧
      ∃ address, message.metaData.find Message.TO = some address ∧ cStr address = x.address := by
  obtain ⟨log, he⟩ := sendReply_eq mlm replyQueue message c
  rw [he] at hx defined
  cases hid : missing message.correlationId with
  | true =>
    simp only [hid, if_true] at hx
    have hnone : posted c c = [] := posted_eq (List.append_nil c.calls).symm
    change x ∈ posted c c at hx
    rw [hnone] at hx
    cases hx
  | false =>
    simp only [hid, Bool.false_eq_true, if_false] at hx defined
    cases hto : message.metaData.find Message.TO with
    | none =>
      simp only [hto] at defined
      exact absurd rfl (defined _)
    | some address =>
      simp only [hto] at hx
      cases posted_one rfl hx
      refine ⟨?_, rfl, address, rfl, rfl⟩
      intro hempty
      subst hempty
      cases hid

/-- What a bus hands over can be accounted for. -/
theorem posted_accounted (h : LooseStep (n.nodes i) a u) (hok : Honest ids n (.act i a [])) :
    ∀ x ∈ posted (n.nodes i).client u.client,
      Accounted ids (history ++ (noted (n.nodes i) a).toList) x := by
  intro x hx
  have hsilent : (∀ id ∈ ids, Spares id (n.nodes i) a) →
      Accounted ids (history ++ (noted (n.nodes i) a).toList) x := by
    intro hs id hid hc
    have hnone := silent_posted (loose_keeps h (silent_guards (hs id hid)))
    have hx : x ∈ withId id (posted (n.nodes i).client u.client) := List.mem_filter.mpr ⟨hx, hc⟩
    rw [hnone] at hx
    cases hx
  cases a with
  | send j mlm =>
    obtain ⟨q, message, timeOut, address, armed, he⟩ := send_step h
    rw [he] at hx
    cases posted_one rfl hx
    intro id _ _
    left
    simp [noted, armed]
  | api mlm call =>
    cases call with
    | sendReply q message =>
      obtain ⟨defined, he⟩ := api_step h
      rw [he] at hx
      obtain ⟨hne, hc, hto⟩ := sendReply_posted defined hx
      intro id _ _
      right
      exact ⟨message, ⟨by simp [noted], hto, hne⟩, hc⟩
    | _ => exact hsilent fun id hid message hm => hok message hm id hid
  | _ => exact hsilent fun _ _ => trivial

/-- So do the requests that it notes down. -/
theorem noted_outgoing (hv : Sound ids history (n.nodes i).client.bus.clientName
    (sync (n.nodes i))) {x : Mail} (hx : noted (n.nodes i) a = some (.requested x)) :
    Outgoing n x := by
  cases a with
  | send j mlm =>
    simp only [noted] at hx
    split at hx
    · rename_i q message timeOut address armed
      cases hx
      have hc := hv.calls j
      change CallSound history _ ((n.nodes i).calls j) at hc
      rw [armed] at hc
      refine ⟨i, j, hc.2, ?_⟩
      intro id hid
      rw [armed]
      have he := carries_toZmsg hid
      rwa [requestMessage_correlationId] at he
    · cases hx
  | api mlm call => cases call <;> cases hx
  | _ => cases hx

variable [DecidableEq ι]

/-- Ids stay with their calls. -/
theorem uuid_kept (h : LooseStep (n.nodes i) a u) (mail : List Mail) {k : ι} {l : ℕ} {id : Bytes}
    (hk : ((n.nodes k).calls l).uuid = some id) :
    (((n.after i u mail).nodes k).calls l).uuid = some id := by
  rcases eq_or_ne k i with rfl | hne
  · rw [Net.after_self]
    rcases loose_uuid h l with he | ⟨hnone, _⟩
    · rwa [he]
    · rw [hnone] at hk
      cases hk
  · rwa [Net.after_other n u mail hne]

theorem name_kept (h : LooseStep (n.nodes i) a u) (mail : List Mail) (k : ι) :
    ((n.after i u mail).nodes k).client.bus.clientName = (n.nodes k).client.bus.clientName := by
  rcases eq_or_ne k i with rfl | hne
  · rw [Net.after_self, loose_name h]
  · rw [Net.after_other n u mail hne]

theorem Outgoing.after {x : Mail} (hx : Outgoing n x) (h : LooseStep (n.nodes i) a u)
    (mail : List Mail) : Outgoing (n.after i u mail) x := by
  obtain ⟨k, l, haway, huuid⟩ := hx
  refine ⟨k, l, ?_, fun id hid => uuid_kept h mail (huuid id hid)⟩
  rwa [name_kept h mail k]

/-- A call has its id from before, or is the one just made. -/
theorem uuid_after (h : LooseStep (n.nodes i) a u) {mail : List Mail} {k : ι} {l : ℕ} {id : Bytes}
    (hk : (((n.after i u mail).nodes k).calls l).uuid = some id) :
    ((n.nodes k).calls l).uuid = some id ∨ k = i ∧ ∃ q message timeOut,
      a = .call l q message timeOut ∧ message.correlationId = some id := by
  rcases eq_or_ne k i with rfl | hne
  · rw [Net.after_self] at hk
    rcases loose_uuid h l with he | ⟨_, message, ⟨q, timeOut, ha⟩, he⟩
    · rw [he] at hk
      exact Or.inl hk
    · rw [he] at hk
      exact Or.inr ⟨rfl, q, message, timeOut, ha, hk⟩
  · rw [Net.after_other n u mail hne] at hk
    exact Or.inl hk

theorem Inv.once_after (hi : Inv ids n history) (h : LooseStep (n.nodes i) a u)
    (hok : Honest ids n (.act i a [])) {mail : List Mail} {j k : ι} {l m : ℕ} {id : Bytes}
    (hne : id ≠ []) (hj : (((n.after i u mail).nodes j).calls l).uuid = some id)
    (hk : (((n.after i u mail).nodes k).calls m).uuid = some id) : j = k := by
  rcases uuid_after h hj with hold | ⟨rfl, q, message, timeOut, rfl, hid⟩
  · rcases uuid_after h hk with hold' | ⟨rfl, q, message, timeOut, rfl, hid⟩
    · exact hi.once j l k m id hne hold hold'
    · by_contra hjk
      exact (hok id hid hne).2 j l (fun he => hjk he.1) hold
  · rcases uuid_after h hk with hold' | ⟨rfl, _⟩
    · by_contra hjk
      exact (hok id hid hne).2 k m (fun he => hjk he.1.symm) hold'
    · rfl

/-- A step of one bus. -/
theorem Inv.after (hi : Inv ids n history) {mail : List Mail} (hmail : mail ⊆ n.mail)
    (h : LooseStep (n.nodes i) a u) (hok : Honest ids n (.act i a []))
    (hmeant : Meant n (.act i a []))
    (hmatch : ∀ subject content message, a = .mailbox subject content →
      fromZmsg content = .ok message → syncMatch (n.nodes i).client.bus message = true →
      ReplyTo history (n.nodes i).client.bus.clientName message) :
    Inv ids (n.after i u mail) (history ++ (noted (n.nodes i) a).toList) := by
  have hsub := List.subset_append_left history (noted (n.nodes i) a).toList
  refine ⟨fun _ _ _ _ _ => hi.once_after h hok, ?_, ?_, ?_⟩
  · intro j
    rw [name_kept h mail j]
    rcases eq_or_ne j i with rfl | hj
    · rw [Net.after_self]
      refine (loose_sound (hi.sound j) h ?_ ?_ hmatch).mono hsub
      · intro k q message timeOut ha
        subst ha
        exact ⟨fun id hid hne => (hok id hid hne).1, hmeant⟩
      · intro k ha
        subst ha
        exact hmeant
    · rw [Net.after_other n u mail hj]
      exact (hi.sound j).mono hsub
  · intro x hx
    rcases List.mem_append.mp hx with hx | hx
    · exact (hi.mail x (hmail hx)).mono hsub
    · exact posted_accounted h hok x hx
  · intro x hx
    rcases List.mem_append.mp hx with hx | hx
    · exact (hi.requests x hx).after h mail
    · exact (noted_outgoing (hi.sound i) (Option.mem_toList.mp hx)).after h mail

theorem Inv.step (hi : Inv ids n history) {n' : Net ι L} {a : NetAction ι L}
    (h : LooseNetStep n a n') (hok : Honest ids n a) (hmeant : Meant n a) :
    Inv ids n' (history ++ (entry n a).toList) := by
  cases h with
  | act own step =>
    refine hi.after (List.Subset.refl _) step hok hmeant ?_
    intro subject content message ha
    exact absurd ha (own subject content)
  | @deliver i x u flight addressed step =>
    refine hi.after (a := .mailbox x.subject x.content) List.erase_subset step trivial trivial ?_
    intro subject content message ha hd hm
    cases ha
    exact hi.reply flight addressed hd hm
  | @post x =>
    have he : history ++ (entry n (.post x : NetAction ι L)).toList = history :=
      List.append_nil history
    rw [he]
    refine ⟨hi.once, hi.sound, ?_, hi.requests⟩
    intro y hy
    rcases List.mem_append.mp hy with hy | hy
    · exact hi.mail y hy
    · intro id hid hc
      rw [List.mem_singleton.mp hy, hok id hid] at hc
      cases hc

/-- What does not match is dispatched. -/
theorem missed_dispatched {s t : State L} {x : Mail}
    (h : LooseStep s (.mailbox x.subject x.content) t)
    (hmiss : ∀ message, fromZmsg x.content = .ok message →
      syncMatch s.client.bus message = false) : Dispatched s x t := by
  cases h with
  | fine h =>
    cases h with
    | thread h => cases h
    | compare idle decodes hit =>
      rw [hmiss _ decodes] at hit
      cases hit
    | invoke idle decodes miss dispatches =>
      refine ⟨_, decodes, ?_⟩
      rw [dispatchMailbox_eq] at dispatches
      cases hf : s.client.bus.subscriptions.find x.subject with
      | none =>
        simp only [hf] at dispatches
        cases dispatches
      | some listener =>
        simp only [hf] at dispatches
        cases dispatches
        rfl
    | skipped idle decodes miss dispatches =>
      refine ⟨_, decodes, ?_⟩
      rw [dispatchMailbox_eq] at dispatches
      cases hf : s.client.bus.subscriptions.find x.subject with
      | none =>
        simp only [hf] at dispatches
        cases dispatches
        rfl
      | some listener =>
        simp only [hf] at dispatches
        cases dispatches

/-- A reply to the bus is none of the messages that it sends to others. -/
theorem Outward.ne_reply {clientName : Bytes} {message response : Message}
    (h : Outward clientName message) (hr : ReplyTo history clientName response) :
    response ≠ message := by
  intro he
  subst he
  obtain ⟨address, hto, hne⟩ := h
  obtain ⟨address', hto', he⟩ := hr.addressed
  cases hto.symm.trans hto'
  exact hne he

theorem Outward.requestMessage {clientName : Bytes} {message : Message}
    (h : Outward clientName message) (receiveTimeOut : Int) :
    Outward clientName (requestMessage clientName message receiveTimeOut) := by
  obtain ⟨address, hto, hne⟩ := h
  refine ⟨address, ?_, hne⟩
  rw [requestMessage_find _ _ _ (by decide) (by decide)]
  exact hto

theorem Inv.onlyReplies (hi : Inv ids n history) : OnlyReplies n history := by
  constructor
  · intro i j message response hr
    have hc := (hi.sound i).calls j
    change CallSound history _ ((n.nodes i).calls j) at hc
    rw [hr] at hc
    obtain ⟨hout, hreply⟩ := hc
    exact ⟨hreply.replied, hout.ne_reply hreply,
      fun receiveTimeOut => (hout.requestMessage receiveTimeOut).ne_reply hreply⟩
  · intro i x n' hx hstep
    cases hstep with
    | deliver flight addressed step =>
      rw [Net.after_self]
      exact missed_dispatched step fun message hd => hi.miss hx addressed hd

/-- Whatever the buses do and in whatever order messages arrive, requests to other
buses are answered by replies only. -/
theorem only_replies_answer {names : ι → Bytes}
    (h : Reachable (unrecorded (Net.Start names))
      (record entry (restrict (fun n a => Honest ids n a ∧ Meant n a) LooseNetStep))
      (n, history)) : OnlyReplies n history := by
  have hi : Inv ids n history := by
    refine h.invariant (I := fun x => Inv ids x.1 x.2) ?_ ?_
    · intro x hx
      obtain ⟨hstart, hempty⟩ := hx
      rw [hempty]
      exact start_inv hstart
    · intro x a y hx hstep
      obtain ⟨⟨⟨hok, hmeant⟩, hstep⟩, hy⟩ := hstep
      rw [hy]
      exact hx.step hstep hok hmeant
  exact hi.onlyReplies

/-- The condition leaves out nothing harmless: a request that its own bus is sent while
it waits for the response can come back as the response. -/
theorem own_request_returns {n : Net ι L} {i : ι} {j : ℕ} {requestQueue address id : Bytes}
    {message : Message} {receiveTimeOut : Int}
    (armed : (n.nodes i).calls j = .armed requestQueue message receiveTimeOut address)
    (hself : cStr address = (n.nodes i).client.bus.clientName)
    (hid : message.correlationId = some id) (hne : id ≠ [])
    (huuid : (n.nodes i).client.bus.syncUuid = id) (hidle : (n.nodes i).matched = none)
    (hplain : message.metaData.find metadataEnd = none) (history : List Entry) :
    ∃ as n' history', Run (record entry (restrict (Honest ids) LooseNetStep)) (n, history) as
        (n', history') ∧
      (n'.nodes i).calls j = .returned message
        (requestMessage (n.nodes i).client.bus.clientName message receiveTimeOut) ∧
      ¬ OnlyReplies n' history' := by
  let mlm : Mlm := ⟨true, true, true⟩
  let sent := requestMessage (n.nodes i).client.bus.clientName message receiveTimeOut
  let x : Mail := ⟨cStr address, cStr requestQueue, toZmsg sent⟩
  let s₁ := (n.nodes i).send mlm j requestQueue message receiveTimeOut address
  let s₂ : State L := { s₁ with matched := some sent }
  let s₃ : State L := { s₂ with
    client := final (storeResponse sent s₂.client)
    waitSet := s₂.waitSet.erase j
    matched := none }
  let n₁ := n.after i s₁ n.mail
  let n₂ := n₁.after i s₂ (n₁.mail.erase x)
  let n₃ := n₂.after i s₃ n₂.mail
  let n₄ := n₃.after i (s₃.leave j message false) n₃.mail
  have hsent : sent.correlationId = some id := (requestMessage_correlationId _ _ _).trans hid
  have hdecodes : fromZmsg (toZmsg sent) = .ok sent := by
    apply Codec.fromZmsg_toZmsg_exact
    rw [requestMessage_find _ _ _ (by decide) (by decide)]
    exact hplain
  have hwaits : s₁.calls j = .waiting message := Function.update_self ..
  have hmail : x ∈ n₁.mail := by
    refine List.mem_append_right _ ?_
    rw [posted_eq rfl]
    exact List.mem_singleton.mpr rfl
  have hdeliver : LooseStep (n₁.nodes i) (.mailbox x.subject x.content) s₂ := by
    rw [Net.after_self]
    refine .fine (.compare hidle hdecodes ((syncMatch_iff _ _).mpr ⟨?_, ?_⟩))
    · exact huuid ▸ hne
    · exact hsent.trans (congrArg some huuid.symm)
  have hstore : LooseStep (n₂.nodes i) .store s₃ := by
    rw [Net.after_self]
    exact .fine (.store rfl (Or.inr ⟨j, Finset.mem_insert_self j _, rfl⟩))
  have hleave : LooseStep (n₃.nodes i) (.leave j false) (s₃.leave j message false) := by
    rw [Net.after_self]
    exact .fine (.thread (.ret hwaits (Finset.notMem_erase j _)))
  have hreturned : (n₄.nodes i).calls j = .returned message sent := by
    rw [Net.after_self]
    exact Function.update_self ..
  have hnoted : history ++ [.requested x] =
      history ++ (entry n (.act i (.send j mlm) [])).toList := by
    simp [entry, noted, armed, x, sent]
  refine ⟨[.act i (.send j mlm) [], .deliver i x [], .act i .store [], .act i (.leave j false) []],
    n₄, history ++ [.requested x], ?_, hreturned, ?_⟩
  · refine .cons (t := (n₁, history ++ [.requested x]))
      ⟨⟨trivial, .act (by simp) (.fine (.thread (.send armed)))⟩, hnoted⟩ ?_
    refine .cons (t := (n₂, history ++ [.requested x]))
      ⟨⟨trivial, .deliver hmail ?_ hdeliver⟩, (List.append_nil _).symm⟩ ?_
    · rw [Net.after_self]
      exact hself
    refine .cons (t := (n₃, history ++ [.requested x]))
      ⟨⟨trivial, .act (by simp) hstore⟩, (List.append_nil _).symm⟩ ?_
    exact .cons (t := (n₄, history ++ [.requested x]))
      ⟨⟨trivial, .act (by simp) hleave⟩, (List.append_nil _).symm⟩ (.nil _)
  · intro h
    refine (h.replied i j message sent hreturned).2.2 receiveTimeOut ?_
    rw [Net.after_self]
    rfl

open RoundTrip (clientNames question reply)

/-- A request that another bus answers. -/
theorem reply_returned : ∃ (n : Net Bool Unit) (history : List Entry),
    (n.nodes false).calls 0 = .returned question reply ∧ OnlyReplies n history := by
  let mlm : Mlm := ⟨true, true, true⟩
  let queue := lit "queue"
  let x : Mail := ⟨lit "server", queue, toZmsg (requestMessage (lit "client") question 5)⟩
  let y : Mail := ⟨lit "client", lit "client", toZmsg reply⟩
  let n₀ : Net Bool Unit := ⟨fun i => State.new (clientNames i), []⟩
  let registered : State Unit := { n₀.nodes true with
    client := final ((ApiCall.receive queue ()).run mlm (n₀.nodes true).client) }
  let n₁ := n₀.after true registered []
  let n₂ := n₁.after false ((n₁.nodes false).call 0 queue question 5) []
  let n₃ := n₂.after false ((n₂.nodes false).send mlm 0 queue question 5 (lit "server")) []
  let n₄ := n₃.after true ((n₃.nodes true).invoke (n₃.nodes true).client ()
    (requestMessage (lit "client") question 5)) []
  let answered : State Unit := { n₄.nodes true with
    client := final ((ApiCall.sendReply (lit "client") reply).run mlm (n₄.nodes true).client) }
  let n₅ := n₄.after true answered []
  let n₆ := n₅.after false { n₅.nodes false with matched := some reply } []
  let stored : State Unit := { n₆.nodes false with
    client := final (storeResponse reply (n₆.nodes false).client)
    waitSet := (n₆.nodes false).waitSet.erase 0
    matched := none }
  let n₇ := n₆.after false stored []
  let n₈ := n₇.after false ((n₇.nodes false).leave 0 question false) []
  let step := record entry
    (restrict (fun (n : Net Bool Unit) a => Honest {lit "id"} n a ∧ Meant n a) LooseNetStep)
  have hrun : Run step (n₀, [])
      [.act true (.api mlm (.receive queue ())) [], .act false (.call 0 queue question 5) [],
        .act false (.send 0 mlm) [], .deliver true x [],
        .act true (.api mlm (.sendReply (lit "client") reply)) [], .deliver false y [],
        .act false .store [], .act false (.leave 0 false) []]
      (n₈, [.requested x, .replied reply]) := by
    refine .cons (t := (n₁, [])) ⟨⟨⟨by simp [Honest, ApiCall.message?], trivial⟩,
      .act (by simp) (.fine (.thread (.api ?_)))⟩, rfl⟩ ?_
    · intro c hc
      cases hc
    refine .cons (t := (n₂, [])) ⟨⟨⟨?_, ?_⟩,
      .act (by simp) (.fine (.thread (.call rfl)))⟩, rfl⟩ ?_
    · intro id hid _
      cases hid
      refine ⟨Set.mem_singleton _, ?_⟩
      intro k l _ hk
      cases k with
      | false => cases hk
      | true => cases hk
    · intro hself
      obtain ⟨_, address, hto, _, he⟩ := hself
      cases hto
      exact absurd he (by decide)
    refine .cons (t := (n₃, [.requested x])) ⟨⟨⟨trivial, trivial⟩,
      .act (by simp) (.fine (.thread (.send rfl)))⟩, rfl⟩ ?_
    refine .cons (t := (n₄, [.requested x])) ⟨⟨⟨trivial, trivial⟩,
      .deliver (x := x) List.mem_cons_self rfl (.fine (.invoke rfl rfl rfl rfl))⟩, rfl⟩ ?_
    refine .cons (t := (n₅, [.requested x, .replied reply])) ⟨⟨⟨trivial, trivial⟩,
      .act (by simp) (.fine (.thread (.api ?_)))⟩, rfl⟩ ?_
    · intro c hc
      cases hc
    refine .cons (t := (n₆, [.requested x, .replied reply])) ⟨⟨⟨trivial, trivial⟩,
      .deliver (x := y) List.mem_cons_self rfl (.fine (.compare rfl rfl rfl))⟩, rfl⟩ ?_
    refine .cons (t := (n₇, [.requested x, .replied reply])) ⟨⟨⟨trivial, trivial⟩,
      .act (by simp) (.fine (.store rfl (Or.inr ⟨0, by decide, rfl⟩)))⟩, rfl⟩ ?_
    refine .cons (t := (n₈, [.requested x, .replied reply])) ⟨⟨⟨trivial, ?_⟩,
      .act (by simp) (.fine (.thread (.ret rfl (by decide))))⟩, rfl⟩ (.nil _)
    intro hm
    exact absurd hm (by decide)
  have hreach : Reachable (unrecorded (Net.Start clientNames)) step
      (n₈, [.requested x, .replied reply]) := ⟨(n₀, []), _, ⟨rfl, rfl⟩, hrun⟩
  exact ⟨n₈, _, rfl, only_replies_answer hreach⟩

def letterToMyself : Message :=
  ⟨(SortedMap.empty.emplace Message.CORRELATION_ID (lit "id")).emplace Message.TO (lit "client"),
    [lit "?"]⟩

/-- A request that goes back to the bus that makes it is its own response. -/
theorem own_request_returned : ∃ (n : Net Unit Unit) (history : List Entry),
    Reachable (unrecorded (Net.Start fun _ => lit "client"))
      (record entry (restrict (Honest {lit "id"}) LooseNetStep)) (n, history) ∧
    (n.nodes ()).calls 0 =
      .returned letterToMyself (requestMessage (lit "client") letterToMyself 5) ∧
    ¬ OnlyReplies n history := by
  let n₀ : Net Unit Unit := ⟨fun _ => State.new (lit "client"), []⟩
  let n₁ := n₀.after () ((n₀.nodes ()).call 0 (lit "queue") letterToMyself 5) []
  have hcall : Run (record entry (restrict (Honest {lit "id"}) LooseNetStep)) (n₀, [])
      [.act () (.call 0 (lit "queue") letterToMyself 5) []] (n₁, []) := by
    refine .cons (t := (n₁, [])) ⟨⟨?_, .act (by simp) (.fine (.thread (.call rfl)))⟩, rfl⟩ (.nil _)
    intro id hid _
    cases hid
    refine ⟨Set.mem_singleton _, ?_⟩
    intro k l _ hk
    cases hk
  obtain ⟨as, n, history, hrun, hreturned, hnot⟩ := own_request_returns (n := n₁)
    (rfl : (n₁.nodes ()).calls 0 = .armed (lit "queue") letterToMyself 5 (lit "client"))
    (by decide) rfl (by decide) rfl rfl (by decide) []
  exact ⟨n, history, ⟨(n₀, []), _, ⟨rfl, rfl⟩, hcall.append hrun⟩, hreturned, hnot⟩

end Net

end Messagebus.Proofs.Replies
