import Messagebus.Network
import Messagebus.Proofs.Codec
import Messagebus.Proofs.Requests

namespace Messagebus.Proofs.Nodes
open Frame Runs Proofs.Calls Proofs.Requests

variable {L : Type}

theorem carries_iff {id : Bytes} {content : Zmsg} {message : Message}
    (h : fromZmsg content = .ok message) :
    carries id content = true ↔ message.correlationId = some id := by
  unfold carries
  rw [h]
  exact decide_eq_true_iff

/-- Encoding and decoding make no entry up. -/
theorem find_of_decoded {message decoded : Message} {key value : Bytes}
    (h : fromZmsg (toZmsg message) = .ok decoded) (hf : decoded.metaData.find key = some value) :
    message.metaData.find key = some value := by
  have hm := SortedMap.mem_of_find hf
  rw [Codec.decoded_entries h] at hm
  exact SortedMap.find_of_mem (List.takeWhile_subset _ hm)

theorem carries_toZmsg {id : Bytes} {message : Message} (h : carries id (toZmsg message) = true) :
    message.correlationId = some id := by
  obtain ⟨rest, hr⟩ := Codec.fromZmsg_toZmsg message
  exact find_of_decoded hr ((carries_iff hr).mp h)

/-- Nothing with the id is handed over. -/
def silent (id : Bytes) : Footprint (Client L) where
  rel c c' := c'.bus.clientName = c.bus.clientName ∧
    ∃ new, c'.calls = c.calls ++ new ∧
      ∀ call ∈ new, ∀ content, call.content? = some content → carries id content = false
  refl c := ⟨rfl, [], (List.append_nil c.calls).symm, by simp⟩
  trans c c' c'' h h' := by
    obtain ⟨hn, new, hc, hm⟩ := h
    obtain ⟨hn', new', hc', hm'⟩ := h'
    refine ⟨hn'.trans hn, new ++ new', ?_, ?_⟩
    · rw [hc', hc, List.append_assoc]
    · intro call hcall
      rcases List.mem_append.mp hcall with h | h
      · exact hm call h
      · exact hm' call h

theorem silent_same {id : Bytes} {c c' : Client L} (hn : c'.bus.clientName = c.bus.clientName)
    (hc : c'.calls = c.calls) : (silent id).rel c c' :=
  ⟨hn, [], by rw [hc, List.append_nil], by simp⟩

theorem sends_silent {id : Bytes} {carried : Option Message} {c c' : Client L}
    (h : (sends carried).rel c c')
    (hid : ∀ message, carried = some message → message.correlationId ≠ some id) :
    (silent id).rel c c' := by
  obtain ⟨hn, _, _, new, hc, hm⟩ := h
  refine ⟨hn, new, hc, ?_⟩
  intro call hcall content hcontent
  obtain ⟨message, hmessage, rfl⟩ := hm call hcall content hcontent
  rw [← Bool.not_eq_true]
  exact fun h => hid message hmessage (carries_toZmsg h)

theorem posted_eq {c c' : Client L} {new : List MlmCall} (h : c'.calls = c.calls ++ new) :
    posted c c' = new.filterMap MlmCall.mail? := by
  simp [posted, h]

theorem mail?_content {call : MlmCall} {x : Mail} (h : call.mail? = some x) :
    call.content? = some x.content := by
  cases call with
  | sendto address subject content ok =>
    cases ok with
    | false => cases h
    | true =>
      cases h
      rfl
  | _ => cases h

/-- The mail with the id. -/
def withId (id : Bytes) (mail : List Mail) : List Mail := mail.filter (fun x => carries id x.content)

theorem withId_append (id : Bytes) (mail mail' : List Mail) :
    withId id (mail ++ mail') = withId id mail ++ withId id mail' := List.filter_append ..

theorem withId_erase (id : Bytes) (mail : List Mail) (x : Mail) :
    withId id (mail.erase x) = (withId id mail).erase x := List.erase_filter.symm

theorem silent_posted {id : Bytes} {c c' : Client L} (h : (silent id).rel c c') :
    withId id (posted c c') = [] := by
  obtain ⟨_, new, hc, hm⟩ := h
  rw [posted_eq hc]
  refine List.filter_eq_nil_iff.mpr ?_
  intro x hx
  obtain ⟨call, hcall, hmail⟩ := List.mem_filterMap.mp hx
  rw [hm call hcall _ (mail?_content hmail)]
  exact Bool.false_ne_true

/-- A listener stays bound to its queue. -/
def holds (queue : Bytes) (listener : L) : Footprint (Client L) where
  rel c c' := c.bus.subscriptions.find queue = some listener →
    c'.bus.subscriptions.find queue = some listener
  refl _ h := h
  trans _ _ _ h h' hc := h' (h hc)

section Holds

variable {queue : Bytes} {listener : L}

theorem holds_admits (carried : Option Message) : Admits (holds queue listener) carried where
  warning _ := keeps_modify fun _ h => h
  handover _ _ := keeps_modify fun _ h => h
  record _ := keeps_modify fun _ h => h
  bind key other := by
    refine keeps_modify fun c h => ?_
    change (c.bus.subscriptions.emplace key other).find queue = some listener
    by_cases hk : queue = key
    · subst hk
      simp [h]
    · rw [SortedMap.find_emplace_other _ _ hk]
      exact h

theorem api_holds (mlm : Mlm) {call : ApiCall L} (h : call ≠ .unsubscribe queue) :
    Keeps (holds queue listener) (call.run mlm) := by
  apply api_keeps mlm (holds_admits call.message?)
  intro topic ht
  have hne : queue ≠ topic := fun he => h (he ▸ ht)
  refine keeps_modify fun c hc => ?_
  change (c.bus.subscriptions.erase topic).find queue = some listener
  rw [SortedMap.find_erase_other _ hne]
  exact hc

end Holds

/-- What goes out has the fields of the message that it is a copy of, but for two. -/
theorem requestMessage_find {key : Bytes} (clientName : Bytes) (message : Message)
    (receiveTimeOut : Int) (ht : key ≠ Message.TIMEOUT) (hr : key ≠ Message.REPLY_TO) :
    (requestMessage clientName message receiveTimeOut).metaData.find key =
      message.metaData.find key := by
  unfold requestMessage
  rw [SortedMap.find_emplace_other _ _ hr, SortedMap.find_emplace_other _ _ ht]

theorem requestMessage_correlationId (clientName : Bytes) (message : Message)
    (receiveTimeOut : Int) :
    (requestMessage clientName message receiveTimeOut).correlationId = message.correlationId :=
  requestMessage_find _ _ _ (by decide) (by decide)

/-- A step that hands nothing over with the id. -/
def Spares (id : Bytes) (s : State L) : Action L → Prop
  | .api _ call => ∀ message, call.message? = some message → message.correlationId ≠ some id
  | .send i _ => (s.calls i).uuid ≠ some id
  | _ => True

theorem call_client (s : State L) (i : ℕ) (requestQueue : Bytes) (message : Message)
    (receiveTimeOut : Int) :
    (s.call i requestQueue message receiveTimeOut).client = final (requestArm message s.client) := by
  unfold State.call
  cases requestArm message s.client with
  | ok address client => rfl
  | error fault client => rfl

/-- A call writes at most the id and its own entry. -/
theorem call_sync (s : State L) (i : ℕ) (requestQueue : Bytes) (message : Message)
    (receiveTimeOut : Int) : ∃ uuid call, sync (s.call i requestQueue message receiveTimeOut) =
      { sync s with uuid := uuid, calls := Function.update s.calls i call } := by
  unfold State.call
  rcases requestArm_cases message s.client with
    ⟨_, he⟩ | ⟨uuid, _, _, ⟨_, he⟩ | ⟨address, _, _, he⟩⟩
  · rw [he]
    exact ⟨_, _, rfl⟩
  · rw [he]
    exact ⟨_, _, rfl⟩
  · rw [he]
    exact ⟨_, _, rfl⟩

/-- What the steps of a bus do to its client, apart from the calls on malamute. -/
def Alike (c c' : Client L) : Prop :=
  c'.bus.clientName = c.bus.clientName ∧ c'.bus.subscriptions = c.bus.subscriptions ∧
    c'.calls = c.calls

theorem arm_alike (message : Message) (c : Client L) :
    Alike c (final (requestArm message c)) := by
  rcases requestArm_cases message c with ⟨_, he⟩ | ⟨uuid, _, _, ⟨_, he⟩ | ⟨address, _, _, he⟩⟩
  · rw [he]
    exact ⟨rfl, rfl, rfl⟩
  · rw [he]
    exact ⟨rfl, rfl, rfl⟩
  · rw [he]
    exact ⟨rfl, rfl, rfl⟩

theorem dispatch_alike {subject : Bytes} {message : Message} {c c' : Client L}
    {handled : Handled L} (h : dispatchMailbox subject message c = .ok handled c') :
    Alike c c' := by
  rw [dispatchMailbox_eq] at h
  split at h
  · cases h
    exact ⟨rfl, rfl, rfl⟩
  · cases h
    exact ⟨rfl, rfl, rfl⟩

theorem mailbox_alike {subject : Bytes} {content : Zmsg} {c c' : Client L} {handled : Handled L}
    (h : listenerHandleMailbox subject content c = .ok handled c') : Alike c c' := by
  cases hd : fromZmsg content with
  | error fault =>
    rw [(handlers_fault subject c hd).1] at h
    cases h
  | ok message =>
    rw [listenerHandleMailbox_eq subject c hd] at h
    split at h
    · cases h
      exact ⟨rfl, rfl, rfl⟩
    · exact dispatch_alike h

/-- A footprint that the calls of a step keep. -/
structure Guards (F : Footprint (Client L)) (s : State L) (a : Action L) : Prop where
  alike : ∀ c c', Alike c c' → F.rel c c'
  api : ∀ mlm call, a = .api mlm call → Keeps F (call.run mlm)
  send : ∀ i mlm requestQueue message receiveTimeOut address, a = .send i mlm →
    s.calls i = .armed requestQueue message receiveTimeOut address →
    Keeps F (requestSend mlm address requestQueue message receiveTimeOut)

theorem thread_keeps {F : Footprint (Client L)} {s t : State L} {a : Action L}
    (h : ThreadStep s a t) (hF : Guards F s a) : F.rel s.client t.client := by
  cases h with
  | call fresh =>
    rw [call_client]
    exact hF.alike _ _ (arm_alike _ s.client)
  | send armed => exact hF.send _ _ _ _ _ _ rfl armed s.client
  | ret waits notified => exact F.refl _
  | timeOut waits => exact F.refl _
  | api defined => exact hF.api _ _ rfl s.client
  | stream idle handles =>
    cases stream_sync handles
    exact F.refl _
  | streamSkipped idle handles =>
    cases stream_sync handles
    exact F.refl _

theorem step_keeps {F : Footprint (Client L)} {s t : State L} {a : Action L} (h : Step s a t)
    (hF : Guards F s a) : F.rel s.client t.client := by
  cases h with
  | response handles notify => exact hF.alike _ _ (mailbox_alike handles)
  | invoke handles => exact hF.alike _ _ (mailbox_alike handles)
  | skipped handles => exact hF.alike _ _ (mailbox_alike handles)
  | thread h => exact thread_keeps h hF

theorem loose_keeps {F : Footprint (Client L)} {s t : State L} {a : Action L}
    (h : LooseStep s a t) (hF : Guards F s a) : F.rel s.client t.client := by
  cases h with
  | spurious waits asleep => exact F.refl _
  | fine h =>
    cases h with
    | thread h => exact thread_keeps h hF
    | compare idle decodes hit => exact F.refl _
    | store pending notify => exact hF.alike _ _ ⟨rfl, rfl, rfl⟩
    | invoke idle decodes miss dispatches => exact hF.alike _ _ (dispatch_alike dispatches)
    | skipped idle decodes miss dispatches => exact hF.alike _ _ (dispatch_alike dispatches)

theorem send_silent {id : Bytes} {message : Message} (mlm : Mlm) (address requestQueue : Bytes)
    (receiveTimeOut : Int) (h : message.correlationId ≠ some id) :
    Keeps (silent id)
      (requestSend mlm address requestQueue message receiveTimeOut : Op L Unit) := by
  intro c
  rw [requestSend_eq]
  refine ⟨rfl, _, rfl, ?_⟩
  intro call hcall content hcontent
  cases List.mem_singleton.mp hcall
  cases hcontent
  rw [← Bool.not_eq_true]
  intro hc
  have hid := carries_toZmsg hc
  rw [requestMessage_correlationId] at hid
  exact h hid

theorem silent_guards {id : Bytes} {s : State L} {a : Action L} (hs : Spares id s a) :
    Guards (silent id) s a where
  alike c c' he := silent_same he.1 he.2.2
  api mlm call he c := by
    subst he
    exact sends_silent (api_sends mlm call c) hs
  send i mlm requestQueue message receiveTimeOut address he armed := by
    subst he
    refine send_silent mlm address requestQueue receiveTimeOut ?_
    rw [Spares, armed] at hs
    exact hs

theorem step_silent {id : Bytes} {s t : State L} {a : Action L} (h : Step s a t)
    (hs : Spares id s a) : (silent id).rel s.client t.client :=
  step_keeps h (silent_guards hs)

theorem step_holds {queue : Bytes} {listener : L} {s t : State L} {a : Action L}
    (h : Step s a t) (hs : ∀ mlm, a ≠ .api mlm (.unsubscribe queue)) :
    (holds queue listener).rel s.client t.client := by
  refine step_keeps h ⟨fun c c' he hc => he.2.1 ▸ hc, ?_, fun _ _ _ _ _ _ _ _ _ h => h⟩
  intro mlm call he
  subst he
  exact api_holds mlm fun he => hs mlm (he ▸ rfl)

theorem loose_holds {queue : Bytes} {listener : L} {s t : State L} {a : Action L}
    (h : LooseStep s a t) (ha : ∀ mlm, a ≠ .api mlm (.unsubscribe queue))
    (hs : s.client.bus.subscriptions.find queue = some listener) :
    t.client.bus.subscriptions.find queue = some listener := by
  refine loose_keeps (F := holds queue listener) h ⟨?_, ?_, ?_⟩ hs
  · exact fun c c' he hc => he.2.1 ▸ hc
  · exact fun mlm call he => api_holds mlm fun hu => ha mlm (hu ▸ he)
  · exact fun _ _ _ _ _ _ _ _ _ h => h

/-- The invocations with the id. -/
def invokedWith (id : Bytes) (s : State L) : List (L × Message) :=
  s.invocations.filter (fun call => call.2.correlationId = some id)

/-- What a step invokes was in the message that it handles. -/
theorem step_invocations {s t : State L} {a : Action L} (h : Step s a t) :
    t.invocations = s.invocations ∨ ∃ subject content listener message,
      (a = .mailbox subject content ∨ a = .stream subject content) ∧
      fromZmsg content = .ok message ∧ s.client.bus.subscriptions.find subject = some listener ∧
      t.invocations = s.invocations ++ [(listener, message)] := by
  cases h with
  | response handles notify => exact Or.inl rfl
  | skipped handles => exact Or.inl rfl
  | @invoke subject content client listener message handles =>
    obtain ⟨decoded, hd⟩ := mailbox_decodes (.invoke handles)
    rw [listenerHandleMailbox_eq subject s.client hd, dispatchMailbox_eq] at handles
    split at handles
    · cases handles
    · split at handles
      · rename_i hf
        cases handles
        exact Or.inr ⟨subject, content, listener, message, Or.inl rfl, hd, hf, rfl⟩
      · cases handles
  | thread h =>
    cases h with
    | @call i requestQueue message receiveTimeOut fresh =>
      refine Or.inl ?_
      unfold State.call
      cases requestArm message s.client with
      | ok address client => rfl
      | error fault client => rfl
    | @stream subject content client listener message idle handles =>
      cases hd : fromZmsg content with
      | error fault =>
        rw [(handlers_fault subject s.client hd).2] at handles
        cases handles
      | ok decoded =>
        rw [listenerHandleStream_eq subject s.client hd] at handles
        split at handles
        · rename_i hf
          cases handles
          exact Or.inr ⟨subject, content, listener, message, Or.inr rfl, hd, hf, rfl⟩
        · cases handles
    | _ => exact Or.inl rfl

theorem own_thread {s t : State L} {a : Action L}
    (own : ∀ subject content, a ≠ .mailbox subject content) (h : Step s a t) :
    ThreadStep s a t := by
  cases h with
  | thread h => exact h
  | response | invoke | skipped => exact absurd rfl (own _ _)

/-- Only messages invoke listeners. -/
theorem act_script {s t : State L} {a : Action L} {script : Script L}
    (own : ∀ subject content, a ≠ .mailbox subject content)
    (hno : ∀ subject content, a ≠ .stream subject content) (hstep : Step s a t)
    (hsilent : t.invocations = s.invocations → script = []) : script = [] := by
  rcases step_invocations hstep with he | ⟨subject, content, _, _, rfl | rfl, _⟩
  · exact hsilent he
  · exact absurd rfl (own _ _)
  · exact absurd rfl (hno _ _)

theorem step_invokedWith {id : Bytes} {s t : State L} {a : Action L} (h : Step s a t)
    (hs : ∀ subject content, a = .mailbox subject content ∨ a = .stream subject content →
      carries id content = false) :
    invokedWith id t = invokedWith id s := by
  rcases step_invocations h with he | ⟨subject, content, listener, message, ha, hd, _, he⟩
  · rw [invokedWith, he, invokedWith]
  · have hid : ¬ message.correlationId = some id := by
      rw [← carries_iff hd, hs subject content ha]
      exact Bool.false_ne_true
    rw [invokedWith, he, List.filter_append, List.filter_singleton]
    simp [hid, invokedWith]

/-- The calls of a callback leave the protocol alone and invoke nobody, and keep
what each of them keeps. -/
theorem script_keeps {F : Footprint (Client L)} {s t : State L} {script : Script L}
    (h : Run Step s script.actions t) (hapi : ∀ call ∈ script, Keeps F (call.2.run call.1)) :
    sync t = sync s ∧ t.invocations = s.invocations ∧ F.rel s.client t.client := by
  induction script generalizing s with
  | nil =>
    cases h
    exact ⟨rfl, rfl, F.refl _⟩
  | cons call script ih =>
    cases h with
    | @cons _ u _ _ _ head tail =>
      obtain ⟨hsync, hinv, hkeeps⟩ := ih tail (fun c hc => hapi c (List.mem_cons_of_mem call hc))
      cases head with
      | thread head =>
        cases head with
        | api defined =>
          have hfirst := hapi call List.mem_cons_self s.client
          exact ⟨hsync.trans (api_sync s call.1 call.2), hinv, F.trans _ _ _ hfirst hkeeps⟩

theorem name_guards (s : State L) (a : Action L) :
    Guards (.same fun c => c.bus.clientName) s a where
  alike _ _ he := he.1
  api mlm call _ c := (api_sends mlm call c).1
  send _ _ _ _ _ _ _ _ _ := rfl

theorem step_name {s t : State L} {a : Action L} (h : Step s a t) :
    t.client.bus.clientName = s.client.bus.clientName :=
  step_keeps h (name_guards s a)

theorem loose_name {s t : State L} {a : Action L} (h : LooseStep s a t) :
    t.client.bus.clientName = s.client.bus.clientName :=
  loose_keeps h (name_guards s a)

theorem script_name {s t : State L} {script : Script L} (h : Run Step s script.actions t) :
    t.client.bus.clientName = s.client.bus.clientName :=
  (script_keeps (F := .same fun c => c.bus.clientName) h
    fun call _ c => (api_sends call.1 call.2 c).1).2.2

theorem script_holds {queue : Bytes} {listener : L} {s t : State L} {script : Script L}
    (h : Run Step s script.actions t) (hun : ∀ call ∈ script, call.2 ≠ .unsubscribe queue) :
    (holds queue listener).rel s.client t.client :=
  (script_keeps h fun call hc => api_holds call.1 (hun call hc)).2.2

/-- Only a request that is made brings an id with it, and none is lost. -/
theorem turn_uuid {rule : Rule} {v v' : Sync} (h : Turn rule v v') (j : ℕ) :
    (v'.calls j).uuid = (v.calls j).uuid ∨ (v.calls j).uuid = none ∧
      ∃ message, rule v j message ∧ (v'.calls j).uuid = message.correlationId := by
  have hsame : ∀ i call call', v.calls i = call → Call.uuid call' = call.uuid →
      (Function.update v.calls i call' j).uuid = (v.calls j).uuid := by
    intro i call call' hi hc
    rcases eq_or_ne j i with rfl | hne
    · rw [Function.update_self, hi, hc]
    · rw [Function.update_of_ne hne]
  have hnew : ∀ i call message, v.calls i = .notMade → rule v i message →
      Call.uuid call = message.correlationId →
      (Function.update v.calls i call j).uuid = (v.calls j).uuid ∨ (v.calls j).uuid = none ∧
        ∃ message, rule v j message ∧
          (Function.update v.calls i call j).uuid = message.correlationId := by
    intro i call message fresh ok hc
    rcases eq_or_ne j i with rfl | hne
    · refine Or.inr ⟨congrArg Call.uuid fresh, message, ok, ?_⟩
      rw [Function.update_self, hc]
    · rw [Function.update_of_ne hne]
      exact Or.inl rfl
  cases h with
  | other => exact Or.inl rfl
  | refuse fresh ok => exact hnew _ _ _ fresh ok rfl
  | reject fresh ok id named => exact hnew _ _ _ fresh ok rfl
  | arm fresh ok id named => exact hnew _ _ _ fresh ok rfl
  | send armed => exact Or.inl (hsame _ _ _ armed rfl)
  | ret waits notified => exact Or.inl (hsame _ _ _ waits rfl)
  | timeOut waits => exact Or.inl (hsame _ _ _ waits rfl)

/-- The calls that are meant keep clear of the id as long as no request made with
it is one of them. -/
theorem others_turn {id : Bytes} {P : ℕ → Prop} {v v' : Sync}
    (hv : ∀ j, P j → (v.calls j).uuid ≠ some id)
    (h : HandlerTurn (fun _ j message => P j → message.correlationId ≠ some id) v v') :
    ∀ j, P j → (v'.calls j).uuid ≠ some id := by
  intro j hj
  cases h with
  | response named hit notify => exact hv j hj
  | thread turn =>
    rcases turn_uuid turn j with he | ⟨_, message, hm, he⟩
    · rw [he]
      exact hv j hj
    · rw [he]
      exact hm hj

/-- An id that no request is made with is never waited for. -/
theorem foreign_turn {id : Bytes} {v v' : Sync} (hid : id ≠ []) (hv : v.uuid ≠ id)
    (h : HandlerTurn (fun _ _ message => message.correlationId ≠ some id) v v') : v'.uuid ≠ id := by
  cases h with
  | response named hit notify => exact hid.symm
  | thread turn =>
    cases turn with
    | reject fresh ok id named =>
      intro he
      exact ok (id.trans (congrArg some he))
    | arm fresh ok id named =>
      intro he
      exact ok (id.trans (congrArg some he))
    | _ => exact hv

/-- A request is made by calling for it. -/
theorem made_by_call {s t : State L} {a : Action L} {i : ℕ} (h : ThreadStep s a t)
    (hs : s.calls i = .notMade) (ht : t.calls i ≠ .notMade) :
    ∃ requestQueue message receiveTimeOut, a = .call i requestQueue message receiveTimeOut := by
  have hupdate : ∀ j call, i ≠ j → t.calls = Function.update s.calls j call → False := by
    intro j call hne he
    rw [he, Function.update_of_ne hne] at ht
    exact ht hs
  cases h with
  | @call j requestQueue message receiveTimeOut fresh =>
    rcases eq_or_ne i j with rfl | hne
    · exact ⟨_, _, _, rfl⟩
    · obtain ⟨uuid, call, he⟩ := call_sync s j requestQueue message receiveTimeOut
      exact (hupdate j call hne (congrArg Sync.calls he)).elim
  | @send j mlm requestQueue message receiveTimeOut address armed =>
    have hne : i ≠ j := fun he => by
      rw [← he, hs] at armed
      cases armed
    exact (hupdate j _ hne rfl).elim
  | @ret j message waits notified =>
    have hne : i ≠ j := fun he => by
      rw [← he, hs] at waits
      cases waits
    exact (hupdate j _ hne rfl).elim
  | @timeOut j message waits =>
    have hne : i ≠ j := fun he => by
      rw [← he, hs] at waits
      cases waits
    exact (hupdate j _ hne rfl).elim
  | _ => exact absurd hs ht

/-- A reply with its fields is handed over to the address in it. -/
theorem sendReply_calls (mlm : Mlm) (replyQueue : Bytes) {message : Message} {id address : Bytes}
    (c : Client L) (hid : message.correlationId = some id) (hne : id ≠ [])
    (hto : message.metaData.find Message.TO = some address) :
    (final (sendReply mlm replyQueue message c)).calls =
      c.calls ++ [.sendto (cStr address) (cStr replyQueue) (toZmsg message) mlm.send] := by
  obtain ⟨log, he⟩ := sendReply_eq mlm replyQueue message c
  have hm : missing (some id) = false := by simp [missing, hne]
  rw [he, hid, hm, hto]
  rfl

/-- The same of a callback that does nothing but reply. -/
theorem reply_calls {s t : State L} {mlm : Mlm} {replyQueue : Bytes} {message : Message}
    {id address : Bytes} (hid : message.correlationId = some id) (hne : id ≠ [])
    (hto : message.metaData.find Message.TO = some address)
    (h : Run Step s (Script.actions [(mlm, .sendReply replyQueue message)]) t) :
    t.client.calls = s.client.calls ++
      [.sendto (cStr address) (cStr replyQueue) (toZmsg message) mlm.send] := by
  cases h with
  | cons head tail =>
    cases tail
    cases own_thread (by simp) head with
    | api defined => exact sendReply_calls mlm replyQueue _ hid hne hto

end Messagebus.Proofs.Nodes
