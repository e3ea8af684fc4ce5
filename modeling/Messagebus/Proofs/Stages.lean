import Messagebus.Exchange
import Messagebus.Proofs.Nodes

namespace Messagebus.Proofs.Stages
open CondVar Frame Proofs.Calls Proofs.Requests Proofs.Nodes

variable {ι L : Type} {names : ι → Bytes} (e : Exchange ι L names)

/-- What a call of `request` with all its fields can throw. -/
def Failed (fault : Fault) : Prop :=
  fault = .thrown "Request timed out." ∨
    (names e.replier = [] ∧ fault = .thrown "Request must have a to field.")

/-- What has become of the call once its message was handed over. -/
def Outcome (call : Call) : Prop :=
  call = .waiting e.request ∨ call = .returned e.request e.response ∨
    ∃ fault, call = .threw e.request fault ∧ Failed e fault

def requestMail : Mail := ⟨names e.replier, e.queue, toZmsg e.sent⟩

def responseMail (subject : Bytes) : Mail := ⟨names e.asker, subject, toZmsg e.response⟩

/-- How far the exchange has got: the call, the mail with the id and the
invocations with the id at the replier. -/
inductive Stage : Call → List Mail → List (L × Message) → Prop where
  | notMade : Stage .notMade [] []
  | armed : Stage (.armed e.queue e.request e.receiveTimeOut (names e.replier)) [] []
  | asked {call : Call} (outcome : Outcome e call) : Stage call [requestMail e] []
  | lost {call : Call} (outcome : Outcome e call) : Stage call [] []
  | answered {call : Call} {subject : Bytes} (outcome : Outcome e call) :
      Stage call [responseMail e subject] [(e.listener, e.sent)]
  | ended {call : Call} (outcome : Outcome e call) : Stage call [] [(e.listener, e.sent)]

/-- The shared members of the asker while the request is under way. -/
structure Asking (v : Sync) : Prop where
  inWait : ∀ i ∈ v.waitSet, (v.calls i).underway = true
  alone : (v.calls e.call).underway = true → ∀ i, (v.calls i).underway = true → i = e.call
  pending : (v.calls e.call).underway = true →
    (∀ message, v.calls e.call = .waiting message → e.call ∈ v.waitSet) → v.uuid = e.id
  woken : ∀ message, v.calls e.call = .waiting message → e.call ∉ v.waitSet →
    v.uuid = [] ∧ v.response = e.response

section Asker

variable {e} {v : Sync}

/-- While the request is not under way there is little to keep. -/
theorem asking_idle (hw : ∀ i ∈ v.waitSet, (v.calls i).underway = true)
    (hk : (v.calls e.call).underway = false) : Asking e v := by
  refine ⟨hw, ?_, ?_, ?_⟩
  · intro h
    rw [hk] at h
    cases h
  · intro h
    rw [hk] at h
    cases h
  · intro message h
    rw [h] at hk
    cases hk

theorem Asking.idle (hv : Asking e v) {j : ℕ} (hne : e.call ≠ j)
    (hj : (v.calls j).underway = true) : (v.calls e.call).underway = false := by
  rw [← Bool.not_eq_true]
  exact fun hk => hne (hv.alone hk j hj).symm

theorem Asking.not_in_wait (hv : Asking e v) {j : ℕ} (hj : (v.calls j).underway = false) :
    j ∉ v.waitSet := by
  intro hm
  have hu := hv.inWait j hm
  rw [hj] at hu
  cases hu

theorem Asking.waits_alone (hv : Asking e v) (hk : (v.calls e.call).underway = true)
    (hin : e.call ∈ v.waitSet) : v.waitSet = {e.call} := by
  apply Finset.eq_singleton_iff_unique_mem.mpr
  exact ⟨hin, fun i hi => hv.alone hk i (hv.inWait i hi)⟩

/-- Another call moves on, which it does only while the request is not under way. -/
theorem Asking.other (hv : Asking e v) {i : ℕ} {call : Call} {uuid : Bytes} {W : Finset ℕ}
    (hne : e.call ≠ i) (hk : (v.calls e.call).underway = false)
    (hW : ∀ j ∈ W, (j ∈ v.waitSet ∧ j ≠ i) ∨ (j = i ∧ call.underway = true)) :
    Asking e { v with uuid := uuid, calls := Function.update v.calls i call, waitSet := W } := by
  apply asking_idle
  · intro j hj
    change (Function.update v.calls i call j).underway = true
    rcases hW j hj with ⟨hm, hji⟩ | ⟨rfl, hc⟩
    · rw [Function.update_of_ne hji]
      exact hv.inWait j hm
    · rw [Function.update_self]
      exact hc
  · change (Function.update v.calls i call e.call).underway = false
    rw [Function.update_of_ne hne]
    exact hk

/-- The request leaves the wait. -/
theorem Asking.leave (hv : Asking e v) {call : Call} (hc : call.underway = false) :
    Asking e { v with
      calls := Function.update v.calls e.call call, waitSet := v.waitSet.erase e.call } := by
  apply asking_idle
  · intro j hj
    obtain ⟨hne, hm⟩ := Finset.mem_erase.mp hj
    change (Function.update v.calls e.call call j).underway = true
    rw [Function.update_of_ne hne]
    exact hv.inWait j hm
  · change (Function.update v.calls e.call call e.call).underway = false
    rw [Function.update_self]
    exact hc

/-- The request goes on with its id in place. -/
theorem asking_proceed (v : Sync) (call : Call) {W : Finset ℕ}
    (halone : ∀ i, (v.calls i).underway = true → i = e.call) (hc : call.underway = true)
    (hW : ∀ i ∈ W, i = e.call) (hwait : ∀ message, call = .waiting message → e.call ∈ W) :
    Asking e { v with
      uuid := e.id, calls := Function.update v.calls e.call call, waitSet := W } := by
  refine ⟨?_, ?_, fun _ _ => rfl, ?_⟩
  · intro i hi
    cases hW i hi
    change (Function.update v.calls e.call call e.call).underway = true
    rw [Function.update_self]
    exact hc
  · intro _ i hi
    rcases eq_or_ne i e.call with rfl | hne
    · rfl
    · change (Function.update v.calls e.call call i).underway = true at hi
      rw [Function.update_of_ne hne] at hi
      exact halone i hi
  · intro message hm hout
    change Function.update v.calls e.call call e.call = .waiting message at hm
    rw [Function.update_self] at hm
    exact absurd (hwait message hm) hout

/-- A response with another id is none of the request's business, and its own is
the one that it returns. -/
theorem Asking.respond (hv : Asking e v) {message : Message} {W : Finset ℕ} (named : v.uuid ≠ [])
    (hit : message.correlationId = some v.uuid) (notify : NotifyOne v.waitSet W)
    (hresponse : message.correlationId = some e.id → (v.calls e.call).underway = true →
      message = e.response ∧ ∃ request, v.calls e.call = .waiting request) :
    Asking e { v with response := message, uuid := [], waitSet := W } := by
  have hin : ∀ i ∈ W, (v.calls i).underway = true := fun i hi => hv.inWait i (notify.subset hi)
  cases hk : (v.calls e.call).underway with
  | false => exact asking_idle hin hk
  | true =>
    have hpend : ∀ request, v.calls e.call = .waiting request → e.call ∈ v.waitSet := by
      intro request hr
      by_contra hout
      exact named (hv.woken request hr hout).1
    obtain ⟨hm, request, hr⟩ := hresponse (hit.trans (congrArg some (hv.pending hk hpend))) hk
    -- Nobody else waits, so the notification is for the request.
    have hone := hv.waits_alone hk (hpend request hr)
    have hout : e.call ∉ W := by
      rw [(NotifyOne.sure_iff (hpend request hr)).mpr hone W notify]
      exact Finset.notMem_erase e.call v.waitSet
    refine ⟨hin, hv.alone, ?_, fun _ _ _ => ⟨rfl, hm⟩⟩
    intro _ hall
    exact absurd (hall request hr) hout

end Asker

section Stages

variable {e} {call : Call} {mail : List Mail} {invoked : List (L × Message)}

theorem Stage.fresh (h : Stage e .notMade mail invoked) : mail = [] ∧ invoked = [] := by
  cases h with
  | notMade => exact ⟨rfl, rfl⟩
  | asked outcome | lost outcome | answered outcome | ended outcome =>
    rcases outcome with h | h | ⟨fault, h, _⟩ <;> cases h

theorem Stage.ready {q address : Bytes} {m : Message} {t : Int}
    (h : Stage e (.armed q m t address) mail invoked) :
    (q = e.queue ∧ m = e.request ∧ t = e.receiveTimeOut ∧ address = names e.replier) ∧
      mail = [] ∧ invoked = [] := by
  cases h with
  | armed => exact ⟨⟨rfl, rfl, rfl, rfl⟩, rfl, rfl⟩
  | asked outcome | lost outcome | answered outcome | ended outcome =>
    rcases outcome with h | h | ⟨fault, h, _⟩ <;> cases h

theorem Stage.waits {m : Message} (h : Stage e (.waiting m) mail invoked) : m = e.request := by
  cases h with
  | asked outcome | lost outcome | answered outcome | ended outcome =>
    rcases outcome with h | h | ⟨fault, h, _⟩ <;> cases h
    rfl

theorem Stage.leave {m : Message} (h : Stage e (.waiting m) mail invoked)
    (outcome : Outcome e call) : Stage e call mail invoked := by
  cases h with
  | asked => exact .asked outcome
  | lost => exact .lost outcome
  | answered => exact .answered outcome
  | ended => exact .ended outcome

theorem Stage.returned {m r : Message} (h : Stage e (.returned m r) mail invoked) :
    m = e.request ∧ r = e.response := by
  cases h with
  | asked outcome | lost outcome | answered outcome | ended outcome =>
    rcases outcome with h | h | ⟨fault, h, _⟩ <;> cases h
    exact ⟨rfl, rfl⟩

theorem Stage.threw {m : Message} {fault : Fault} (h : Stage e (.threw m fault) mail invoked) :
    Failed e fault := by
  cases h with
  | asked outcome | lost outcome | answered outcome | ended outcome =>
    rcases outcome with h | h | ⟨fault', h, hf⟩ <;> cases h
    exact hf

theorem Stage.invoked_once (h : Stage e call mail invoked) :
    invoked <+: [(e.listener, e.sent)] := by
  cases h with
  | answered | ended => exact List.prefix_rfl
  | _ => exact List.nil_prefix

theorem Outcome.made {call : Call} (h : Outcome e call) : call ≠ .notMade := by
  intro he
  subst he
  rcases h with h | h | ⟨fault, h, _⟩ <;> cases h

end Stages

section Nodes

variable {e} {s t : State L} {mail : List Mail} {invoked : List (L × Message)}

/-- The request of the exchange gets past its checks, if its receiver has a name. -/
theorem asks_sync (e : Exchange ι L names) (s : State L) :
    ∃ call, sync (s.call e.call e.queue e.request e.receiveTimeOut) =
        { sync s with uuid := e.id, calls := Function.update s.calls e.call call } ∧
      (call = .armed e.queue e.request e.receiveTimeOut (names e.replier) ∨
        names e.replier = [] ∧
          call = .threw e.request (.thrown "Request must have a to field.")) := by
  unfold State.call
  rcases requestArm_cases e.request s.client with
    ⟨hm, _⟩ | ⟨uuid, hid, _, ⟨hm, he⟩ | ⟨address, hto, _, he⟩⟩
  · rw [e.correlated] at hm
    simp [missing, e.id_set] at hm
  · cases hid.symm.trans e.correlated
    rw [he]
    have hto : names e.replier = [] := by simpa [e.addressed, missing] using hm
    exact ⟨_, rfl, Or.inr ⟨hto, rfl⟩⟩
  · cases hid.symm.trans e.correlated
    cases hto.symm.trans e.addressed
    rw [he]
    exact ⟨_, rfl, Or.inl rfl⟩

theorem asks_asking (hv : Asking e (sync s)) (hs : Stage e (s.calls e.call) mail invoked)
    (fresh : s.calls e.call = .notMade) (halone : ∀ j, (s.calls j).underway = false) :
    Asking e (sync (s.call e.call e.queue e.request e.receiveTimeOut)) ∧
      Stage e ((sync (s.call e.call e.queue e.request e.receiveTimeOut)).calls e.call)
        mail invoked := by
  rw [fresh] at hs
  obtain ⟨rfl, rfl⟩ := hs.fresh
  have hempty : ∀ i, i ∉ s.waitSet := fun i => hv.not_in_wait (halone i)
  obtain ⟨call, he, hcall⟩ := asks_sync e s
  rw [he]
  simp only [Function.update_self]
  rcases hcall with rfl | ⟨hto, rfl⟩
  · refine ⟨asking_proceed (sync s) _ ?_ rfl (fun i hi => absurd hi (hempty i)) nofun, .armed⟩
    intro i hi
    have hf : (s.calls i).underway = true := hi
    rw [halone i] at hf
    cases hf
  · refine ⟨asking_idle (fun i hi => absurd hi (hempty i)) ?_,
      .lost (Or.inr (Or.inr ⟨_, rfl, Or.inr ⟨hto, rfl⟩⟩))⟩
    simp only [Function.update_self]
    rfl

/-- A call comes out of the wait; if it is the request, it has its outcome. -/
theorem leave_asking (hv : Asking e (sync s)) (hs : Stage e (s.calls e.call) mail invoked)
    {j : ℕ} {m : Message} {call : Call} (waits : s.calls j = .waiting m)
    (hc : call.underway = false) (hown : e.call = j → Outcome e call) :
    Asking e { sync s with
        calls := Function.update s.calls j call, waitSet := s.waitSet.erase j } ∧
      Stage e (Function.update s.calls j call e.call) mail invoked := by
  rcases eq_or_ne e.call j with rfl | hne
  · refine ⟨hv.leave hc, ?_⟩
    rw [Function.update_self]
    rw [waits] at hs
    exact hs.leave (hown rfl)
  · have hj : (s.calls j).underway = true := by
      rw [waits]
      rfl
    refine ⟨hv.other hne (hv.idle hne hj) fun i hi => Or.inl ?_, ?_⟩
    · obtain ⟨hij, hi⟩ := Finset.mem_erase.mp hi
      exact ⟨hi, hij⟩
    · rw [Function.update_of_ne hne]
      exact hs

/-- What the threads of the asker do, except that the request is sent. -/
theorem thread_asking {a : Action L} {script : Script L} {n : Net ι L} (hn : n.nodes e.asker = s)
    (hv : Asking e (sync s)) (hs : Stage e (s.calls e.call) mail invoked)
    (h : ThreadStep s a t) (hsend : ∀ mlm, a ≠ .send e.call mlm)
    (hallows : e.Allows n (.act e.asker a script)) :
    Asking e (sync t) ∧ Stage e ((sync t).calls e.call) mail invoked := by
  cases h with
  | @call j q m timeOut fresh =>
    have hout : j ∉ s.waitSet := hv.not_in_wait (by
      change (s.calls j).underway = false
      rw [fresh]
      rfl)
    rcases hallows with ⟨_, rfl, rfl, rfl, rfl, halone, _⟩ | ⟨hne, _, hk⟩
    · rw [hn] at halone
      exact asks_asking hv hs fresh halone
    · have hne : e.call ≠ j := fun he => hne ⟨rfl, he.symm⟩
      rw [hn] at hk
      obtain ⟨uuid, call, he⟩ := call_sync s j q m timeOut
      rw [he]
      refine ⟨hv.other hne (hk rfl) fun i hi => Or.inl ⟨hi, fun he => hout (he ▸ hi)⟩, ?_⟩
      simp only [Function.update_of_ne hne]
      exact hs
  | @send j mlm q m timeOut address armed =>
    have hne : e.call ≠ j := fun he => hsend mlm (he ▸ rfl)
    have hj : (s.calls j).underway = true := by
      rw [armed]
      rfl
    refine ⟨hv.other hne (hv.idle hne hj) fun i hi => ?_, ?_⟩
    · rcases eq_or_ne i j with rfl | hij
      · exact Or.inr ⟨rfl, rfl⟩
      · exact Or.inl ⟨Finset.mem_of_mem_insert_of_ne hi hij, hij⟩
    · change Stage e (Function.update s.calls j _ e.call) mail invoked
      rw [Function.update_of_ne hne]
      exact hs
  | @ret j m waits notified =>
    refine leave_asking hv hs waits rfl ?_
    intro he
    subst he
    have hr : s.client.bus.syncResponse = e.response := (hv.woken m waits notified).2
    rw [waits] at hs
    rw [hs.waits, hr]
    exact Or.inr (Or.inl rfl)
  | @timeOut j m waits =>
    refine leave_asking hv hs waits rfl ?_
    intro he
    subst he
    rw [waits] at hs
    rw [hs.waits]
    exact Or.inr (Or.inr ⟨_, rfl, Or.inl rfl⟩)
  | @api mlm call defined =>
    have he := api_sync s mlm call
    exact ⟨he ▸ hv, hs⟩
  | stream idle handles =>
    cases stream_sync handles
    exact ⟨hv, hs⟩
  | streamSkipped idle handles =>
    cases stream_sync handles
    exact ⟨hv, hs⟩

theorem mailbox_asking {subject : Bytes} {content : Zmsg} {message : Message}
    (hv : Asking e (sync s)) (hd : fromZmsg content = .ok message)
    (h : Step s (.mailbox subject content) t)
    (hresponse : message.correlationId = some e.id → (s.calls e.call).underway = true →
      message = e.response ∧ ∃ request, s.calls e.call = .waiting request) :
    Asking e (sync t) ∧ t.calls = s.calls := by
  cases hm : syncMatch s.client.bus message with
  | true =>
    obtain ⟨W, hW, rfl⟩ := (match_step hd hm).mp h
    obtain ⟨hne, hid⟩ := (syncMatch_iff _ _).mp hm
    exact ⟨hv.respond hne hid hW hresponse, rfl⟩
  | false =>
    have he := (miss_step subject hd hm).2 t h
    exact ⟨he ▸ hv, congrArg Sync.calls he⟩

end Nodes

section Messages

theorem sent_find {key : Bytes} (ht : key ≠ Message.TIMEOUT) (hr : key ≠ Message.REPLY_TO) :
    e.sent.metaData.find key = e.request.metaData.find key :=
  requestMessage_find _ _ _ ht hr

theorem asker_ne_replier : e.asker ≠ e.replier := fun he => e.different (congrArg names he)

theorem sent_decodes : fromZmsg (toZmsg e.sent) = .ok e.sent := by
  apply Codec.fromZmsg_toZmsg_exact
  rw [sent_find e (by decide) (by decide)]
  exact e.request_plain

theorem sent_id : e.sent.correlationId = some e.id :=
  (requestMessage_correlationId _ _ _).trans e.correlated

theorem requestMail_carries : carries e.id (requestMail e).content = true :=
  (carries_iff (sent_decodes e)).mpr (sent_id e)

theorem response_decodes : fromZmsg (toZmsg e.response) = .ok e.response :=
  Codec.fromZmsg_toZmsg_exact e.response_plain

variable {e}

/-- The mail with the id is the request before the listener has seen it, and the
response afterwards. -/
theorem Stage.mail {call : Call} {mail : List Mail} {invoked : List (L × Message)} {x : Mail}
    (h : Stage e call mail invoked) (hx : x ∈ mail) :
    Outcome e call ∧ mail = [x] ∧ ((x = requestMail e ∧ invoked = []) ∨
      ∃ subject, x = responseMail e subject ∧ invoked = [(e.listener, e.sent)]) := by
  cases h with
  | asked outcome =>
    cases List.mem_singleton.mp hx
    exact ⟨outcome, rfl, Or.inl ⟨rfl, rfl⟩⟩
  | answered outcome =>
    cases List.mem_singleton.mp hx
    exact ⟨outcome, rfl, Or.inr ⟨_, rfl, rfl⟩⟩
  | _ => cases hx

end Messages

end Messagebus.Proofs.Stages
