import Messagebus.Proofs.Correlation

namespace Messagebus.Proofs.Concurrent
open CondVar Frame Runs Proofs.Requests Proofs.Correlation

variable {L : Type}

/-- The listener takes no message for a response. -/
def NoMatch (s : State L) (a : Action L) : Prop :=
  ∀ subject content message, a = .mailbox subject content → fromZmsg content = .ok message →
    syncMatch s.client.bus message = false

/-- Whoever is picked for the notification, it is this call, and it is woken alone. -/
def WokenAlone (s : State L) (i : ℕ) (subject : Bytes) (content : Zmsg) : Prop :=
  ∀ t, Step s (.mailbox subject content) t → t.waitSet = s.waitSet.erase i

/-- The call can return the message, and returns nothing else. -/
def ReturnsOnly (ok : State L → Action L → Prop) (s : State L) (i : ℕ) (request response : Message) :
    Prop :=
  (∃ t, Step s (.leave i false) t ∧ t.calls i = .returned request response) ∧
    ∀ as t, Run (restrict ok Step) s as t → ∀ m r, t.calls i = .returned m r →
      m = request ∧ r = response

/-- Calls under way have an id. -/
def Named (v : Sync) : Prop :=
  ∀ i, (v.calls i).underway = true → (v.calls i).uuid ≠ some []

theorem Named.update {v : Sync} (hv : Named v) {i : ℕ} {call : Call} {uuid : Bytes}
    {response : Message} {W : Finset ℕ} {matched : Option Message}
    (hc : call.underway = true → call.uuid ≠ some []) :
    Named ⟨uuid, response, Function.update v.calls i call, W, matched⟩ := by
  apply (Function.forall_update_iff v.calls fun _ c => c.underway = true → c.uuid ≠ some []).mpr
  exact ⟨hc, fun j _ => hv j⟩

theorem Named.handler {v v' : Sync} (hv : Named v) (h : HandlerTurn Unused v v') : Named v' := by
  cases h with
  | response named hit notify => exact hv
  | thread turn =>
    cases turn with
    | other => exact hv
    | refuse | reject | ret | timeOut =>
      refine hv.update ?_
      intro hc
      cases hc
    | @arm i message uuid _ _ _ fresh ok id named =>
      refine hv.update ?_
      intro _ he
      rw [show message.correlationId = some [] from he] at id
      exact named (Option.some.inj id).symm
    | @send i message requestQueue address receiveTimeOut armed =>
      refine hv.update ?_
      intro _
      have hi := hv i
      rw [armed] at hi
      exact hi rfl

theorem reachable_named {s : State L} (h : Reachable Start (restrict Distinct Step) s) :
    Named (sync s) := by
  refine h.invariant (I := fun s => Named (sync s)) ?_ ?_
  · intro s hs
    rw [sync_new hs]
    intro i hi
    cases hi
  · intro s a t hv hs
    exact hv.handler (step_turn hs.2 (distinct_rule hs.1))

theorem WokenAlone.hit {s : State L} {i : ℕ} {subject : Bytes} {content : Zmsg}
    {message : Message} (h : WokenAlone s i subject content) (hw : i ∈ s.waitSet)
    (hd : fromZmsg content = .ok message) : syncMatch s.client.bus message = true := by
  by_contra hm
  rw [Bool.not_eq_true] at hm
  obtain ⟨⟨t, ht⟩, hsame⟩ := miss_step subject hd hm
  have he : s.waitSet.erase i = s.waitSet :=
    (h t ht).symm.trans (congrArg Sync.waitSet (hsame t ht))
  rw [← he] at hw
  exact Finset.notMem_erase i s.waitSet hw

/-- A message with the id of a waiting call is sure to wake that call alone
exactly if `m_syncUuid` has that id and nobody else waits. -/
theorem wokenAlone_iff {s : State L} {i : ℕ} {request message : Message} {content : Zmsg}
    (subject : Bytes) (hn : Named (sync s)) (hi : s.calls i = .waiting request)
    (hw : i ∈ s.waitSet) (hd : fromZmsg content = .ok message)
    (hid : message.correlationId = request.correlationId) :
    WokenAlone s i subject content ↔
      request.correlationId = some s.client.bus.syncUuid ∧ s.waitSet = {i} := by
  constructor
  · intro h
    have hm := h.hit hw hd
    refine ⟨hid ▸ ((syncMatch_iff _ _).mp hm).2, (NotifyOne.sure_iff hw).mp ?_⟩
    intro W hW
    exact h _ ((match_step hd hm).mpr ⟨W, hW, rfl⟩)
  · intro h t ht
    obtain ⟨huuid, hone⟩ := h
    have hne : s.client.bus.syncUuid ≠ [] := by
      intro hnil
      have hc : (s.calls i).uuid ≠ some [] := hn i (by
        change (s.calls i).underway = true
        rw [hi]
        rfl)
      rw [hi] at hc
      exact hc (huuid.trans (congrArg some hnil))
    have hm := (syncMatch_iff _ _).mpr ⟨hne, hid.trans huuid⟩
    obtain ⟨W, hW, rfl⟩ := (match_step hd hm).mp ht
    exact (NotifyOne.sure_iff hw).mpr hone W hW

/-- A woken call on its way out, with the response in place. -/
def Leaving (v : Sync) (i : ℕ) (request response : Message) : Prop :=
  (v.calls i = .waiting request ∧ i ∉ v.waitSet ∧ v.response = response) ∨
    v.calls i = .returned request response ∨ ∃ fault, v.calls i = .threw request fault

theorem Leaving.made {v : Sync} {i : ℕ} {request response : Message}
    (h : Leaving v i request response) : v.calls i ≠ .notMade ∧
      ∀ q m timeOut address, v.calls i ≠ .armed q m timeOut address := by
  rcases h with ⟨h, _⟩ | h | ⟨fault, h⟩ <;> rw [h] <;> exact ⟨nofun, nofun⟩

theorem Leaving.waits {v : Sync} {i : ℕ} {request response message : Message}
    (h : Leaving v i request response) (hw : v.calls i = .waiting message) :
    message = request ∧ v.response = response := by
  rcases h with ⟨h, _, hr⟩ | h | ⟨fault, h⟩
  · rw [h] at hw
    cases hw
    exact ⟨rfl, hr⟩
  · rw [h] at hw
    cases hw
  · rw [h] at hw
    cases hw

theorem Leaving.returned {v : Sync} {i : ℕ} {request response m r : Message}
    (h : Leaving v i request response) (hr : v.calls i = .returned m r) :
    m = request ∧ r = response := by
  rcases h with ⟨h, _⟩ | h | ⟨fault, h⟩
  · rw [h] at hr
    cases hr
  · rw [h] at hr
    cases hr
    exact ⟨rfl, rfl⟩
  · rw [h] at hr
    cases hr

/-- The other calls do not disturb it. -/
theorem Leaving.other {v : Sync} {i j : ℕ} {request response : Message} {call : Call}
    {uuid : Bytes} {W : Finset ℕ} (h : Leaving v i request response) (hne : i ≠ j)
    (hW : i ∈ W → i ∈ v.waitSet) :
    Leaving { v with uuid := uuid, calls := Function.update v.calls j call, waitSet := W }
      i request response := by
  unfold Leaving
  simp only [Function.update_of_ne hne]
  rcases h with ⟨hi, hw, hr⟩ | h
  · exact Or.inl ⟨hi, fun hm => hw (hW hm), hr⟩
  · exact Or.inr h

theorem Leaving.turn {v v' : Sync} {rule : Rule} {i : ℕ} {request response : Message}
    (h : Leaving v i request response) (ht : Turn rule v v') : Leaving v' i request response := by
  obtain ⟨hfresh, harmed⟩ := h.made
  cases ht with
  | other => exact h
  | @refuse j message fault fresh ok =>
    have hne : i ≠ j := fun he => hfresh (he ▸ fresh)
    exact h.other hne (fun hm => hm)
  | @reject j message fault uuid fresh ok id named =>
    have hne : i ≠ j := fun he => hfresh (he ▸ fresh)
    exact h.other hne (fun hm => hm)
  | @arm j message uuid requestQueue address receiveTimeOut fresh ok id named =>
    have hne : i ≠ j := fun he => hfresh (he ▸ fresh)
    exact h.other hne (fun hm => hm)
  | @send j message requestQueue address receiveTimeOut armed =>
    have hne : i ≠ j := fun he => harmed _ _ _ _ (he ▸ armed)
    exact h.other hne (fun hm => Finset.mem_of_mem_insert_of_ne hm hne)
  | @ret j message waits notified =>
    rcases eq_or_ne i j with rfl | hne
    · obtain ⟨rfl, hr⟩ := h.waits waits
      refine Or.inr (Or.inl ?_)
      rw [← hr]
      exact Function.update_self i _ _
    · exact h.other hne Finset.mem_of_mem_erase
  | @timeOut j message fault waits =>
    rcases eq_or_ne i j with rfl | hne
    · obtain ⟨rfl, _⟩ := h.waits waits
      exact Or.inr (Or.inr ⟨fault, Function.update_self i _ _⟩)
    · exact h.other hne Finset.mem_of_mem_erase

theorem noMatch_turn {s t : State L} {a : Action L} (hn : NoMatch s a) (h : Step s a t) :
    Turn (fun _ _ _ => True) (sync s) (sync t) := by
  have hmailbox : ∀ subject content, a = .mailbox subject content →
      Turn (fun _ _ _ => True) (sync s) (sync t) := by
    intro subject content he
    subst he
    obtain ⟨message, hd⟩ := mailbox_decodes h
    rw [(miss_step subject hd (hn subject content message rfl hd)).2 t h]
    exact .other
  cases h with
  | thread h => exact thread_turn h (fun _ _ _ _ _ => trivial)
  | response | invoke | skipped => exact hmailbox _ _ rfl

/-- A response stored for a lone waiting call is what it returns, as long as no
other response is stored before it gets the mutex back. -/
theorem woken_returnsOnly {s t : State L} {i : ℕ} {request message : Message} {subject : Bytes}
    {content : Zmsg} (hi : s.calls i = .waiting request) (hd : fromZmsg content = .ok message)
    (hm : syncMatch s.client.bus message = true)
    (halone : WokenAlone s i subject content) (ht : Step s (.mailbox subject content) t) :
    ReturnsOnly NoMatch t i request message := by
  have hW := halone t ht
  obtain ⟨W, _, rfl⟩ := (match_step hd hm).mp ht
  change W = s.waitSet.erase i at hW
  have hout : i ∉ W := hW ▸ Finset.notMem_erase i s.waitSet
  constructor
  · exact ⟨_, .thread (.ret hi hout), Function.update_self i _ _⟩
  · intro as u hr m r hu
    have hl : Leaving (sync u) i request message := by
      refine hr.invariant (I := fun s => Leaving (sync s) i request message)
        (Or.inl ⟨hi, hout, rfl⟩) ?_
      intro s a t hs hst
      exact hs.turn (noMatch_turn hst.1 hst.2)
    exact hl.returned hu

/-- With requests of any number of threads at once, a message with the id of a
waiting call is sure to wake that call, and no other, exactly while `m_syncUuid`
has its id and it waits alone; and then it is what the call returns, as long as
no further response is stored before the call gets the mutex back. -/
theorem lone_request_answered {s : State L} {i : ℕ} {request message : Message} {content : Zmsg}
    (subject : Bytes) (h : Reachable Start (restrict Distinct Step) s)
    (hi : s.calls i = .waiting request) (hw : i ∈ s.waitSet)
    (hd : fromZmsg content = .ok message)
    (hid : message.correlationId = request.correlationId) :
    (WokenAlone s i subject content ↔
        request.correlationId = some s.client.bus.syncUuid ∧ s.waitSet = {i}) ∧
      (WokenAlone s i subject content → ∀ t, Step s (.mailbox subject content) t →
        ReturnsOnly NoMatch t i request message) := by
  have hiff := wokenAlone_iff subject (reachable_named h) hi hw hd hid
  refine ⟨hiff, ?_⟩
  intro halone t ht
  exact woken_returnsOnly hi hd (halone.hit hw hd) halone ht

/-- A bus on which one request waits. -/
def oneWaits : State Unit :=
  ((State.new (lit "bus")).call 0 (lit "queue") (ask (lit "a")) 1).send accepting 0 (lit "queue")
    (ask (lit "a")) 1 (lit "peer")

theorem oneWaits_run : Run (restrict Distinct Step) (State.new (lit "bus"))
    [.call 0 (lit "queue") (ask (lit "a")) 1, .send 0 accepting] oneWaits := by
  refine .cons ⟨fun _ _ _ => nofun, .thread (.call rfl)⟩ ?_
  exact .cons ⟨trivial, .thread (.send rfl)⟩ (.nil _)

theorem only_request_answered :
    ∃ s : State Unit, WokenAlone s 0 (lit "queue") (toZmsg (answer (lit "a"))) ∧
      ∀ t, Step s (.mailbox (lit "queue") (toZmsg (answer (lit "a")))) t →
        ReturnsOnly NoMatch t 0 (ask (lit "a")) (answer (lit "a")) := by
  have hwait : oneWaits.calls 0 = .waiting (ask (lit "a")) := rfl
  have hdec : fromZmsg (toZmsg (answer (lit "a"))) = .ok (answer (lit "a")) := rfl
  obtain ⟨hiff, hret⟩ := lone_request_answered (lit "queue") ⟨_, _, ⟨_, rfl⟩, oneWaits_run⟩
    hwait (by decide) hdec rfl
  have halone := hiff.mpr ⟨rfl, by decide⟩
  exact ⟨oneWaits, halone, hret halone⟩

/-- Of two requests that wait, the first has had its id overwritten: its response,
which comes for the first time, does not wake it. -/
theorem overwritten_request_sleeps :
    ¬ ∀ (clientName : Bytes) (as : List (Action Unit)) (s : State Unit) (i : ℕ)
      (request message : Message) (subject : Bytes) (content : Zmsg),
      Run (restrict Distinct Step) (State.new clientName) as s →
      s.calls i = .waiting request → i ∈ s.waitSet → fromZmsg content = .ok message →
      message.correlationId = request.correlationId →
      (∀ q z m, .mailbox q z ∈ as → fromZmsg z = .ok m →
        m.correlationId ≠ message.correlationId) →
      WokenAlone s i subject content ∧ ∀ t, Step s (.mailbox subject content) t →
        ReturnsOnly Distinct t i request message := by
  intro h
  let queue := lit "queue"
  let s₁ := oneWaits.call 1 queue (ask (lit "b")) 1
  let s₂ := s₁.send accepting 1 queue (ask (lit "b")) 1 (lit "peer")
  have hnext : Run (restrict Distinct Step) oneWaits
      [.call 1 queue (ask (lit "b")) 1, .send 1 accepting] s₂ := by
    refine .cons (t := s₁) ⟨?_, .thread (.call rfl)⟩ ?_
    · rintro (_ | j) _ _
      · decide
      · nofun
    exact .cons (t := s₂) ⟨trivial, .thread (.send rfl)⟩ (.nil _)
  have hw := (h (lit "bus") _ s₂ 0 (ask (lit "a")) (answer (lit "a")) queue
    (toZmsg (answer (lit "a"))) (oneWaits_run.append hnext) rfl (by decide) rfl rfl (by simp)).1
  have hm : syncMatch s₂.client.bus (answer (lit "a")) = true := hw.hit (by decide) rfl
  revert hm
  decide

/-- Woken alone is not enough: the response to a request that is made before the
first one has the mutex back is what the first one returns. -/
theorem later_response_returned :
    ∃ s t : State Unit, Reachable Start (restrict Distinct Step) s ∧
      WokenAlone s 0 (lit "queue") (toZmsg (answer (lit "a"))) ∧
      Step s (.mailbox (lit "queue") (toZmsg (answer (lit "a")))) t ∧
      ¬ ReturnsOnly Distinct t 0 (ask (lit "a")) (answer (lit "a")) := by
  let queue := lit "queue"
  let s₁ : State Unit :=
    { oneWaits with
      client := final (storeResponse (answer (lit "a")) oneWaits.client)
      waitSet := oneWaits.waitSet.erase 0 }
  let s₂ := s₁.call 1 queue (ask (lit "b")) 1
  let s₃ := s₂.send accepting 1 queue (ask (lit "b")) 1 (lit "peer")
  let s₄ : State Unit :=
    { s₃ with
      client := final (storeResponse (answer (lit "b")) s₃.client), waitSet := s₃.waitSet.erase 1 }
  let s₅ := s₄.leave 0 (ask (lit "a")) false
  have hrun : Run (restrict Distinct Step) s₁
      [.call 1 queue (ask (lit "b")) 1, .send 1 accepting,
        .mailbox queue (toZmsg (answer (lit "b"))), .leave 0 false] s₅ := by
    refine .cons (t := s₂) ⟨?_, .thread (.call rfl)⟩ ?_
    · rintro (_ | j) _ _
      · decide
      · nofun
    refine .cons (t := s₃) ⟨trivial, .thread (.send rfl)⟩ ?_
    refine .cons (t := s₄) ⟨trivial, .response rfl (Or.inr ⟨1, by decide, rfl⟩)⟩ ?_
    exact .cons (t := s₅) ⟨trivial, .thread (.ret rfl (by decide))⟩ (.nil _)
  have hstep : Step oneWaits (.mailbox queue (toZmsg (answer (lit "a")))) s₁ :=
    .response rfl (Or.inr ⟨0, by decide, rfl⟩)
  have halone : WokenAlone oneWaits 0 queue (toZmsg (answer (lit "a"))) := by
    have hd : fromZmsg (toZmsg (answer (lit "a"))) = .ok (answer (lit "a")) := rfl
    intro t ht
    obtain ⟨W, hW, rfl⟩ := (match_step hd rfl).mp ht
    exact (NotifyOne.sure_iff (by decide)).mpr (by decide) W hW
  refine ⟨oneWaits, s₁, ⟨_, _, ⟨_, rfl⟩, oneWaits_run⟩, halone, hstep, ?_⟩
  intro h
  have hr := (h.2 _ s₅ hrun (ask (lit "a")) (answer (lit "b")) rfl).2
  revert hr
  decide

end Messagebus.Proofs.Concurrent
