import Messagebus.Proofs.Requests

namespace Messagebus.Proofs.Correlation
open CondVar Frame Runs Proofs.Requests

variable {L : Type}

/-- Every response that was returned answers its request. -/
def Answered (s : State L) : Prop :=
  ∀ i message response, s.calls i = .returned message response →
    response.correlationId = message.correlationId

/-- When the listener stores a message while a request waits, `m_syncUuid` is
still the id that it found the message to have. -/
def Unchanged (s : State L) (a : Action L) : Prop :=
  a = .store → s.waitSet.Nonempty →
    s.matched.bind Message.correlationId = some s.client.bus.syncUuid

structure Correlated (v : Sync) : Prop where
  one : ∀ i j, (v.calls i).underway = true → (v.calls j).underway = true → i = j
  inWait : ∀ i ∈ v.waitSet, ∃ message, v.calls i = .waiting message
  owned : ∀ i, (v.calls i).underway = true → (v.calls i).uuid = some v.uuid ∨ v.uuid = []
  woken : ∀ i message, v.calls i = .waiting message → i ∉ v.waitSet →
    v.uuid = [] ∧ v.matched = none ∧ v.response.correlationId = message.correlationId
  named : ∀ message, v.matched = some message →
    v.uuid ≠ [] ∧ message.correlationId ≠ some []
  answered : ∀ i message response, v.calls i = .returned message response →
    response.correlationId = message.correlationId

theorem new_correlated : Correlated .new where
  one i j hi := by cases hi
  inWait i hi := absurd hi (Finset.notMem_empty i)
  owned i hi := by cases hi
  woken i message hi := by cases hi
  named message hm := by cases hm
  answered i message response hi := by cases hi

variable {v : Sync}

theorem Correlated.waits (hv : Correlated v) {i : ℕ} (hi : i ∈ v.waitSet) :
    (v.calls i).underway = true := by
  obtain ⟨message, hm⟩ := hv.inWait i hi
  rw [hm]
  rfl

/-- A call comes to its end. The id changes only if no other call is under way. -/
theorem Correlated.settle (hv : Correlated v) (i : ℕ) {call : Call} (uuid : Bytes)
    (hc : call.underway = false)
    (hr : ∀ message response, call = .returned message response →
      response.correlationId = message.correlationId)
    (hu : uuid = v.uuid ∨ uuid ≠ [] ∧ ∀ j, (v.calls j).underway = false) :
    Correlated { v with
      uuid := uuid
      calls := Function.update v.calls i call
      waitSet := v.waitSet.erase i } := by
  have hother : ∀ j, (Function.update v.calls i call j).underway = true →
      j ≠ i ∧ (v.calls j).underway = true ∧ uuid = v.uuid := by
    intro j hj
    rcases eq_or_ne j i with rfl | hne
    · rw [Function.update_self, hc] at hj
      cases hj
    · rw [Function.update_of_ne hne] at hj
      rcases hu with hu | ⟨_, hu⟩
      · exact ⟨hne, hj, hu⟩
      · rw [hu j] at hj
        cases hj
  refine ⟨?_, ?_, ?_, ?_, ?_, ?_⟩
  · intro j k hj hk
    exact hv.one j k (hother j hj).2.1 (hother k hk).2.1
  · intro j hj
    obtain ⟨hne, hm⟩ := Finset.mem_erase.mp hj
    change ∃ message, Function.update v.calls i call j = .waiting message
    rw [Function.update_of_ne hne]
    exact hv.inWait j hm
  · intro j hj
    obtain ⟨hne, hj', rfl⟩ := hother j hj
    change (Function.update v.calls i call j).uuid = some v.uuid ∨ v.uuid = []
    rw [Function.update_of_ne hne]
    exact hv.owned j hj'
  · intro j message hj hm
    change Function.update v.calls i call j = .waiting message at hj
    obtain ⟨hne, _, rfl⟩ := hother j (by rw [hj]; rfl)
    rw [Function.update_of_ne hne] at hj
    exact hv.woken j message hj (fun hm' => hm (Finset.mem_erase.mpr ⟨hne, hm'⟩))
  · intro m hm
    rcases hu with rfl | ⟨hne, _⟩
    · exact hv.named m hm
    · exact ⟨hne, (hv.named m hm).2⟩
  · apply (Function.forall_update_iff v.calls fun _ c => ∀ message response,
      c = .returned message response → response.correlationId = message.correlationId).mpr
    exact ⟨hr, fun j _ => hv.answered j⟩

/-- A call goes on: it is alone under way, and has the id or finds it cleared. -/
theorem Correlated.proceed (hv : Correlated v) {i : ℕ} {call : Call} {uuid : Bytes}
    {W : Finset ℕ} (halone : ∀ j, (v.calls j).underway = true → j = i)
    (hc : call.underway = true) (hid : call.uuid = some uuid ∨ uuid = [])
    (hu : uuid = v.uuid ∨ uuid ≠ []) (hW : ∀ j ∈ W, j = i ∧ ∃ message, call = .waiting message)
    (hwoken : ∀ message, call = .waiting message → i ∈ W) :
    Correlated { v with uuid := uuid, calls := Function.update v.calls i call, waitSet := W } := by
  have hself : ∀ j, (Function.update v.calls i call j).underway = true → j = i := by
    intro j hj
    rcases eq_or_ne j i with rfl | hne
    · rfl
    · rw [Function.update_of_ne hne] at hj
      exact halone j hj
  refine ⟨?_, ?_, ?_, ?_, ?_, ?_⟩
  · intro j k hj hk
    exact (hself j hj).trans (hself k hk).symm
  · intro j hj
    obtain ⟨rfl, hm⟩ := hW j hj
    change ∃ message, Function.update v.calls j call j = .waiting message
    rw [Function.update_self]
    exact hm
  · intro j hj
    cases hself j hj
    change (Function.update v.calls i call i).uuid = some uuid ∨ uuid = []
    rw [Function.update_self]
    exact hid
  · intro j message hj hm
    change Function.update v.calls i call j = .waiting message at hj
    cases hself j (by rw [hj]; rfl)
    rw [Function.update_self] at hj
    exact absurd (hwoken message hj) hm
  · intro m hm
    rcases hu with rfl | hne
    · exact hv.named m hm
    · exact ⟨hne, (hv.named m hm).2⟩
  · apply (Function.forall_update_iff v.calls fun _ c => ∀ message response,
      c = .returned message response → response.correlationId = message.correlationId).mpr
    refine ⟨?_, fun j _ => hv.answered j⟩
    intro message response hr
    rw [hr] at hc
    cases hc

theorem not_in_wait (hv : Correlated v) {i : ℕ} (h : (v.calls i).underway = false) :
    v.waitSet.erase i = v.waitSet := by
  apply Finset.erase_eq_of_notMem
  intro hm
  rw [hv.waits hm] at h
  cases h

theorem Correlated.turn {v' : Sync} (hv : Correlated v) (h : Turn Quiet v v') :
    Correlated v' := by
  cases h with
  | other => exact hv
  | @refuse i message fault fresh ok =>
    have hs := hv.settle i v.uuid (show (Call.threw message fault).underway = false from rfl)
      nofun (Or.inl rfl)
    rwa [not_in_wait hv (ok.1 i)] at hs
  | @reject i message fault uuid fresh ok id named =>
    have hs := hv.settle i uuid (show (Call.threw message fault).underway = false from rfl)
      nofun (Or.inr ⟨named, ok.1⟩)
    rwa [not_in_wait hv (ok.1 i)] at hs
  | @arm i message uuid requestQueue address receiveTimeOut fresh ok id named =>
    refine hv.proceed ?_ rfl (Or.inl id) (Or.inr named) ?_ nofun
    · intro j hj
      rw [ok.1 j] at hj
      cases hj
    · intro j hj
      have hj' := hv.waits hj
      rw [ok.1 j] at hj'
      cases hj'
  | @send i message requestQueue address receiveTimeOut armed =>
    have hi : (v.calls i).underway = true := by
      rw [armed]
      rfl
    refine hv.proceed (fun j hj => hv.one j i hj hi) rfl ?_ (Or.inl rfl) ?_ ?_
    · have ho := hv.owned i hi
      rw [armed] at ho
      exact ho
    · intro j hj
      refine ⟨?_, message, rfl⟩
      rcases Finset.mem_insert.mp hj with rfl | hj
      · rfl
      · exact hv.one j i (hv.waits hj) hi
    · intro _ _
      exact Finset.mem_insert_self i _
  | @ret i message waits notified =>
    refine hv.settle i v.uuid rfl ?_ (Or.inl rfl)
    intro m r he
    cases he
    exact (hv.woken i message waits notified).2.2
  | timeOut waits => exact hv.settle _ v.uuid rfl nofun (Or.inl rfl)

theorem Correlated.step {s t : State L} {a : Action L} (hv : Correlated (sync s))
    (hu : Unchanged s a) (ho : Orderly s a) (h : FineStep s a t) : Correlated (sync t) := by
  have hf := fine_turn h (orderly_rule ho)
  revert hu
  generalize ht : sync t = v' at hf ⊢
  cases hf with
  | thread turn => exact fun _ => hv.turn turn
  | compare idle named hit =>
    intro _
    refine ⟨hv.one, hv.inWait, hv.owned, ?_, ?_, hv.answered⟩
    · intro i m hi hm
      exact absurd (hv.woken i m hi hm).1 named
    · intro m he
      cases he
      rw [hit]
      exact ⟨named, fun he => named (Option.some.inj he)⟩
  | @store message W pending notify =>
    intro hu
    refine ⟨hv.one, fun i hi => hv.inWait i (notify.subset hi), fun _ _ => Or.inr rfl, ?_, nofun,
      hv.answered⟩
    intro i m hi hm
    refine ⟨rfl, rfl, ?_⟩
    -- Nobody has been woken since the comparison, so the call is still in the wait set.
    have hw : i ∈ s.waitSet := by
      by_contra hne
      have hn := (hv.woken i m hi hne).2.1
      rw [pending] at hn
      cases hn
    have hid : message.correlationId = some s.client.bus.syncUuid := by
      have hid := hu rfl ⟨i, hw⟩
      change s.matched = some message at pending
      rwa [pending] at hid
    have hi' : (s.calls i).underway = true := hv.waits hw
    rcases hv.owned i hi' with ho | ho
    · change (s.calls i).uuid = some s.client.bus.syncUuid at ho
      change s.calls i = .waiting m at hi
      rw [hi] at ho
      exact hid.trans ho.symm
    · change s.client.bus.syncUuid = [] at ho
      rw [ho] at hid
      exact absurd hid (hv.named message pending).2

/-- With the handler as one step nothing comes between comparison and store. -/
theorem Correlated.handler {v' : Sync} (hv : Correlated v) (hm : v.matched = none)
    (h : HandlerTurn Quiet v v') : Correlated v' ∧ v'.matched = none := by
  cases h with
  | thread turn =>
    refine ⟨hv.turn turn, ?_⟩
    cases turn <;> exact hm
  | response named hit notify =>
    refine ⟨⟨hv.one, fun i hi => hv.inWait i (notify.subset hi), fun _ _ => Or.inr rfl, ?_, ?_,
      hv.answered⟩, hm⟩
    · intro i m hi _
      refine ⟨rfl, hm, ?_⟩
      change v.calls i = .waiting m at hi
      rcases hv.owned i (by rw [hi]; rfl) with ho | ho
      · rw [hi] at ho
        exact hit.trans ho.symm
      · exact absurd ho named
    · intro m he
      rw [show v.matched = some m from he] at hm
      cases hm

theorem reachable_correlated {s : State L}
    (h : Reachable Start (restrict Unchanged (restrict Orderly FineStep)) s) :
    Correlated (sync s) := by
  refine h.invariant (I := fun s => Correlated (sync s)) ?_ ?_
  · intro s hs
    rw [sync_new hs]
    exact new_correlated
  · intro s a t hv hs
    exact hv.step hs.1 hs.2.1 hs.2.2

/-- Requests made one at a time get their own responses in every run in which
`m_syncUuid` does not change between a comparison and the store that wakes a
request. -/
theorem answered_while_unchanged {s : State L}
    (h : Reachable Start (restrict Unchanged (restrict Orderly FineStep)) s) : Answered s :=
  (reachable_correlated h).answered

/-- The condition leaves out nothing harmless: where it fails, the request that
the store wakes can return the message that it was not compared with. -/
theorem changed_misdelivers {s : State L}
    (h : Reachable Start (restrict Unchanged (restrict Orderly FineStep)) s)
    {message : Message} (hm : s.matched = some message) (hn : ¬ Unchanged s .store) :
    ∃ i t u, FineStep s .store t ∧ FineStep t (.leave i false) u ∧ ¬ Answered u := by
  have hv := reachable_correlated h
  simp only [Unchanged, forall_const, Classical.not_imp, hm, Option.bind_some] at hn
  obtain ⟨⟨i, hi⟩, hne⟩ := hn
  obtain ⟨request, hr⟩ : ∃ request, s.calls i = .waiting request := hv.inWait i hi
  have hid : request.correlationId = some s.client.bus.syncUuid := by
    rcases hv.owned i (hv.waits hi) with ho | ho
    · change (s.calls i).uuid = some s.client.bus.syncUuid at ho
      rw [hr] at ho
      exact ho
    · exact absurd ho (hv.named message hm).1
  refine ⟨i, _, _, .store hm (Or.inr ⟨i, hi, rfl⟩),
    .thread (.ret hr (Finset.notMem_erase i s.waitSet)), ?_⟩
  intro ha
  have he := ha i request message (Function.update_self i _ _)
  rw [hid] at he
  exact hne he

/-- A request with an id and a receiver. -/
def ask (id : Bytes) : Message :=
  ⟨(SortedMap.empty.emplace Message.CORRELATION_ID id).emplace Message.TO (lit "peer"), []⟩

def answer (id : Bytes) : Message := ⟨SortedMap.empty.emplace Message.CORRELATION_ID id, []⟩

def accepting : Mlm := ⟨true, true, true⟩

theorem answered_in_time :
    ∃ s : State Unit, s.calls 0 = .returned (ask (lit "a")) (answer (lit "a")) ∧ Answered s := by
  let queue := lit "queue"
  let s₁ : State Unit := (State.new (lit "bus")).call 0 queue (ask (lit "a")) 1
  let s₂ := s₁.send accepting 0 queue (ask (lit "a")) 1 (lit "peer")
  let s₃ : State Unit := { s₂ with matched := some (answer (lit "a")) }
  let s₄ : State Unit :=
    { s₃ with
      client := final (storeResponse (answer (lit "a")) s₃.client)
      waitSet := s₃.waitSet.erase 0
      matched := none }
  let s₅ := s₄.leave 0 (ask (lit "a")) false
  have hrun : Run (restrict Unchanged (restrict Orderly FineStep)) (State.new (lit "bus"))
      [.call 0 queue (ask (lit "a")) 1, .send 0 accepting,
        .mailbox queue (toZmsg (answer (lit "a"))), .store, .leave 0 false] s₅ := by
    refine .cons (t := s₁) ⟨nofun, ⟨fun _ => rfl, fun _ _ _ => nofun⟩, .thread (.call rfl)⟩ ?_
    refine .cons (t := s₂) ⟨nofun, ⟨trivial, trivial⟩, .thread (.send rfl)⟩ ?_
    refine .cons (t := s₃) ⟨nofun, ⟨trivial, trivial⟩, .compare rfl rfl rfl⟩ ?_
    refine .cons (t := s₄) ⟨fun _ _ => rfl, ⟨trivial, trivial⟩,
      .store rfl (Or.inr ⟨0, by decide, rfl⟩)⟩ ?_
    exact .cons (t := s₅) ⟨nofun, ⟨trivial, trivial⟩, .thread (.ret rfl (by decide))⟩ (.nil _)
  exact ⟨s₅, rfl, answered_while_unchanged ⟨_, _, ⟨_, rfl⟩, hrun⟩⟩

/-- The response to a request that timed out between the comparison and the store
is returned by the next request. -/
theorem stale_response_returned :
    ¬ ∀ s : State Unit, Reachable Start (restrict Orderly FineStep) s → Answered s := by
  intro h
  let queue := lit "queue"
  let s₁ : State Unit := (State.new (lit "bus")).call 0 queue (ask (lit "a")) 1
  let s₂ := s₁.send accepting 0 queue (ask (lit "a")) 1 (lit "peer")
  let s₃ : State Unit := { s₂ with matched := some (answer (lit "a")) }
  let s₄ := s₃.leave 0 (ask (lit "a")) true
  let s₅ := s₄.call 1 queue (ask (lit "b")) 1
  let s₆ := s₅.send accepting 1 queue (ask (lit "b")) 1 (lit "peer")
  let s₇ : State Unit :=
    { s₆ with
      client := final (storeResponse (answer (lit "a")) s₆.client)
      waitSet := s₆.waitSet.erase 1
      matched := none }
  let s₈ := s₇.leave 1 (ask (lit "b")) false
  have hrun : Run (restrict Orderly FineStep) (State.new (lit "bus"))
      [.call 0 queue (ask (lit "a")) 1, .send 0 accepting,
        .mailbox queue (toZmsg (answer (lit "a"))), .leave 0 true,
        .call 1 queue (ask (lit "b")) 1, .send 1 accepting, .store, .leave 1 false] s₈ := by
    refine .cons (t := s₁) ⟨⟨fun _ => rfl, fun _ _ _ => nofun⟩, .thread (.call rfl)⟩ ?_
    refine .cons (t := s₂) ⟨⟨trivial, trivial⟩, .thread (.send rfl)⟩ ?_
    refine .cons (t := s₃) ⟨⟨trivial, trivial⟩, .compare rfl rfl rfl⟩ ?_
    refine .cons (t := s₄) ⟨⟨trivial, trivial⟩, .thread (.timeOut rfl)⟩ ?_
    refine .cons (t := s₅) ⟨⟨?_, ?_⟩, .thread (.call rfl)⟩ ?_
    · rintro (_ | j)
      · rfl
      · rfl
    · rintro (_ | j) _ _
      · decide
      · nofun
    refine .cons (t := s₆) ⟨⟨trivial, trivial⟩, .thread (.send rfl)⟩ ?_
    refine .cons (t := s₇) ⟨⟨trivial, trivial⟩, .store rfl (Or.inr ⟨1, by decide, rfl⟩)⟩ ?_
    exact .cons (t := s₈) ⟨⟨trivial, trivial⟩, .thread (.ret rfl (by decide))⟩ (.nil _)
  have ha := h s₈ ⟨_, _, ⟨_, rfl⟩, hrun⟩ 1 (ask (lit "b")) (answer (lit "a")) rfl
  revert ha
  decide

end Messagebus.Proofs.Correlation
