import Messagebus.Proofs.Correlation

namespace Messagebus.Proofs.Dispatch
open Frame Runs Proofs.Requests Proofs.Correlation

variable {L : Type}

/-- A call under way was made with the id of the message. -/
def Awaited (s : State L) (message : Message) : Prop :=
  ∃ i, (s.calls i).underway = true ∧ (s.calls i).uuid = message.correlationId

/-- A call that threw was made with the id of the message, and `m_syncUuid` still
holds it. -/
def LeftBehind (s : State L) (message : Message) : Prop :=
  s.client.bus.syncUuid ≠ [] ∧ message.correlationId = some s.client.bus.syncUuid ∧
    ∃ i request fault, s.calls i = .threw request fault ∧
      request.correlationId = message.correlationId

/-- The message goes to the listener, once, and to no other. -/
def Passed (s : State L) (subject : Bytes) (content : Zmsg) (listener : L) (message : Message) :
    Prop :=
  (∃ t, Step s (.mailbox subject content) t) ∧
    ∀ t, Step s (.mailbox subject content) t →
      t.invocations = s.invocations ++ [(listener, message)]

/-- An id that is set belongs to a call that is under way or that threw. -/
def Owned (v : Sync) : Prop :=
  v.uuid ≠ [] → ∃ i, (v.calls i).uuid = some v.uuid ∧
    ((v.calls i).underway = true ∨ ∃ request fault, v.calls i = .threw request fault)

variable {v v' : Sync}

/-- The owner stays while another call moves on. -/
theorem Owned.other (ho : Owned v) {i : ℕ} {call : Call} {W : Finset ℕ}
    (hi : ∀ uuid, (v.calls i).uuid = some uuid → call.uuid = some uuid ∧
      (call.underway = true ∨ ∃ request fault, call = .threw request fault)) :
    Owned { v with calls := Function.update v.calls i call, waitSet := W } := by
  intro hne
  obtain ⟨j, hid, hj⟩ := ho hne
  refine ⟨j, ?_⟩
  change (Function.update v.calls i call j).uuid = some v.uuid ∧
    ((Function.update v.calls i call j).underway = true ∨
      ∃ request fault, Function.update v.calls i call j = .threw request fault)
  rcases eq_or_ne j i with rfl | hji
  · rw [Function.update_self]
    exact hi _ hid
  · rw [Function.update_of_ne hji]
    exact ⟨hid, hj⟩

theorem Owned.handler (ho : Owned v) (hv : Correlated v) (h : HandlerTurn Quiet v v') :
    Owned v' := by
  cases h with
  | response named hit notify => exact fun hne => absurd rfl hne
  | thread turn =>
    cases turn with
    | other => exact ho
    | refuse fresh ok =>
      refine ho.other ?_
      intro uuid hid
      rw [fresh] at hid
      cases hid
    | @reject i request fault uuid fresh ok id named =>
      refine fun _ => ⟨i, ?_⟩
      simp only [Function.update_self]
      exact ⟨id, Or.inr ⟨request, fault, rfl⟩⟩
    | @arm i request uuid requestQueue address receiveTimeOut fresh ok id named =>
      refine fun _ => ⟨i, ?_⟩
      simp only [Function.update_self]
      exact ⟨id, Or.inl rfl⟩
    | send armed =>
      refine ho.other ?_
      intro uuid hid
      rw [armed] at hid
      exact ⟨hid, Or.inl rfl⟩
    | ret waits notified =>
      -- A call that was woken has had its id cleared.
      exact fun hne => absurd (hv.woken _ _ waits notified).1 hne
    | timeOut waits =>
      refine ho.other ?_
      intro uuid hid
      rw [waits] at hid
      exact ⟨hid, Or.inr ⟨_, _, rfl⟩⟩

theorem reachable_owned {s : State L} (h : Reachable Start (restrict Orderly Step) s) :
    Owned (sync s) := by
  have hi : (Correlated (sync s) ∧ (sync s).matched = none) ∧ Owned (sync s) := by
    refine h.invariant (I := fun s => (Correlated (sync s) ∧ (sync s).matched = none) ∧
      Owned (sync s)) ?_ ?_
    · intro s hs
      rw [sync_new hs]
      exact ⟨⟨new_correlated, rfl⟩, fun hne => absurd rfl hne⟩
    · intro s a t hi hs
      have ht := step_turn hs.2 (orderly_rule hs.1)
      exact ⟨hi.1.1.handler hi.1.2 ht, hi.2.handler hi.1.1 ht⟩
  exact hi.2

/-- A message that is no response reaches the listener of its subject. -/
theorem passed_iff_no_match {s : State L} {subject : Bytes} {content : Zmsg} {listener : L}
    {message : Message} (hd : fromZmsg content = .ok message)
    (hl : s.client.bus.subscriptions.find subject = some listener) :
    Passed s subject content listener message ↔ syncMatch s.client.bus message = false := by
  constructor
  · intro hp
    by_contra hm
    rw [Bool.not_eq_false] at hm
    obtain ⟨W, hW⟩ := CondVar.NotifyOne.possible s.waitSet
    have hinv := hp.2 _ ((match_step hd hm).mpr ⟨W, hW, rfl⟩)
    simp at hinv
  · intro hm
    refine ⟨⟨_, (dispatch_step hd hm hl).mpr rfl⟩, ?_⟩
    intro t ht
    rw [(dispatch_step hd hm hl).mp ht]
    rfl

/-- A mailbox message that nobody waits for is passed to the listener of its
subject exactly if no call that threw has left its id behind. -/
theorem passed_iff {s : State L} {subject : Bytes} {content : Zmsg} {listener : L}
    {message : Message} (h : Reachable Start (restrict Orderly Step) s)
    (hd : fromZmsg content = .ok message)
    (hl : s.client.bus.subscriptions.find subject = some listener)
    (hw : ¬ Awaited s message) :
    Passed s subject content listener message ↔ ¬ LeftBehind s message := by
  rw [passed_iff_no_match hd hl, ← Bool.not_eq_true, syncMatch_iff, not_iff_not]
  constructor
  · intro hm
    obtain ⟨hne, hid⟩ := hm
    obtain ⟨i, hi, hunder | ⟨request, fault, ht⟩⟩ := reachable_owned h hne
    · exact absurd ⟨i, hunder, hi.trans hid.symm⟩ hw
    · refine ⟨hne, hid, i, request, fault, ht, ?_⟩
      rw [ht] at hi
      exact hi.trans hid.symm
  · intro hb
    exact ⟨hb.1, hb.2.1⟩

/-- A bus with one listener. -/
def listening : State Unit :=
  { State.new (lit "bus") with
    client := final ((ApiCall.receive (lit "queue") ()).run accepting (.new (lit "bus"))) }

theorem listening_run : Run (restrict Orderly Step) (State.new (lit "bus"))
    [.api accepting (.receive (lit "queue") ())] listening :=
  .cons ⟨⟨trivial, trivial⟩, .thread (.api nofun)⟩ (.nil _)

/-- Another copy of the response to a request that has returned, after one more request
that timed out. -/
theorem copy_passed :
    ∃ s : State Unit, Passed s (lit "queue") (toZmsg (answer (lit "a"))) () (answer (lit "a")) := by
  let queue := lit "queue"
  let s₁ := listening.call 0 queue (ask (lit "a")) 1
  let s₂ := s₁.send accepting 0 queue (ask (lit "a")) 1 (lit "peer")
  let s₃ : State Unit :=
    { s₂ with
      client := final (storeResponse (answer (lit "a")) s₂.client)
      waitSet := s₂.waitSet.erase 0 }
  let s₄ := s₃.leave 0 (ask (lit "a")) false
  let s₅ := s₄.call 1 queue (ask (lit "b")) 1
  let s₆ := s₅.send accepting 1 queue (ask (lit "b")) 1 (lit "peer")
  let s₇ := s₆.leave 1 (ask (lit "b")) true
  have hrun : Run (restrict Orderly Step) listening
      [.call 0 queue (ask (lit "a")) 1, .send 0 accepting,
        .mailbox queue (toZmsg (answer (lit "a"))), .leave 0 false,
        .call 1 queue (ask (lit "b")) 1, .send 1 accepting, .leave 1 true] s₇ := by
    refine .cons (t := s₁) ⟨⟨fun _ => rfl, fun _ _ _ => nofun⟩, .thread (.call rfl)⟩ ?_
    refine .cons (t := s₂) ⟨⟨trivial, trivial⟩, .thread (.send rfl)⟩ ?_
    refine .cons (t := s₃) ⟨⟨trivial, trivial⟩, .response rfl (Or.inr ⟨0, by decide, rfl⟩)⟩ ?_
    refine .cons (t := s₄) ⟨⟨trivial, trivial⟩, .thread (.ret rfl (by decide))⟩ ?_
    refine .cons (t := s₅) ⟨⟨?_, ?_⟩, .thread (.call rfl)⟩ ?_
    · rintro (_ | j)
      · rfl
      · rfl
    · rintro (_ | j) _ _
      · decide
      · nofun
    refine .cons (t := s₆) ⟨⟨trivial, trivial⟩, .thread (.send rfl)⟩ ?_
    exact .cons (t := s₇) ⟨⟨trivial, trivial⟩, .thread (.timeOut rfl)⟩ (.nil _)
  refine ⟨s₇, (passed_iff ⟨_, _, ⟨_, rfl⟩, listening_run.append hrun⟩ rfl rfl ?_).mpr ?_⟩
  · rintro ⟨_ | _ | i, hi, _⟩
    · cases hi
    · cases hi
    · cases hi
  · rintro ⟨_, hid, _⟩
    revert hid
    decide

/-- A request rejected for want of a receiver takes the next message with its id
away from the listener of its queue. -/
theorem rejected_request_swallows :
    ¬ ∀ (s : State Unit) (subject : Bytes) (content : Zmsg) (listener : Unit) (message : Message),
      Reachable Start (restrict Orderly Step) s → fromZmsg content = .ok message →
      s.client.bus.subscriptions.find subject = some listener → ¬ Awaited s message →
      Passed s subject content listener message := by
  intro h
  let rejected := listening.call 0 (lit "queue") (answer (lit "a")) 1
  have hnext : Run (restrict Orderly Step) listening
      [.call 0 (lit "queue") (answer (lit "a")) 1] rejected :=
    .cons ⟨⟨fun _ => rfl, fun _ _ _ => nofun⟩, .thread (.call rfl)⟩ (.nil _)
  have hnone : ¬ Awaited rejected (answer (lit "a")) := by
    intro hw
    obtain ⟨_ | i, hi, _⟩ := hw
    · cases hi
    · cases hi
  have hp := h rejected (lit "queue") (toZmsg (answer (lit "a"))) () (answer (lit "a"))
    ⟨_, _, ⟨_, rfl⟩, listening_run.append hnext⟩ rfl rfl hnone
  have hm := (passed_iff_no_match rfl rfl).mp hp
  cases hm

end Messagebus.Proofs.Dispatch
