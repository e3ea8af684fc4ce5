import Messagebus.Proofs.Queues

namespace Messagebus.Proofs.Origins
open Frame Runs Proofs.Calls Proofs.Requests Proofs.Queues

variable {L : Type} {s t : State L} {a : Action L} {as : List (Action L)}

/-- A step of the protocol, in one piece or in two. -/
theorem loose_turn (h : LooseStep s a t) :
    (∃ i message, s.calls i = .waiting message ∧ t = s.leave i message false) ∨
      FineTurn (fun _ _ _ => True) (sync s) a (sync t) := by
  cases h with
  | spurious waits asleep => exact Or.inl ⟨_, _, waits, rfl⟩
  | fine h => exact Or.inr (fine_turn h fun _ _ _ _ _ => trivial)

/-- Only what has been found to match is stored. -/
theorem loose_stored (h : LooseStep s a t) :
    t.client.bus.syncResponse = s.client.bus.syncResponse ∨
      s.matched = some t.client.bus.syncResponse := by
  rcases loose_turn h with ⟨i, message, _, rfl⟩ | ht
  · exact Or.inl rfl
  · change (sync t).response = (sync s).response ∨ (sync s).matched = some (sync t).response
    generalize sync t = v at ht ⊢
    cases ht with
    | compare idle named hit => exact Or.inl rfl
    | store pending notify => exact Or.inr pending
    | thread turn => cases turn <;> exact Or.inl rfl

/-- Only a mailbox message is found to match. -/
theorem loose_pending (h : LooseStep s a t) {message : Message} (ht : t.matched = some message) :
    s.matched = some message ∨
      ∃ subject content, a = .mailbox subject content ∧ fromZmsg content = .ok message := by
  cases h with
  | spurious waits asleep => exact Or.inl ht
  | fine h =>
    cases h with
    | @compare subject content found idle decodes hit =>
      cases ht
      exact Or.inr ⟨subject, content, rfl, decodes⟩
    | store pending notify => cases ht
    | invoke idle decodes miss dispatches => exact Or.inl ht
    | skipped idle decodes miss dispatches => exact Or.inl ht
    | thread h =>
      have hturn : HandlerTurn (fun _ _ _ => True) (sync s) (sync t) :=
        .thread (thread_turn h fun _ _ _ _ _ => trivial)
      exact Or.inl (hturn.matched_eq.symm.trans ht)

/-- What a call returns is the response that the bus has stored. -/
theorem loose_returned (h : LooseStep s a t) {i : ℕ} {message response : Message}
    (ht : t.calls i = .returned message response) :
    s.calls i = .returned message response ∨ response = s.client.bus.syncResponse := by
  have hleave : ∀ j asked, Function.update s.calls j
      (.returned asked s.client.bus.syncResponse) i = .returned message response →
      s.calls i = .returned message response ∨ response = s.client.bus.syncResponse := by
    intro j asked hi
    rcases eq_or_ne i j with rfl | hne
    · rw [Function.update_self] at hi
      cases hi
      exact Or.inr rfl
    · rw [Function.update_of_ne hne] at hi
      exact Or.inl hi
  have hkeep : ∀ j call, (∀ m r, call ≠ Call.returned m r) →
      Function.update s.calls j call i = .returned message response →
      s.calls i = .returned message response := by
    intro j call hcall hi
    rcases eq_or_ne i j with rfl | hne
    · rw [Function.update_self] at hi
      exact absurd hi (hcall _ _)
    · rwa [Function.update_of_ne hne] at hi
  rcases loose_turn h with ⟨j, asked, _, rfl⟩ | hturn
  · exact hleave j asked ht
  · change (sync t).calls i = .returned message response at ht
    generalize sync t = v at hturn ht
    cases hturn with
    | compare idle named hit => exact Or.inl ht
    | store pending notify => exact Or.inl ht
    | thread turn =>
      cases turn with
      | other => exact Or.inl ht
      | ret waits notified => exact hleave _ _ ht
      | _ => exact Or.inl (hkeep _ _ (by simp) ht)

/-- The message has come in by the actions and has the id of a request. -/
def Arrived (as : List (Action L)) (s : State L) (message : Message) : Prop :=
  ∃ subject content, .mailbox subject content ∈ as ∧ fromZmsg content = .ok message ∧
    Requested s message

theorem Arrived.kept {message : Message} (hm : Arrived as s message) (h : LooseStep s a t) :
    Arrived (as ++ [a]) t message := by
  obtain ⟨subject, content, hmem, hd, j, id, hid, hj⟩ := hm
  exact ⟨subject, content, List.mem_append_left _ hmem, hd, j, id, hid, loose_named h hj⟩

/-- What the listener has found, what it has stored and what requests have returned. -/
structure Inv (as : List (Action L)) (s : State L) : Prop where
  asked : Asked s
  pending : ∀ message, s.matched = some message → Arrived as s message
  stored : s.client.bus.syncResponse = .empty ∨ Arrived as s s.client.bus.syncResponse
  returned : ∀ i message response, s.calls i = .returned message response →
    response = .empty ∨ Arrived as s response

theorem start_inv (h : Start s) : Inv [] s := by
  obtain ⟨clientName, rfl⟩ := h
  refine ⟨fun hne => absurd rfl hne, ?_, Or.inl rfl, ?_⟩
  · intro message hm
    cases hm
  · intro i message response hc
    cases hc

theorem Inv.step (hi : Inv as s) (h : LooseStep s a t) : Inv (as ++ [a]) t := by
  have hasked : Asked t := loose_asked h hi.asked
  have hlast : ∀ message, message = .empty ∨ Arrived as s message →
      message = .empty ∨ Arrived (as ++ [a]) t message := by
    intro message hm
    exact hm.imp_right fun hm => hm.kept h
  refine ⟨hasked, ?_, ?_, ?_⟩
  · intro message hm
    rcases loose_pending h hm with hs | ⟨subject, content, rfl, hd⟩
    · exact (hi.pending message hs).kept h
    · exact ⟨subject, content, by simp, hd, loose_requested h hi.asked hm⟩
  · rcases loose_stored h with he | hs
    · rw [he]
      exact hlast _ hi.stored
    · exact Or.inr ((hi.pending _ hs).kept h)
  · intro i message response hc
    rcases loose_returned h hc with hs | rfl
    · exact hlast _ (hi.returned i message response hs)
    · exact hlast _ hi.stored

/-- However many requests are made at a time, with whatever ids and whichever waits end
for no reason, a response that is returned is the empty one or came into the mailbox,
with the id of a request. -/
theorem responses_arrived (hs : Start s) (h : Run LooseStep s as t) {i : ℕ}
    {message response : Message} (hr : t.calls i = .returned message response) :
    response = .empty ∨ Arrived as t response := by
  have hi : Inv as t := h.history (start_inv hs) fun _ _ _ _ hi hstep => hi.step hstep
  exact hi.returned i message response hr

open RoundTrip (question reply)

/-- Two requests at a time with one id. -/
theorem shared_response_arrived : ∃ (as : List (Action Unit)) (t : State Unit),
    t.calls 0 = .returned question reply ∧ t.calls 1 = .waiting question ∧
      (reply = .empty ∨ Arrived as t reply) := by
  let mlm : Mlm := ⟨true, true, true⟩
  let queue := lit "queue"
  let s₀ : State Unit := State.new (lit "client")
  let s₁ := s₀.call 0 queue question 5
  let s₂ := s₁.call 1 queue question 5
  let s₃ := s₂.send mlm 0 queue question 5 (lit "server")
  let s₄ := s₃.send mlm 1 queue question 5 (lit "server")
  let s₅ : State Unit := { s₄ with matched := some reply }
  let s₆ : State Unit := { s₅ with
    client := final (storeResponse reply s₅.client)
    waitSet := s₅.waitSet.erase 0
    matched := none }
  let s₇ := s₆.leave 0 question false
  have hrun : Run LooseStep s₀
      [.call 0 queue question 5, .call 1 queue question 5, .send 0 mlm, .send 1 mlm,
        .mailbox queue (toZmsg reply), .store, .leave 0 false] s₇ := by
    refine .cons (t := s₁) (.fine (.thread (.call rfl))) ?_
    refine .cons (t := s₂) (.fine (.thread (.call rfl))) ?_
    refine .cons (t := s₃) (.fine (.thread (.send rfl))) ?_
    refine .cons (t := s₄) (.fine (.thread (.send rfl))) ?_
    refine .cons (t := s₅) (.fine (.compare rfl rfl rfl)) ?_
    refine .cons (t := s₆) (.fine (.store rfl (Or.inr ⟨0, by decide, rfl⟩))) ?_
    exact .cons (.fine (.thread (.ret rfl (by decide)))) (.nil _)
  exact ⟨_, s₇, rfl, rfl, responses_arrived ⟨_, rfl⟩ hrun (i := 0) rfl⟩

end Messagebus.Proofs.Origins
