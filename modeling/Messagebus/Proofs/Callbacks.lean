import Messagebus.Callbacks
import Messagebus.Proofs.Correlation
import Messagebus.Proofs.Registry

namespace Messagebus.Proofs.Callbacks
open Frame Runs Proofs.Calls Proofs.Requests
open Proofs.Correlation (ask accepting)

variable {L : Type}

/-- A call of `request` that has not been notified, or has thrown an exception. -/
inductive Asleep (s : State L) (i : ℕ) : Prop where
  | armed {requestQueue address : Bytes} {message : Message} {receiveTimeOut : Int}
      (h : s.calls i = .armed requestQueue message receiveTimeOut address)
  | waiting {message : Message} (h : s.calls i = .waiting message) (asleep : i ∈ s.waitSet)
  | threw {message : Message} {what : String} (h : s.calls i = .threw message (.thrown what))

/-- The call ended with an exception. -/
def Ended (s : State L) (i : ℕ) : Prop := ∃ message what, s.calls i = .threw message (.thrown what)

theorem Asleep.not_returned {s : State L} {i : ℕ} (h : Asleep s i) (message response : Message) :
    s.calls i ≠ .returned message response := by
  cases h with
  | armed h => simp [h]
  | waiting h asleep => simp [h]
  | threw h => simp [h]

theorem Asleep.ended {s : State L} {i : ℕ} (h : Asleep s i)
    (hu : (s.calls i).underway = false) : Ended s i := by
  cases h with
  | armed h => simp [h, Call.underway] at hu
  | waiting h asleep => simp [h, Call.underway] at hu
  | threw h => exact ⟨_, _, h⟩

/-- What a call looks like from the steps that do not touch it. -/
theorem Asleep.kept {s t : State L} {i : ℕ} (h : Asleep s i) (hc : t.calls i = s.calls i)
    (hw : i ∈ s.waitSet → i ∈ t.waitSet) : Asleep t i := by
  cases h with
  | armed h => exact .armed (hc.trans h)
  | waiting h asleep => exact .waiting (hc.trans h) (hw asleep)
  | threw h => exact .threw (hc.trans h)

theorem Asleep.made {s : State L} {i : ℕ} (h : Asleep s i) : s.calls i ≠ .notMade := by
  cases h with
  | armed h => simp [h]
  | waiting h asleep => simp [h]
  | threw h => simp [h]

/-- The other calls, made or not, leave a call as it is. -/
theorem call_other (s : State L) {i j : ℕ} (requestQueue : Bytes) (message : Message)
    (receiveTimeOut : Int) (h : i ≠ j) :
    (s.call j requestQueue message receiveTimeOut).calls i = s.calls i ∧
      (s.call j requestQueue message receiveTimeOut).waitSet = s.waitSet := by
  obtain ⟨uuid, call, he⟩ := Nodes.call_sync s j requestQueue message receiveTimeOut
  have hc := congrArg (fun v => Sync.calls v i) he
  exact ⟨hc.trans (Function.update_of_ne h _ _), congrArg Sync.waitSet he⟩

/-- The threads other than the listener do not wake a call. -/
theorem Asleep.caller {s t : State L} {i : ℕ} {a : Action L} (h : Asleep s i)
    (ha : a.handling = false) (hs : ThreadStep s a t) : Asleep t i := by
  cases hs with
  | @call j requestQueue message receiveTimeOut fresh =>
    have hne : i ≠ j := by
      intro he
      exact h.made (he ▸ fresh)
    obtain ⟨hc, hw⟩ := call_other s requestQueue message receiveTimeOut hne
    exact h.kept hc (fun hi => hw ▸ hi)
  | @send j mlm requestQueue message receiveTimeOut address armed =>
    rcases eq_or_ne i j with rfl | hne
    · exact .waiting (Function.update_self i _ _) (Finset.mem_insert_self i _)
    · exact h.kept (Function.update_of_ne hne _ _) (Finset.mem_insert_of_mem ·)
  | @ret j message waits notified =>
    rcases eq_or_ne i j with rfl | hne
    · cases h with
      | armed h => cases h.symm.trans waits
      | waiting h asleep => exact absurd asleep notified
      | threw h => cases h.symm.trans waits
    · exact h.kept (Function.update_of_ne hne _ _) (Finset.mem_erase.mpr ⟨hne, ·⟩)
  | @timeOut j message waits =>
    rcases eq_or_ne i j with rfl | hne
    · exact .threw (Function.update_self i _ _)
    · exact h.kept (Function.update_of_ne hne _ _) (Finset.mem_erase.mpr ⟨hne, ·⟩)
  | api defined => exact h.kept rfl id
  | stream => cases ha
  | streamSkipped => cases ha

/-- A call that is made and over is not touched again. -/
theorem over_stays {s t : State L} {i : ℕ} {a : Action L} (hs : ThreadStep s a t)
    (hu : (s.calls i).underway = false) (hm : s.calls i ≠ .notMade) : t.calls i = s.calls i := by
  have hother : ∀ j, (s.calls j).underway = true → i ≠ j := by
    intro j hj he
    rw [← he, hu] at hj
    cases hj
  cases hs with
  | @call j requestQueue message receiveTimeOut fresh =>
    have hne : i ≠ j := by
      intro he
      exact hm (he ▸ fresh)
    exact (call_other s requestQueue message receiveTimeOut hne).1
  | @send j mlm requestQueue message receiveTimeOut address armed =>
    exact Function.update_of_ne (hother j (by simp [armed, Call.underway])) _ _
  | @ret j message waits notified =>
    exact Function.update_of_ne (hother j (by simp [waits, Call.underway])) _ _
  | @timeOut j message waits =>
    exact Function.update_of_ne (hother j (by simp [waits, Call.underway])) _ _
  | api defined => rfl
  | stream => rfl
  | streamSkipped => rfl

theorem Ended.stays {s t : State L} {i : ℕ} (h : Ended s i) (hc : t.calls i = s.calls i) :
    Ended t i := by
  obtain ⟨message, what, he⟩ := h
  exact ⟨message, what, hc.trans he⟩

theorem Ended.caller {s t : State L} {i : ℕ} {a : Action L} (h : Ended s i)
    (hs : ThreadStep s a t) : Ended t i := by
  obtain ⟨message, what, he⟩ := h
  refine Ended.stays ⟨message, what, he⟩ (over_stays hs ?_ ?_)
  · simp [he, Call.underway]
  · simp [he]

/-- Handling messages is nothing that a call does. -/
theorem handling_calls {s t : State L} {a : Action L} (ha : a.handling = true)
    (h : FineStep s a t) : t.calls = s.calls := by
  cases h with
  | thread h =>
    cases h with
    | stream => rfl
    | streamSkipped => rfl
    | _ => cases ha
  | _ => rfl

theorem call_asleep {s : State L} {i : ℕ} (requestQueue : Bytes) (message : Message)
    (receiveTimeOut : Int) : Asleep (s.call i requestQueue message receiveTimeOut) i := by
  unfold State.call
  rcases requestArm_cases message s.client with
    ⟨_, he⟩ | ⟨uuid, _, _, ⟨_, he⟩ | ⟨address, _, _, he⟩⟩
  · rw [he]
    exact .threw (Function.update_self i _ _)
  · rw [he]
    exact .threw (Function.update_self i _ _)
  · rw [he]
    exact .armed (Function.update_self i _ _)

section Run

variable {s t u : CallbackState L} {i : ℕ}

/-- While a callback is not done, nothing notifies a call. -/
theorem asleep_step {a : CallbackAction L} (h : s.thread ≠ .idle ∧ Asleep s.bus i)
    (ha : a ≠ .finish) (hs : CallbackStep s a t) : t.thread ≠ .idle ∧ Asleep t.bus i := by
  cases hs with
  | caller other hs => exact ⟨h.1, h.2.caller other hs⟩
  | handle mine idle hs quiet => exact absurd idle h.1
  | invoke mine idle hs calls => exact absurd idle h.1
  | request free fresh => exact ⟨by simp, h.2.caller rfl (.call fresh)⟩
  | finish free => exact absurd rfl ha

theorem asleep_run {as : List (CallbackAction L)} (h : s.thread ≠ .idle ∧ Asleep s.bus i)
    (hf : .finish ∉ as) (hr : Run CallbackStep s as t) : Asleep t.bus i := by
  have hend := hr.invariant_on (I := fun s => s.thread ≠ .idle ∧ Asleep s.bus i) h ?_
  · exact hend.2
  · intro s a ha t hi hs
    exact asleep_step hi (fun he => hf (he ▸ ha)) hs

/-- The call that a callback makes is over, by an exception, or the callback is
still inside it. -/
def Inner (s : CallbackState L) (i : ℕ) : Prop :=
  Ended s.bus i ∨ Asleep s.bus i ∧ s.thread = .callback (some i)

/-- A callback that goes on is out of the calls that it has made. -/
theorem Inner.free (h : Inner s i) (hf : s.Free) : Ended s.bus i := by
  rcases h with h | ⟨ha, ht⟩
  · exact h
  · obtain ⟨inner, hi, hover⟩ := hf
    rw [ht] at hi
    cases hi
    exact ha.ended (hover i rfl)

theorem Inner.step {a : CallbackAction L} (h : Inner s i) (hs : CallbackStep s a t) :
    Inner t i := by
  cases hs with
  | caller other hs =>
    rcases h with h | ⟨ha, ht⟩
    · exact Or.inl (h.caller hs)
    · exact Or.inr ⟨ha.caller other hs, ht⟩
  | handle mine idle hs quiet | invoke mine idle hs calls =>
    rcases h with h | ⟨_, ht⟩
    · exact Or.inl (h.stays (congrFun (handling_calls mine hs) i))
    · rw [idle] at ht
      cases ht
  | request free fresh => exact Or.inl ((h.free free).caller (.call fresh))
  | finish free => exact Or.inl (h.free free)

theorem Inner.run {as : List (CallbackAction L)} (h : Inner s i)
    (hr : Run CallbackStep s as t) : Inner t i :=
  hr.invariant (I := fun s => Inner s i) h fun _ _ _ hi hs => hi.step hs

end Run

/-- No request that is sent while a callback is running returns before the callback
is done; so a request that a callback makes itself never returns, and if it ends,
it throws. -/
theorem callback_blocks_requests (s : CallbackState L) :
    (∀ i mlm t, s.thread ≠ .idle → CallbackStep s (.act (.send i mlm)) t →
      ∀ as u, Run CallbackStep t as u → .finish ∉ as →
        ∀ message response, u.bus.calls i ≠ .returned message response) ∧
    ∀ i requestQueue message receiveTimeOut t,
      CallbackStep s (.request i requestQueue message receiveTimeOut) t →
      ∀ as u, Run CallbackStep t as u →
        (∀ m response, u.bus.calls i ≠ .returned m response) ∧
        ((u.bus.calls i).underway = false → Ended u.bus i) := by
  constructor
  · intro i mlm t ht hs as u hr hf
    have hsent : t.thread ≠ .idle ∧ Asleep t.bus i := by
      cases hs with
      | caller other hs =>
        cases hs with
        | send armed =>
          exact ⟨ht, .waiting (Function.update_self i _ _) (Finset.mem_insert_self i _)⟩
      | handle mine => cases mine
      | invoke mine => cases mine
    exact (asleep_run hsent hf hr).not_returned
  · intro i requestQueue message receiveTimeOut t hs as u hr
    have hinner : Inner t i := by
      cases hs with
      | request free fresh => exact Or.inr ⟨call_asleep _ _ _, rfl⟩
    rcases hinner.run hr with ⟨m, what, he⟩ | ⟨ha, _⟩
    · exact ⟨by simp [he], fun _ => ⟨m, what, he⟩⟩
    · exact ⟨ha.not_returned, ha.ended⟩

/-- A callback that waits for a response on its own bus waits in vain. -/
theorem inner_request_in_vain :
    ∃ s : CallbackState Unit, Reachable CallbackState.Start CallbackStep s ∧
      s.bus.calls 0 = .waiting (ask (lit "a")) ∧ ∀ as u, Run CallbackStep s as u →
        ∀ message response, u.bus.calls 0 ≠ .returned message response := by
  let bound : State Unit :=
    { State.new (lit "bus") with
      client := final ((ApiCall.subscribe (lit "topic") ()).run accepting (.new (lit "bus"))) }
  let called : CallbackState Unit := ⟨bound.invoke bound.client () .empty, .callback none⟩
  let inside : CallbackState Unit :=
    ⟨called.bus.call 0 (lit "queue") (ask (lit "a")) 1, .callback (some 0)⟩
  let waits : CallbackState Unit :=
    { inside with bus := inside.bus.send accepting 0 (lit "queue") (ask (lit "a")) 1 (lit "peer") }
  have hbind : CallbackStep ⟨State.new (lit "bus"), .idle⟩
      (.act (.api accepting (.subscribe (lit "topic") ()))) ⟨bound, .idle⟩ :=
    .caller rfl (.api (by intro client he; cases he))
  have hinvoke : CallbackStep ⟨bound, .idle⟩ (.act (.stream (lit "topic") [])) called :=
    .invoke rfl rfl (.thread (.stream rfl rfl)) (by simp [State.invoke])
  have hcall : CallbackStep called (.request 0 (lit "queue") (ask (lit "a")) 1) inside :=
    .request ⟨none, rfl, by simp⟩ rfl
  have hsend : CallbackStep inside (.act (.send 0 accepting)) waits := .caller rfl (.send rfl)
  refine ⟨waits, ?_, rfl, ?_⟩
  · exact ⟨_, _, ⟨_, rfl⟩, .cons hbind (.cons hinvoke (.cons hcall (.cons hsend (.nil _))))⟩
  · intro as u hr
    exact ((callback_blocks_requests called).2 _ _ _ _ _ hcall _ u (.cons hsend hr)).1

end Messagebus.Proofs.Callbacks
