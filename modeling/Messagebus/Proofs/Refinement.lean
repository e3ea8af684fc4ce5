import Messagebus.Proofs.Levels
import Messagebus.Proofs.RoundTrip

namespace Messagebus.Proofs.Refinement
open CondVar Frame Runs Proofs.Levels

variable {L : Type} {s t : LockState L} {v : State L} {a : LockAction L} {E F : Finset ℕ} {i : ℕ}

/-- The state in which the given calls have not been startled yet. -/
def undisturbed (s : LockState L) (E : Finset ℕ) : LockState L :=
  { s with waitSet := s.waitSet ∪ E }

/-- Who is in the wait set or has been startled is waiting. -/
def Sleeps (s : LockState L) (E : Finset ℕ) : Prop :=
  ∀ i ∈ s.waitSet ∪ E, ∃ message, s.calls i = .waiting message

theorem Sleeps.absent {phase : Phase} (hs : Sleeps s E) (hp : s.calls i = phase)
    (hn : ∀ message, phase ≠ .waiting message) : i ∉ s.waitSet ∪ E := by
  intro hi
  obtain ⟨message, hw⟩ := hs i hi
  exact hn message (hp.symm.trans hw)

/-- One call goes on. -/
theorem Sleeps.moved {phase : Phase} (hs : Sleeps s E)
    (hcalls : t.calls = Function.update s.calls i phase)
    (hothers : ∀ j ∈ t.waitSet ∪ F, j ≠ i → j ∈ s.waitSet ∪ E)
    (hi : i ∈ t.waitSet ∪ F → ∃ message, phase = .waiting message) : Sleeps t F := by
  intro j hj
  rw [hcalls]
  rcases eq_or_ne j i with rfl | hne
  · rw [Function.update_self]
    exact hi hj
  · rw [Function.update_of_ne hne]
    exact hs j (hothers j hj hne)

/-- A call that was not asleep goes on and does not fall asleep. -/
theorem Sleeps.passed {phase phase' : Phase} (hs : Sleeps s E) (hp : s.calls i = phase')
    (hn : ∀ message, phase' ≠ .waiting message)
    (hcalls : t.calls = Function.update s.calls i phase) (hw : t.waitSet = s.waitSet) :
    Sleeps t E := by
  refine hs.moved hcalls (fun j hj _ => by rwa [hw] at hj) ?_
  rw [hw]
  exact fun hi => absurd hi (hs.absent hp hn)

theorem Sleeps.call (hs : Sleeps s E) (fresh : s.calls i = .notMade) (requestQueue : Bytes)
    (message : Message) (receiveTimeOut : Int) :
    Sleeps (s.call i requestQueue message receiveTimeOut) E := by
  unfold LockState.call
  cases requestArm message s.client with
  | ok address client => exact hs.passed fresh nofun rfl rfl
  | error fault client => exact hs.passed fresh nofun rfl rfl

theorem undisturbed_call (s : LockState L) (E : Finset ℕ) (i : ℕ) (requestQueue : Bytes)
    (message : Message) (receiveTimeOut : Int) :
    undisturbed (s.call i requestQueue message receiveTimeOut) E =
      (undisturbed s E).call i requestQueue message receiveTimeOut := by
  unfold LockState.call undisturbed
  cases requestArm message s.client with
  | ok address client => rfl
  | error fault client => rfl

/-- Who is startled may be notified in the place of nobody. -/
theorem notify_union {W : Finset ℕ} (h : NotifyOne s.waitSet W) (E : Finset ℕ) :
    ∃ F ⊆ E, NotifyOne (s.waitSet ∪ E) (W ∪ F) ∧ W ⊆ s.waitSet := by
  rcases h with ⟨hs, rfl⟩ | ⟨w, hw, rfl⟩
  · rw [hs, Finset.empty_union]
    rcases E.eq_empty_or_nonempty with rfl | ⟨e, he⟩
    · exact ⟨∅, Finset.Subset.refl ∅, Or.inl ⟨rfl, rfl⟩, Finset.Subset.refl ∅⟩
    · refine ⟨E.erase e, Finset.erase_subset e E, Or.inr ⟨e, he, ?_⟩, Finset.Subset.refl ∅⟩
      rw [Finset.empty_union]
  · refine ⟨E.erase w, Finset.erase_subset w E, Or.inr ⟨w, Finset.mem_union_left E hw, ?_⟩,
      Finset.erase_subset w s.waitSet⟩
    rw [Finset.erase_union_distrib]

/-- A step takes nobody from their sleep, or it is a step of the state in which the
startled calls sleep on, or one of them leaves. -/
theorem undisturbed_step (hs : Sleeps s E) (h : LockStep s a t) :
    (∃ F, Sleeps t F ∧ t.client = s.client ∧ t.calls = s.calls ∧ t.handler = s.handler ∧
        t.invocations = s.invocations ∧ t.waitSet ∪ F = s.waitSet ∪ E) ∨
      (∃ F, Sleeps t F ∧ LockStep (undisturbed s E) a (undisturbed t F) ∧
        ∀ i, a ≠ .startle i) ∨
      ∃ i message, s.calls i = .waiting message ∧ i ∉ s.waitSet ∧ i ∈ E ∧
        t = s.leave i message false := by
  cases h with
  | @call i q message timeOut fresh =>
    refine Or.inr (Or.inl ⟨E, hs.call fresh q message timeOut, ?_, nofun⟩)
    rw [undisturbed_call]
    exact .call fresh
  | lock armed available =>
    exact Or.inr (Or.inl ⟨E, hs.passed armed nofun rfl rfl, .lock armed available, nofun⟩)
  | send locked => exact Or.inr (Or.inl ⟨E, hs.passed locked nofun rfl rfl, .send locked, nofun⟩)
  | sent sending => exact Or.inr (Or.inl ⟨E, hs.passed sending nofun rfl rfl, .sent sending, nofun⟩)
  | @wait i message sent =>
    refine Or.inr (Or.inl ⟨E, ?_, ?_, nofun⟩)
    · refine hs.moved rfl ?_ fun _ => ⟨message, rfl⟩
      intro j hj hne
      simpa [hne] using hj
    · have hw : undisturbed { s with
          calls := Function.update s.calls i (.waiting message)
          waitSet := insert i s.waitSet
          mutex := none } E = { undisturbed s E with
          calls := Function.update s.calls i (.waiting message)
          waitSet := insert i (s.waitSet ∪ E)
          mutex := none } := by
        simp [undisturbed]
      rw [hw]
      exact .wait sent
  | @expire i message waits =>
    refine Or.inr (Or.inl ⟨E.erase i, ?_, ?_, nofun⟩)
    · refine hs.moved rfl ?_ ?_
      · intro j hj hne
        simpa [hne] using hj
      · simp
    · have hw : undisturbed { s with
          calls := Function.update s.calls i (.expired message)
          waitSet := s.waitSet.erase i } (E.erase i) = { undisturbed s E with
          calls := Function.update s.calls i (.expired message)
          waitSet := (s.waitSet ∪ E).erase i } := by
        simp [undisturbed, Finset.erase_union_distrib]
      rw [hw]
      exact .expire waits
  | @startle i asleep =>
    have hw : s.waitSet.erase i ∪ insert i E = s.waitSet ∪ E := by
      rw [Finset.union_insert, ← Finset.insert_union, Finset.insert_erase asleep]
    exact Or.inl ⟨insert i E, fun j hj => hs j (hw ▸ hj), rfl, rfl, rfl, rfl, hw⟩
  | @ret i message waits woken available =>
    by_cases hi : i ∈ E
    · exact Or.inr (Or.inr ⟨i, message, waits, woken, hi, rfl⟩)
    · refine Or.inr (Or.inl ⟨E, ?_, .ret waits (by simp [undisturbed, woken, hi]) available, nofun⟩)
      refine hs.moved rfl (fun j hj _ => hj) fun hm => ?_
      rcases Finset.mem_union.mp hm with hm | hm
      · exact absurd hm woken
      · exact absurd hm hi
  | timeOut expired available =>
    exact Or.inr (Or.inl ⟨E, hs.passed expired nofun rfl rfl, .timeOut expired available, nofun⟩)
  | api defined => exact Or.inr (Or.inl ⟨E, hs, .api defined, nofun⟩)
  | stream idle handles => exact Or.inr (Or.inl ⟨E, hs, .stream idle handles, nofun⟩)
  | streamSkipped idle handles => exact Or.inr (Or.inl ⟨E, hs, .streamSkipped idle handles, nofun⟩)
  | compare idle decodes hit => exact Or.inr (Or.inl ⟨E, hs, .compare idle decodes hit, nofun⟩)
  | invoke idle decodes miss dispatches =>
    exact Or.inr (Or.inl ⟨E, hs, .invoke idle decodes miss dispatches, nofun⟩)
  | skipped idle decodes miss dispatches =>
    exact Or.inr (Or.inl ⟨E, hs, .skipped idle decodes miss dispatches, nofun⟩)
  | lockHandler found available =>
    exact Or.inr (Or.inl ⟨E, hs, .lockHandler found available, nofun⟩)
  | @store message W locked notify =>
    obtain ⟨F, hF, hnotify, hW⟩ := notify_union notify E
    refine Or.inr (Or.inl ⟨F, ?_, .store locked hnotify, nofun⟩)
    exact fun j hj => hs j (Finset.union_subset_union hW hF hj)

/-- The bus as the larger steps have it; startled calls are still asleep there. -/
def Refines (s : LockState L) (v : State L) : Prop :=
  Exclusive s ∧ ∃ E, Sleeps s E ∧ Abstracts (undisturbed s E) v

/-- A call that was startled leaves. -/
theorem startled_leaves {message : Message} (hs : Sleeps s E)
    (hv : Abstracts (undisturbed s E) v) (waits : s.calls i = .waiting message)
    (woken : i ∉ s.waitSet) (hi : i ∈ E) :
    ∃ v', LooseStep v (.leave i false) v' ∧ Sleeps (s.leave i message false) (E.erase i) ∧
      Abstracts (undisturbed (s.leave i message false) (E.erase i)) v' := by
  have hw := hv.mem_waitSet (s := undisturbed s E) waits rfl
  refine ⟨_, .spurious (hv.call_eq waits) (hw.mpr (Finset.mem_union_right _ hi)), ?_, ?_⟩
  · refine hs.moved rfl ?_ ?_
    · intro j hj hne
      change j ∈ s.waitSet ∪ E.erase i at hj
      simpa [hne] using hj
    · intro hm
      change i ∈ s.waitSet ∪ E.erase i at hm
      simp [woken] at hm
  · refine hv.moved hv.client rfl ?_ (fun j hj => ⟨?_, ?_⟩) ?_ hv.matched hv.invocations
    · have hclient : v.client = s.client := hv.client
      rw [← hclient]
      rfl
    · change j ∈ s.waitSet ∪ E.erase i ↔ j ∈ s.waitSet ∪ E
      simp [hj]
    · change j ∈ v.waitSet.erase i ↔ j ∈ v.waitSet
      simp [hj]
    · change i ∈ v.waitSet.erase i ↔ i ∈ s.waitSet ∪ E.erase i ∨ false = true
      simp [woken]

/-- Each step of the bus with its mutex is none or one of the other bus. -/
theorem lock_simulates_loose : Simulates Refines (LockStep (L := L)) LooseStep := by
  intro s a t v hR h
  obtain ⟨hx, E, hs, hv⟩ := hR
  rcases undisturbed_step hs h with ⟨F, ht, hclient, hcalls, hhandler, hinv, hw⟩ |
    ⟨F, ht, hstep, ha⟩ | ⟨i, message, waits, woken, hi, rfl⟩
  · refine ⟨[], v, .nil v, hx.step h, F, ht, hv.client.trans hclient.symm, ?_, ?_, ?_, ?_⟩
    · intro i
      rw [hv.calls i]
      exact congrArg ofPhase (congrFun hcalls.symm i)
    · intro i
      rw [hv.waitSet i]
      change i ∈ s.waitSet ∪ E ∨ leaving (s.calls i) = true ↔
        i ∈ t.waitSet ∪ F ∨ leaving (t.calls i) = true
      rw [hw, hcalls]
    · exact hv.matched.trans (congrArg Handler.message? hhandler.symm)
    · exact hv.invocations.trans hinv.symm
  · have hx' : Exclusive (undisturbed s E) := ⟨hx.caller, hx.listener⟩
    rcases lock_fine hx' hv ha hstep with hv' | ⟨b, v', hb, hv'⟩
    · exact ⟨[], v, .nil v, hx.step h, F, ht, hv'⟩
    · exact ⟨[b], v', .cons (.fine hb) (.nil v'), hx.step h, F, ht, hv'⟩
  · obtain ⟨v', hstep, ht, hv'⟩ := startled_leaves hs hv waits woken hi
    exact ⟨_, v', .cons hstep (.nil v'), hx.step h, _, ht, hv'⟩

/-- Splitting `request` and the handler where the mutex changes hands adds nothing: each
state that the threads can come to, also with waits that end for no reason, is one that
the bus of the larger steps can come to, with the same registrations, response and sent
messages, the same calls of listeners and every request as far as it has got. -/
theorem mutex_refined (h : Reachable LockState.Start LockStep s) :
    ∃ v, Reachable Start LooseStep v ∧ v.client = s.client ∧
      (∀ i, v.calls i = ofPhase (s.calls i)) ∧ v.matched = s.handler.message? ∧
      v.invocations = s.invocations := by
  have hstart : ∀ s : LockState L, s.Start → ∃ v, Start v ∧ Refines s v := by
    intro s hs
    obtain ⟨clientName, rfl⟩ := hs
    refine ⟨State.new clientName, ⟨clientName, rfl⟩, ⟨by simp [Phase.holds], by simp⟩, ∅, ?_,
      rfl, fun _ => rfl, ?_, rfl, rfl⟩
    · intro i hi
      simp at hi
    · intro i
      simp [State.new, leaving, undisturbed]
  obtain ⟨v, hv, _, E, _, ha⟩ := lock_simulates_loose.reachable hstart h
  exact ⟨v, hv, ha.client, ha.calls, ha.matched, ha.invocations⟩

open RoundTrip (question)

/-- A request that is startled and returns before there is a response. -/
theorem startled_call_refined : ∃ v : State Unit, Reachable Start LooseStep v ∧
    v.calls 0 = .returned question .empty := by
  let mlm : Mlm := ⟨true, true, true⟩
  let queue := lit "queue"
  let s₀ : LockState Unit :=
    ⟨.new (lit "client"), fun _ => .notMade, ∅, none, .idle, [], none, ∅, [], []⟩
  let s₁ := s₀.call 0 queue question 5
  let s₂ : LockState Unit := { s₁ with
    calls := Function.update s₁.calls 0 (.locked queue question 5 (lit "server"))
    mutex := some (.caller 0) }
  let s₃ : LockState Unit := { s₂ with
    client := final (requestSend mlm (lit "server") queue question 5 s₂.client)
    calls := Function.update s₂.calls 0 (.sending question) }
  let s₄ : LockState Unit := { s₃ with calls := Function.update s₃.calls 0 (.sent question) }
  let s₅ : LockState Unit := { s₄ with
    calls := Function.update s₄.calls 0 (.waiting question)
    waitSet := insert 0 s₄.waitSet
    mutex := none }
  let s₆ : LockState Unit := { s₅ with
    waitSet := s₅.waitSet.erase 0
    startled := insert 0 s₅.startled }
  let s₇ := s₆.leave 0 question false
  have hrun : Run LockStep s₀ [.call 0 queue question 5, .lock 0, .send 0 mlm, .sent 0, .wait 0,
      .startle 0, .leave 0] s₇ := by
    refine .cons (t := s₁) (.call rfl) ?_
    refine .cons (t := s₂) (.lock rfl rfl) ?_
    refine .cons (t := s₃) (.send rfl) ?_
    refine .cons (t := s₄) (.sent rfl) ?_
    refine .cons (t := s₅) (.wait rfl) ?_
    refine .cons (t := s₆) (.startle (by decide)) ?_
    exact .cons (.ret rfl (by decide) rfl) (.nil _)
  obtain ⟨v, hv, _, hcalls, _⟩ := mutex_refined ⟨s₀, _, ⟨lit "client", rfl⟩, hrun⟩
  exact ⟨v, hv, hcalls 0⟩

end Messagebus.Proofs.Refinement
