import Messagebus.Lib.Potential
import Messagebus.Locks
import Messagebus.Proofs.Correlation

namespace Messagebus.Proofs.Settling
open CondVar Frame Runs Proofs.Calls
open Proofs.Correlation (ask)

variable {L : Type} {s t : LockState L} {a : LockAction L} {i : ℕ}

def Handler.holds : Handler → Bool
  | .locked _ => true
  | _ => false

/-- The mutex is the caller's that has come as far as to hold it, or the listener's. -/
structure Owned (s : LockState L) : Prop where
  caller : ∀ i, (s.calls i).holds = true ↔ s.mutex = some (.caller i)
  listener : Handler.holds s.handler = true ↔ s.mutex = some .listener

theorem start_owned (h : s.Start) : Owned s := by
  obtain ⟨clientName, rfl⟩ := h
  exact ⟨fun i => ⟨nofun, nofun⟩, ⟨nofun, nofun⟩⟩

/-- One call moves on, and the mutex goes with it. -/
theorem Owned.move (hs : Owned s) {phase : Phase}
    (hcalls : t.calls = Function.update s.calls i phase)
    (hhandler : t.handler = s.handler)
    (hself : phase.holds = true ↔ t.mutex = some (.caller i))
    (hothers : ∀ o, o ≠ .caller i → (t.mutex = some o ↔ s.mutex = some o)) : Owned t := by
  refine ⟨?_, ?_⟩
  · intro j
    rw [hcalls]
    rcases eq_or_ne j i with rfl | hj
    · rw [Function.update_self]
      exact hself
    · rw [Function.update_of_ne hj, hs.caller j, hothers (.caller j) (by simpa using hj)]
  · rw [hhandler, hs.listener, hothers .listener (by simp)]

/-- A call that has no part in the mutex moves on. -/
theorem Owned.pass (hs : Owned s) {phase : Phase}
    (hcalls : t.calls = Function.update s.calls i phase)
    (hhandler : t.handler = s.handler) (hmutex : t.mutex = s.mutex)
    (hbefore : (s.calls i).holds = false) (hafter : phase.holds = false) : Owned t := by
  refine hs.move hcalls hhandler ?_ (fun o _ => by rw [hmutex])
  rw [hafter, hmutex, ← hs.caller i, hbefore]

/-- A call that has the mutex moves on and keeps it. -/
theorem Owned.keep (hs : Owned s) {phase : Phase}
    (hcalls : t.calls = Function.update s.calls i phase)
    (hhandler : t.handler = s.handler) (hmutex : t.mutex = s.mutex)
    (hbefore : (s.calls i).holds = true) (hafter : phase.holds = true) : Owned t := by
  refine hs.move hcalls hhandler ?_ (fun o _ => by rw [hmutex])
  rw [hafter, hmutex, ← hs.caller i, hbefore]

/-- The handler moves on. -/
theorem Owned.handle (hs : Owned s) (hcalls : t.calls = s.calls)
    (hself : Handler.holds t.handler = true ↔ t.mutex = some .listener)
    (hothers : ∀ i, t.mutex = some (.caller i) ↔ s.mutex = some (.caller i)) : Owned t := by
  refine ⟨?_, hself⟩
  intro j
  rw [hcalls, hs.caller j, hothers j]

theorem call_phase (s : LockState L) (i : ℕ) (requestQueue : Bytes) (message : Message)
    (receiveTimeOut : Int) : ∃ phase, phase.holds = false ∧
      (s.call i requestQueue message receiveTimeOut).calls = Function.update s.calls i phase ∧
      (s.call i requestQueue message receiveTimeOut).handler = s.handler ∧
      (s.call i requestQueue message receiveTimeOut).mutex = s.mutex := by
  unfold LockState.call
  cases requestArm message s.client with
  | ok address client => exact ⟨_, rfl, rfl, rfl, rfl⟩
  | error fault client => exact ⟨_, rfl, rfl, rfl, rfl⟩

theorem step_owned (hs : Owned s) (h : LockStep s a t) : Owned t := by
  have hlistener : s.mutex = none → Handler.holds s.handler = false := by
    intro hm
    rw [← Bool.not_eq_true, hs.listener, hm]
    nofun
  cases h with
  | @call i q message timeOut fresh =>
    obtain ⟨phase, hphase, hc, hh, hm⟩ := call_phase s i q message timeOut
    exact hs.pass hc hh hm (by rw [fresh]; rfl) hphase
  | lock armed available =>
    refine hs.move rfl rfl (by simp [Phase.holds]) ?_
    intro o ho
    simp [available, ho.symm]
  | send locked => exact hs.keep rfl rfl rfl (by rw [locked]; rfl) rfl
  | sent sending => exact hs.keep rfl rfl rfl (by rw [sending]; rfl) rfl
  | @wait i message sent =>
    refine hs.move rfl rfl (by simp [Phase.holds]) ?_
    intro o ho
    have hm : s.mutex = some (.caller i) := (hs.caller i).mp (by rw [sent]; rfl)
    simp [hm, ho.symm]
  | expire waits => exact hs.pass rfl rfl rfl (by rw [waits]; rfl) rfl
  | ret waits woken available => exact hs.pass rfl rfl rfl (by rw [waits]; rfl) rfl
  | timeOut expired available => exact hs.pass rfl rfl rfl (by rw [expired]; rfl) rfl
  | @compare subject content message idle decodes hit =>
    refine hs.handle rfl ?_ (fun _ => Iff.rfl)
    have hl := hs.listener
    rw [idle] at hl
    exact hl
  | lockHandler found available =>
    exact hs.handle rfl (by simp [Handler.holds]) (fun _ => by simp [available])
  | store locked notify =>
    have hm : s.mutex = some .listener := hs.listener.mp (by rw [locked]; rfl)
    exact hs.handle rfl (by simp [Handler.holds]) (fun _ => by simp [hm])
  | _ => exact ⟨hs.caller, hs.listener⟩

theorem reachable_owned (h : Reachable LockState.Start LockStep s) : Owned s :=
  h.invariant (fun _ => start_owned) fun _ _ _ => step_owned

/-- How many steps a call still takes at most. -/
def left : Phase → ℕ
  | .armed _ _ _ _ => 6
  | .locked _ _ _ _ => 5
  | .sending _ => 4
  | .sent _ => 3
  | .waiting _ => 2
  | .expired _ => 1
  | .notMade | .returned _ _ | .threw _ _ => 0

def Handler.left : Handler → ℕ
  | .matched _ => 2
  | .locked _ => 1
  | .idle => 0

theorem left_le (phase : Phase) : left phase ≤ 6 := by
  cases phase <;> simp [left]

theorem Handler.left_le (handler : Handler) : Handler.left handler ≤ 2 := by
  cases handler <;> simp [Handler.left]

theorem underway_iff (phase : Phase) : phase.underway = true ↔ 0 < left phase := by
  cases phase <;> simp [left, Phase.underway]

/-- The steps that the callers and the listener take with what they have begun. A wait
may time out; no call is made and no message comes in. -/
def own : LockAction L → Bool
  | .lock _ | .send _ _ | .sent _ | .wait _ | .expire _ | .leave _ | .lockHandler | .store => true
  | _ => false

def OwnStep : LockState L → LockAction L → LockState L → Prop :=
  restrict (fun _ a => own a = true) LockStep

/-- One of the calls gets on, or the handler does. -/
theorem own_change (h : OwnStep s a t) :
    (∃ i phase, t.calls = Function.update s.calls i phase ∧ t.handler = s.handler ∧
        left phase < left (s.calls i) ∧ phase ≠ .notMade) ∨
      (t.calls = s.calls ∧ Handler.left t.handler < Handler.left s.handler) := by
  obtain ⟨ha, hstep⟩ := h
  cases hstep with
  | lock armed available => exact Or.inl ⟨_, _, rfl, rfl, by simp [armed, left], nofun⟩
  | send locked => exact Or.inl ⟨_, _, rfl, rfl, by simp [locked, left], nofun⟩
  | sent sending => exact Or.inl ⟨_, _, rfl, rfl, by simp [sending, left], nofun⟩
  | wait sent => exact Or.inl ⟨_, _, rfl, rfl, by simp [sent, left], nofun⟩
  | expire waits => exact Or.inl ⟨_, _, rfl, rfl, by simp [waits, left], nofun⟩
  | ret waits woken available => exact Or.inl ⟨_, _, rfl, rfl, by simp [waits, left], nofun⟩
  | timeOut expired available => exact Or.inl ⟨_, _, rfl, rfl, by simp [expired, left], nofun⟩
  | lockHandler found available => exact Or.inr ⟨rfl, by simp [found, Handler.left]⟩
  | store locked notify => exact Or.inr ⟨rfl, by simp [locked, Handler.left]⟩
  | _ => cases ha

/-- All calls under way are among those meant. -/
def Spans (A : Finset ℕ) (s : LockState L) : Prop := ∀ i, (s.calls i).underway = true → i ∈ A

theorem own_spans {A : Finset ℕ} (hA : Spans A s) (h : OwnStep s a t) : Spans A t := by
  intro j hj
  rcases own_change h with ⟨i, phase, hcalls, _, hlt, _⟩ | ⟨hcalls, _⟩
  · rw [hcalls] at hj
    rcases eq_or_ne j i with rfl | hne
    · exact hA j ((underway_iff _).mpr (Nat.zero_lt_of_lt hlt))
    · rw [Function.update_of_ne hne] at hj
      exact hA j hj
  · rw [hcalls] at hj
    exact hA j hj

def toGo (A : Finset ℕ) (s : LockState L) : ℕ :=
  ∑ i ∈ A, left (s.calls i) + Handler.left s.handler

theorem toGo_le (A : Finset ℕ) (s : LockState L) : toGo A s ≤ 6 * A.card + 2 := by
  have hsum : ∑ i ∈ A, left (s.calls i) ≤ ∑ _ ∈ A, 6 := Finset.sum_le_sum fun i _ => left_le _
  rw [Finset.sum_const_nat fun _ _ => rfl] at hsum
  have hhandler := Handler.left_le s.handler
  unfold toGo
  omega

theorem own_wanes (A : Finset ℕ) :
    Wanes (restrict (fun s _ => Spans A s) (OwnStep (L := L))) (toGo A) := by
  intro s a t h
  obtain ⟨hA, hstep⟩ := h
  unfold toGo
  rcases own_change hstep with ⟨i, phase, hcalls, hhandler, hlt, _⟩ | ⟨hcalls, hlt⟩
  · have hmem : i ∈ A := hA i ((underway_iff _).mpr (Nat.zero_lt_of_lt hlt))
    have hsum := sum_change_le (f := fun j => left (s.calls j)) (g := fun j => left (t.calls j))
      (m := 1) (k := 0) hmem ?_ ?_
    · rw [hhandler]
      omega
    · intro j hj
      rw [hcalls, Function.update_of_ne hj]
    · rw [hcalls, Function.update_self]
      omega
  · rw [hcalls]
    omega

theorem own_run {A : Finset ℕ} (hA : Spans A s) {as : List (LockAction L)}
    (h : Run OwnStep s as t) : Run (restrict (fun s _ => Spans A s) OwnStep) s as t := by
  induction h with
  | nil => exact .nil _
  | cons head _ ih => exact .cons ⟨hA, head⟩ (ih (own_spans hA head))

/-- If nobody can go on, nobody has anything left to do. -/
theorem stuck_settled (hs : Owned s) (h : ∀ a t, ¬ OwnStep s a t) :
    s.mutex = none ∧ s.handler = .idle ∧ ∀ i, (s.calls i).underway = false := by
  have hcan : ∀ a t, own a = true → LockStep s a t → False := fun a t ha hstep => h a t ⟨ha, hstep⟩
  have hfree : s.mutex = none := by
    cases hm : s.mutex with
    | none => rfl
    | some o =>
      cases o with
      | caller i =>
        have hi := (hs.caller i).mpr hm
        cases hc : s.calls i with
        | locked q message timeOut address =>
          have hsend : LockStep s (.send i ⟨true, true, true⟩) _ := .send hc
          exact (hcan _ _ rfl hsend).elim
        | sending message => exact (hcan _ _ rfl (.sent hc)).elim
        | sent message => exact (hcan _ _ rfl (.wait hc)).elim
        | _ =>
          rw [hc] at hi
          cases hi
      | listener =>
        have hl := hs.listener.mpr hm
        cases hh : s.handler with
        | locked message =>
          obtain ⟨W, hW⟩ := NotifyOne.possible s.waitSet
          exact (hcan _ _ rfl (.store hh hW)).elim
        | _ =>
          rw [hh] at hl
          cases hl
  refine ⟨hfree, ?_, ?_⟩
  · cases hh : s.handler with
    | idle => rfl
    | matched message => exact (hcan _ _ rfl (.lockHandler hh hfree)).elim
    | locked message =>
      have hm := hs.listener.mp (by rw [hh]; rfl)
      cases hfree.symm.trans hm
  · intro i
    cases hc : s.calls i with
    | armed q message timeOut address => exact (hcan _ _ rfl (.lock hc hfree)).elim
    | waiting message => exact (hcan _ _ rfl (.expire hc)).elim
    | expired message => exact (hcan _ _ rfl (.timeOut hc hfree)).elim
    | locked | sending | sent =>
      have hm := (hs.caller i).mp (by rw [hc]; rfl)
      cases hfree.symm.trans hm
    | notMade | returned | threw => rfl

theorem own_made (h : OwnStep s a t) (hi : s.calls i ≠ .notMade) : t.calls i ≠ .notMade := by
  rcases own_change h with ⟨j, phase, hcalls, _, _, hphase⟩ | ⟨hcalls, _⟩
  · rw [hcalls]
    rcases eq_or_ne i j with rfl | hne
    · rw [Function.update_self]
      exact hphase
    · rw [Function.update_of_ne hne]
      exact hi
  · rw [hcalls]
    exact hi

theorem step_calls (h : LockStep s a t) :
    t.calls = s.calls ∨ ∃ i phase, t.calls = Function.update s.calls i phase := by
  cases h with
  | @call i q message timeOut fresh =>
    obtain ⟨phase, _, hc, _, _⟩ := call_phase s i q message timeOut
    exact Or.inr ⟨i, phase, hc⟩
  | lock | send | sent | wait | expire | ret | timeOut => exact Or.inr ⟨_, _, rfl⟩
  | _ => exact Or.inl rfl

/-- Finitely many calls have been made. -/
theorem reachable_spans (h : Reachable LockState.Start LockStep s) : ∃ A, Spans A s := by
  refine h.invariant (I := fun s => ∃ A, Spans A s) ?_ ?_
  · intro s hs
    obtain ⟨clientName, rfl⟩ := hs
    exact ⟨∅, nofun⟩
  · intro s a t hi hstep
    obtain ⟨A, hA⟩ := hi
    rcases step_calls hstep with hc | ⟨i, phase, hc⟩
    · exact ⟨A, fun j hj => hA j (by rwa [hc] at hj)⟩
    · refine ⟨insert i A, ?_⟩
      intro j hj
      rcases eq_or_ne j i with rfl | hne
      · exact Finset.mem_insert_self j A
      · rw [hc, Function.update_of_ne hne] at hj
        exact Finset.mem_insert_of_mem (hA j hj)

/-- Whatever requests are under way and wherever the listener is, nobody waits for
ever: left to themselves, and in whatever order they take turns, the threads come to
an end after a bounded number of steps, with the mutex free, the handler done and
every request returned or given up. -/
theorem threads_settle (h : Reachable LockState.Start LockStep s) :
    ∃ A : Finset ℕ, (∀ i, i ∈ A ↔ (s.calls i).underway = true) ∧
      (∃ as t, Run OwnStep s as t ∧ ∀ a u, ¬ OwnStep t a u) ∧
      ∀ as t, Run OwnStep s as t → as.length ≤ 6 * A.card + 2 ∧
        ((∀ a u, ¬ OwnStep t a u) → t.mutex = none ∧ t.handler = .idle ∧
          ∀ i ∈ A, ∃ message, (∃ response, t.calls i = .returned message response) ∨
            ∃ fault, t.calls i = .threw message fault) := by
  obtain ⟨B, hB⟩ := reachable_spans h
  let A := B.filter fun i => (s.calls i).underway = true
  have hA : ∀ i, i ∈ A ↔ (s.calls i).underway = true := by
    intro i
    rw [Finset.mem_filter]
    exact ⟨fun hi => hi.2, fun hi => ⟨hB i hi, hi⟩⟩
  have hspans : Spans A s := fun i => (hA i).mpr
  refine ⟨A, hA, ?_, ?_⟩
  · obtain ⟨as, t, hr, hstuck⟩ := (own_wanes A).ends s
    have ht : Spans A t := hr.invariant hspans fun _ _ _ hi hs => own_spans hi hs.2
    exact ⟨as, t, hr.map fun _ _ _ hs => hs.2, fun a u hs => hstuck a u ⟨ht, hs⟩⟩
  · intro as t hr
    have hlength := (own_wanes A).length_le (own_run hspans hr)
    have hbound := toGo_le A s
    refine ⟨by omega, ?_⟩
    intro hstuck
    have ht : Owned t := hr.invariant (reachable_owned h) fun _ _ _ hi hs => step_owned hi hs.2
    obtain ⟨hmutex, hhandler, hdone⟩ := stuck_settled ht hstuck
    refine ⟨hmutex, hhandler, ?_⟩
    intro i hi
    have hmade : t.calls i ≠ .notMade := by
      refine hr.invariant (I := fun t => t.calls i ≠ .notMade) ?_ fun _ _ _ hn hs => own_made hs hn
      intro hn
      have hu := (hA i).mp hi
      rw [hn] at hu
      cases hu
    have hover := hdone i
    cases hc : t.calls i with
    | notMade => exact absurd hc hmade
    | returned message response => exact ⟨message, Or.inl ⟨response, rfl⟩⟩
    | threw message fault => exact ⟨message, Or.inr ⟨fault, rfl⟩⟩
    | _ =>
      rw [hc] at hover
      cases hover

/-- A request that has passed its checks. -/
theorem armed_request_settles :
    ∃ t : LockState Unit, t.mutex = none ∧ ∃ message,
      (∃ response, t.calls 0 = .returned message response) ∨
        ∃ fault, t.calls 0 = .threw message fault := by
  let new : LockState Unit :=
    ⟨.new (lit "bus"), fun _ => .notMade, ∅, none, .idle, [], none, ∅, [], []⟩
  let armed := new.call 0 (lit "queue") (ask (lit "a")) 1
  have hstep : LockStep new (.call 0 (lit "queue") (ask (lit "a")) 1) armed := .call rfl
  obtain ⟨A, hA, ⟨as, t, hr, hstuck⟩, hall⟩ :=
    threads_settle (s := armed) ⟨new, _, ⟨lit "bus", rfl⟩, .cons hstep (.nil _)⟩
  obtain ⟨hmutex, _, hover⟩ := (hall as t hr).2 hstuck
  exact ⟨t, hmutex, hover 0 ((hA 0).mpr rfl)⟩

end Messagebus.Proofs.Settling
