import Messagebus.Locks
import Messagebus.Proofs.Correlation

namespace Messagebus.Proofs.Locks
open CondVar Frame Runs Proofs.Calls Proofs.Requests
open Proofs.Correlation (ask answer accepting)

variable {L : Type}

/-- The bus as the call made last sees it; `asleep` says that it is in the wait set. -/
structure Focus where
  phase : Phase
  asleep : Bool
  startled : Bool
  mutex : Option Owner
  handler : Handler
  uuid : Bytes
  compared : List Message
  stored : List Message

def focus (s : LockState L) : Focus where
  phase := match s.current with
    | some i => s.calls i
    | none => .notMade
  asleep := match s.current with
    | some i => decide (i ∈ s.waitSet)
    | none => false
  startled := match s.current with
    | some i => decide (i ∈ s.startled)
    | none => false
  mutex := s.mutex
  handler := s.handler
  uuid := s.client.bus.syncUuid
  compared := s.compared
  stored := s.stored

/-- The message may not come in before the request is sent. -/
def Allowed (f : Focus) (message : Message) : Prop :=
  f.phase.unsent = true → message.correlationId ≠ none → message.correlationId ≠ f.phase.uuid

/-- What the steps of the bus come to for that call. -/
inductive Turn (f : Focus) : Focus → Prop where
  | quiet : Turn f f
  | call {phase : Phase} {uuid : Bytes} {startled : Bool} (unsent : phase.unsent = true)
      (free : phase.holds = false)
      (named : phase.underway = true → ∃ id, id ≠ [] ∧ phase.uuid = some id)
      (fresh : ∀ m ∈ f.compared, phase.uuid ≠ none → m.correlationId ≠ phase.uuid) :
      Turn f { f with phase := phase, uuid := uuid, startled := startled, asleep := false }
  | lock {i : ℕ} {requestQueue address : Bytes} {message : Message} {receiveTimeOut : Int}
      (armed : f.phase = .armed requestQueue message receiveTimeOut address)
      (available : f.mutex = none) :
      Turn f { f with
        phase := .locked requestQueue message receiveTimeOut address
        mutex := some (.caller i) }
  | send {requestQueue address : Bytes} {message : Message} {receiveTimeOut : Int}
      (locked : f.phase = .locked requestQueue message receiveTimeOut address) :
      Turn f { f with phase := .sending message }
  | sent {message : Message} (sending : f.phase = .sending message) :
      Turn f { f with phase := .sent message }
  | wait {message : Message} (sent : f.phase = .sent message) :
      Turn f { f with phase := .waiting message, asleep := true, mutex := none }
  | expire {message : Message} (waits : f.phase = .waiting message) :
      Turn f { f with phase := .expired message, asleep := false }
  | startle : Turn f { f with asleep := false, startled := true }
  | ret {message response : Message} (waits : f.phase = .waiting message)
      (woken : f.asleep = false) : Turn f { f with phase := .returned message response }
  | timeOut {message : Message} (expired : f.phase = .expired message) :
      Turn f { f with phase := .threw message (.thrown "Request timed out.") }
  | compare {message : Message} (hit : message.correlationId = some f.uuid)
      (allowed : Allowed f message) :
      Turn f { f with handler := .matched message, compared := f.compared ++ [message] }
  | dispatch {message : Message} (allowed : Allowed f message) :
      Turn f { f with compared := f.compared ++ [message] }
  | lockHandler {message : Message} (found : f.handler = .matched message)
      (available : f.mutex = none) :
      Turn f { f with handler := .locked message, mutex := some .listener }
  | store {message : Message} (locked : f.handler = .locked message) :
      Turn f { f with
        uuid := []
        asleep := false
        mutex := none
        handler := .idle
        stored := f.stored ++ [message] }

/-- The call was notified of a response, and may have returned it. -/
def Focus.answered (f : Focus) : Prop :=
  f.startled = false ∧
    ((∃ message, f.phase = .waiting message) ∧ f.asleep = false ∨
      ∃ message response, f.phase = .returned message response)

/-- No response is notified early: the mutex belongs to one side, and before the
call has sent there is no message with its id. -/
structure Timely (f : Focus) : Prop where
  owned : f.phase.holds = true → ∃ i, f.mutex = some (.caller i)
  locked : ∀ message, f.handler = .locked message → f.mutex = some .listener
  pending : ∀ message, f.handler.message? = some message →
    message ∈ f.compared ∧ message.correlationId ≠ none
  named : (f.phase.underway = true ∨ ∃ message response, f.phase = .returned message response) →
    ∃ id, id ≠ [] ∧ f.phase.uuid = some id
  fresh : f.phase.unsent = true → f.phase.uuid ≠ none →
    ∀ message ∈ f.compared, message.correlationId ≠ f.phase.uuid
  stored : ∀ message ∈ f.stored, message ∈ f.compared
  unstored : f.phase.holds = true → ∀ message ∈ f.stored, message.correlationId ≠ f.phase.uuid
  answered : f.answered → f.phase.uuid ≠ some f.uuid ∧
    ∀ message, f.handler.message? = some message → message.correlationId ≠ f.phase.uuid

variable {f g : Focus}

theorem new_timely : Timely ⟨.notMade, false, false, none, .idle, [], [], []⟩ where
  owned h := by simp [Phase.holds] at h
  locked _ h := by cases h
  pending _ h := by cases h
  named h := by simp [Phase.underway] at h
  fresh h := by simp [Phase.unsent] at h
  stored _ h := by simp at h
  unstored h := by simp [Phase.holds] at h
  answered h := by simp [Focus.answered] at h

/-- The call moves on, and with it the mutex if one of the two takes or leaves it. -/
theorem Timely.proceed (hf : Timely f) (hu : f.phase.underway = true) {phase : Phase}
    {asleep : Bool} {mutex : Option Owner} (hm : phase.message? = f.phase.message?)
    (hs : phase.unsent = true → f.phase.unsent = true)
    (howned : phase.holds = true → ∃ i, mutex = some (.caller i))
    (hlocked : ∀ message, f.handler = .locked message → mutex = some .listener)
    (hstored : phase.holds = true → ∀ m ∈ f.stored, m.correlationId ≠ f.phase.uuid)
    (ha : ({ f with phase := phase, asleep := asleep } : Focus).answered → f.answered) :
    Timely { f with phase := phase, asleep := asleep, mutex := mutex } := by
  have hid : phase.uuid = f.phase.uuid := by simp [Phase.uuid, hm]
  refine ⟨howned, hlocked, hf.pending, ?_, ?_, hf.stored, ?_, ?_⟩
  · intro _
    rw [hid]
    exact hf.named (Or.inl hu)
  · intro h
    rw [hid]
    exact hf.fresh (hs h)
  · intro h
    rw [hid]
    exact hstored h
  · intro h
    rw [hid]
    exact hf.answered (ha h)

/-- Another message has come in. -/
theorem Timely.dispatch (hf : Timely f) {message : Message} (allowed : Allowed f message) :
    Timely { f with compared := f.compared ++ [message] } := by
  refine ⟨hf.owned, hf.locked, ?_, hf.named, ?_, ?_, hf.unstored, hf.answered⟩
  · intro m hm
    obtain ⟨hmem, hid⟩ := hf.pending m hm
    exact ⟨List.mem_append_left _ hmem, hid⟩
  · intro hu hne m hm
    rcases List.mem_append.mp hm with hm | hm
    · exact hf.fresh hu hne m hm
    · rw [List.mem_singleton.mp hm]
      by_cases hid : message.correlationId = none
      · rw [hid]
        exact hne.symm
      · exact allowed hu hid
  · intro m hm
    exact List.mem_append_left _ (hf.stored m hm)

/-- It has the id that is set. -/
theorem Timely.hit (hf : Timely f) {message : Message} (hm : message ∈ f.compared)
    (hid : message.correlationId = some f.uuid) :
    Timely { f with handler := .matched message } := by
  refine ⟨hf.owned, ?_, ?_, hf.named, hf.fresh, hf.stored, hf.unstored, ?_⟩
  · intro m h
    cases h
  · intro m h
    cases h
    exact ⟨hm, by simp [hid]⟩
  · intro h
    obtain ⟨hne, _⟩ := hf.answered h
    refine ⟨hne, ?_⟩
    intro m hm'
    cases hm'
    rw [hid]
    exact hne.symm

theorem Timely.lockHandler (hf : Timely f) {message : Message}
    (found : f.handler = .matched message) (available : f.mutex = none) :
    Timely { f with handler := .locked message, mutex := some .listener } := by
  have hpending : f.handler.message? = some message := by rw [found]; rfl
  refine ⟨?_, fun _ _ => rfl, ?_, hf.named, hf.fresh, hf.stored, hf.unstored, ?_⟩
  · intro h
    obtain ⟨i, hi⟩ := hf.owned h
    rw [available] at hi
    cases hi
  · intro m hm
    cases hm
    exact hf.pending message hpending
  · intro h
    obtain ⟨hne, hp⟩ := hf.answered h
    refine ⟨hne, ?_⟩
    intro m hm
    cases hm
    exact hp message hpending

/-- The call does not have the mutex while the listener stores. -/
theorem Timely.not_holds (hf : Timely f) {message : Message}
    (locked : f.handler = .locked message) : f.phase.holds = false := by
  rw [← Bool.not_eq_true]
  intro h
  obtain ⟨i, hi⟩ := hf.owned h
  rw [hf.locked message locked] at hi
  cases hi

theorem Timely.store (hf : Timely f) {message : Message} (locked : f.handler = .locked message) :
    Timely { f with
      uuid := []
      asleep := false
      mutex := none
      handler := .idle
      stored := f.stored ++ [message] } := by
  have hpending : f.handler.message? = some message := by rw [locked]; rfl
  have hfree := hf.not_holds locked
  refine ⟨?_, ?_, ?_, hf.named, hf.fresh, ?_, ?_, ?_⟩
  · intro h
    rw [hfree] at h
    cases h
  · intro m h
    cases h
  · intro m h
    cases h
  · intro m hm
    rcases List.mem_append.mp hm with hm | hm
    · exact hf.stored m hm
    · rw [List.mem_singleton.mp hm]
      exact (hf.pending message hpending).1
  · intro h
    rw [hfree] at h
    cases h
  · intro h
    obtain ⟨_, hphase⟩ := h
    have hnamed : f.phase.underway = true ∨
        ∃ message response, f.phase = .returned message response := by
      rcases hphase with ⟨⟨m, hm⟩, _⟩ | hr
      · change f.phase = _ at hm
        exact Or.inl (by rw [hm]; rfl)
      · exact Or.inr hr
    obtain ⟨id, hne, hid⟩ := hf.named hnamed
    refine ⟨?_, fun m hm => by cases hm⟩
    change f.phase.uuid ≠ some []
    rw [hid]
    simpa using hne

theorem Timely.turn (hf : Timely f) (h : Turn f g) : Timely g := by
  cases h with
  | quiet => exact hf
  | @call phase uuid startled unsent free named fresh =>
    have hover : ¬ ((∃ m, phase = .waiting m) ∨ ∃ m r, phase = .returned m r) := by
      intro h
      rcases h with ⟨m, rfl⟩ | ⟨m, r, rfl⟩
      · cases unsent
      · cases unsent
    refine ⟨?_, hf.locked, hf.pending, ?_, fun _ hne m hm => fresh m hm hne, hf.stored, ?_, ?_⟩
    · intro h
      cases free.symm.trans h
    · intro h
      rcases h with h | ⟨m, r, h⟩
      · exact named h
      · exact absurd (Or.inr ⟨m, r, h⟩) hover
    · intro h
      cases free.symm.trans h
    · intro h
      rcases h.2 with ⟨hw, _⟩ | hr
      · exact absurd (Or.inl hw) hover
      · exact absurd (Or.inr hr) hover
  | lock armed available =>
    have hu : f.phase.underway = true := by rw [armed]; rfl
    have hs : f.phase.unsent = true := by rw [armed]; rfl
    refine hf.proceed hu (by rw [armed]; rfl) (fun _ => hs) (fun _ => ⟨_, rfl⟩) ?_ ?_ ?_
    · intro m hm
      rw [hf.locked m hm] at available
      cases available
    · intro _ m hm
      obtain ⟨id, _, hid⟩ := hf.named (Or.inl hu)
      exact hf.fresh hs (by simp [hid]) m (hf.stored m hm)
    · simp [Focus.answered]
  | send locked =>
    have hh : f.phase.holds = true := by rw [locked]; rfl
    refine hf.proceed (by rw [locked]; rfl) (by rw [locked]; rfl) (by simp [Phase.unsent])
      (fun _ => hf.owned hh) hf.locked (fun _ => hf.unstored hh) ?_
    simp [Focus.answered]
  | sent sending =>
    have hh : f.phase.holds = true := by rw [sending]; rfl
    refine hf.proceed (by rw [sending]; rfl) (by rw [sending]; rfl) (by simp [Phase.unsent])
      (fun _ => hf.owned hh) hf.locked (fun _ => hf.unstored hh) ?_
    simp [Focus.answered]
  | wait sent =>
    have hh : f.phase.holds = true := by rw [sent]; rfl
    refine hf.proceed (by rw [sent]; rfl) (by rw [sent]; rfl) (by simp [Phase.unsent])
      (by simp [Phase.holds]) ?_ (by simp [Phase.holds]) ?_
    · intro m hm
      cases hh.symm.trans (hf.not_holds hm)
    · simp [Focus.answered]
  | expire waits =>
    refine hf.proceed (by rw [waits]; rfl) (by rw [waits]; rfl) (by simp [Phase.unsent])
      (by simp [Phase.holds]) hf.locked (by simp [Phase.holds]) ?_
    simp [Focus.answered]
  | startle => exact { hf with answered := by simp [Focus.answered] }
  | ret waits woken =>
    refine hf.proceed (by rw [waits]; rfl) (by rw [waits]; rfl) (by simp [Phase.unsent])
      (by simp [Phase.holds]) hf.locked (by simp [Phase.holds]) ?_
    intro h
    exact ⟨h.1, Or.inl ⟨⟨_, waits⟩, woken⟩⟩
  | timeOut expired =>
    refine hf.proceed (by rw [expired]; rfl) (by rw [expired]; rfl) (by simp [Phase.unsent])
      (by simp [Phase.holds]) hf.locked (by simp [Phase.holds]) ?_
    simp [Focus.answered]
  | compare hit allowed => exact (hf.dispatch allowed).hit (by simp) hit
  | dispatch allowed => exact hf.dispatch allowed
  | lockHandler found available => exact hf.lockHandler found available
  | store locked => exact hf.store locked

/-- Only the call made last is under way, and only a waiting call is in the wait set. -/
structure Single (s : LockState L) : Prop where
  current : ∀ i, (s.calls i).underway = true → s.current = some i
  asleep : ∀ i ∈ s.waitSet, ∃ message, s.calls i = .waiting message

section Step

variable {s t : LockState L} {i : ℕ} {requestQueue : Bytes} {message : Message}
  {receiveTimeOut : Int}

theorem Single.kept (hs : Single s) (hc : t.current = s.current) (hcalls : t.calls = s.calls)
    (hw : ∀ j ∈ t.waitSet, j ∈ s.waitSet) : Single t := by
  constructor
  · rw [hcalls, hc]
    exact hs.current
  · intro j hj
    rw [hcalls]
    exact hs.asleep j (hw j hj)

/-- A call that is under way goes on. -/
theorem Single.moved (hs : Single s) (hi : (s.calls i).underway = true) {phase : Phase}
    (hc : t.current = s.current) (hcalls : t.calls = Function.update s.calls i phase)
    (hp : i ∈ t.waitSet → ∃ message, phase = .waiting message)
    (hw : ∀ j ∈ t.waitSet, j = i ∨ j ∈ s.waitSet) : Single t := by
  constructor
  · intro j hj
    rw [hc]
    rcases eq_or_ne j i with rfl | hne
    · exact hs.current j hi
    · rw [hcalls, Function.update_of_ne hne] at hj
      exact hs.current j hj
  · intro j hj
    rw [hcalls]
    rcases eq_or_ne j i with rfl | hne
    · rw [Function.update_self]
      exact hp hj
    · rw [Function.update_of_ne hne]
      exact hs.asleep j ((hw j hj).resolve_left hne)

theorem Single.not_asleep (hs : Single s) {phase : Phase} (h : s.calls i = phase)
    (hp : ∀ message, phase ≠ .waiting message) : i ∉ s.waitSet := by
  intro hi
  obtain ⟨message, hm⟩ := hs.asleep i hi
  exact hp message (h.symm.trans hm)

theorem Single.call (hs : Single s) (hq : ∀ j, (s.calls j).underway = false)
    (requestQueue : Bytes) (message : Message) (receiveTimeOut : Int) :
    Single (s.call i requestQueue message receiveTimeOut) := by
  have hw : ∀ j, j ∉ s.waitSet := by
    intro j hj
    obtain ⟨m, hm⟩ := hs.asleep j hj
    have hu := hq j
    rw [hm] at hu
    cases hu
  have honly : ∀ phase j, (Function.update s.calls i phase j).underway = true →
      some i = some j := by
    intro phase j hj
    by_contra hne
    rw [Function.update_of_ne (fun he => hne (congrArg some he.symm)), hq j] at hj
    cases hj
  unfold LockState.call
  cases requestArm message s.client with
  | ok address client => exact ⟨honly _, fun j hj => absurd hj (hw j)⟩
  | error fault client => exact ⟨honly _, fun j hj => absurd hj (hw j)⟩

theorem Single.step {a : LockAction L} (hs : Single s) (ha : FreshIds s a)
    (h : LockStep s a t) : Single t := by
  cases h with
  | call fresh => exact hs.call ha.1 _ _ _
  | lock armed available =>
    have hnot := hs.not_asleep armed (by simp)
    exact hs.moved (by rw [armed]; rfl) rfl rfl (fun hi => absurd hi hnot) (fun j => Or.inr)
  | send locked =>
    have hnot := hs.not_asleep locked (by simp)
    exact hs.moved (by rw [locked]; rfl) rfl rfl (fun hi => absurd hi hnot) (fun j => Or.inr)
  | sent sending =>
    have hnot := hs.not_asleep sending (by simp)
    exact hs.moved (by rw [sending]; rfl) rfl rfl (fun hi => absurd hi hnot) (fun j => Or.inr)
  | wait sent =>
    exact hs.moved (by rw [sent]; rfl) rfl rfl (fun _ => ⟨_, rfl⟩)
      (fun j => Finset.mem_insert.mp)
  | expire waits =>
    exact hs.moved (by rw [waits]; rfl) rfl rfl
      (fun hi => absurd hi (Finset.notMem_erase _ _))
      (fun j hj => Or.inr (Finset.mem_of_mem_erase hj))
  | startle asleep => exact hs.kept rfl rfl (fun j => Finset.mem_of_mem_erase)
  | ret waits woken available =>
    exact hs.moved (by rw [waits]; rfl) rfl rfl (fun hi => absurd hi woken) (fun j => Or.inr)
  | timeOut expired available =>
    have hnot := hs.not_asleep expired (by simp)
    exact hs.moved (by rw [expired]; rfl) rfl rfl (fun hi => absurd hi hnot) (fun j => Or.inr)
  | store locked notify => exact hs.kept rfl rfl (fun j hj => notify.subset hj)
  | _ => exact hs.kept rfl rfl (fun j hj => hj)

theorem leave_ret (s : LockState L) (i : ℕ) (message : Message) :
    s.leave i message false =
      { s with
        calls := Function.update s.calls i (.returned message s.client.bus.syncResponse) } := rfl

theorem leave_timeOut (s : LockState L) (i : ℕ) (message : Message) :
    s.leave i message true =
      { s with
        calls := Function.update s.calls i (.threw message (.thrown "Request timed out.")) } := rfl

/-- The call made last is the one in focus. -/
theorem focus_phase (hc : s.current = some i) : (focus s).phase = s.calls i := by
  simp [focus, hc]

theorem call_turn (ha : FreshIds s (.call i requestQueue message receiveTimeOut))
    (hs : Single s) :
    Turn (focus s) (focus (s.call i requestQueue message receiveTimeOut)) := by
  obtain ⟨hq, hfresh⟩ := ha
  have hasleep : i ∉ s.waitSet := by
    intro hi
    obtain ⟨m, hm⟩ := hs.asleep i hi
    have hu := hq i
    rw [hm] at hu
    cases hu
  have hid : ∀ m ∈ s.compared, message.correlationId ≠ none →
      m.correlationId ≠ message.correlationId := fun m hm hne => hfresh m hm hne
  unfold LockState.call
  rcases requestArm_cases message s.client with
    ⟨_, he⟩ | ⟨uuid, hu, hne, ⟨_, he⟩ | ⟨address, _, _, he⟩⟩
  · rw [he]
    have hf : Turn (focus s) { focus s with
        phase := .threw message (.thrown "Request must have a correlation id.")
        uuid := s.client.bus.syncUuid
        startled := decide (i ∈ s.startled)
        asleep := false } :=
      .call (by simp [Phase.unsent]) rfl (by simp [Phase.underway]) hid
    simpa [focus, hasleep] using hf
  · rw [he]
    have hf : Turn (focus s) { focus s with
        phase := .threw message (.thrown "Request must have a to field.")
        uuid := uuid
        startled := decide (i ∈ s.startled)
        asleep := false } :=
      .call (by simp [Phase.unsent]) rfl (by simp [Phase.underway]) hid
    simpa [focus, hasleep] using hf
  · rw [he]
    have hf : Turn (focus s) { focus s with
        phase := .armed requestQueue message receiveTimeOut address
        uuid := uuid
        startled := decide (i ∈ s.startled)
        asleep := false } :=
      .call rfl rfl (fun _ => ⟨uuid, hne, hu⟩) hid
    simpa [focus, hasleep] using hf

/-- A notification leaves nobody in the wait set. -/
theorem Single.notified (hs : Single s) {W : Finset ℕ} (notify : NotifyOne s.waitSet W) (j : ℕ) :
    j ∉ W := by
  intro hj
  rcases notify with ⟨_, rfl⟩ | ⟨w, hw, rfl⟩
  · simp at hj
  · obtain ⟨hne, hj⟩ := Finset.mem_erase.mp hj
    obtain ⟨m, hm⟩ := hs.asleep j hj
    obtain ⟨m', hm'⟩ := hs.asleep w hw
    have hcj := hs.current j (by rw [hm]; rfl)
    have hcw := hs.current w (by rw [hm']; rfl)
    exact hne (Option.some.inj (hcj.symm.trans hcw))

/-- A message that comes in keeps to the order of sending and answering. -/
theorem mailbox_allowed {subject : Bytes} {content : Zmsg}
    (ha : FreshIds s (.mailbox subject content)) (hd : fromZmsg content = .ok message) :
    Allowed (focus s) message := by
  intro hu hne
  cases hc : s.current with
  | none => simp [focus, hc, Phase.unsent] at hu
  | some i =>
    rw [focus_phase hc] at hu ⊢
    exact ha message hd i hc hu hne

/-- Every step of the bus is a turn of the call made last. -/
theorem focus_turn {a : LockAction L} (hs : Single s) (ha : FreshIds s a)
    (h : LockStep s a t) : Turn (focus s) (focus t) := by
  cases h with
  | call fresh => exact call_turn ha hs
  | @lock i _ _ _ _ armed available =>
    have hc := hs.current i (by rw [armed]; rfl)
    have ht := Turn.lock (i := i) ((focus_phase hc).trans armed) available
    simpa [focus, hc] using ht
  | @send i mlm _ _ _ _ locked =>
    have hc := hs.current i (by rw [locked]; rfl)
    have ht := Turn.send ((focus_phase hc).trans locked)
    simpa [focus, hc, requestSend_eq, final] using ht
  | @sent i _ sending =>
    have hc := hs.current i (by rw [sending]; rfl)
    have ht := Turn.sent ((focus_phase hc).trans sending)
    simpa [focus, hc] using ht
  | @wait i _ sent =>
    have hc := hs.current i (by rw [sent]; rfl)
    have ht := Turn.wait ((focus_phase hc).trans sent)
    simpa [focus, hc] using ht
  | @expire i _ waits =>
    have hc := hs.current i (by rw [waits]; rfl)
    have ht := Turn.expire ((focus_phase hc).trans waits)
    simpa [focus, hc] using ht
  | @startle i asleep =>
    obtain ⟨m, hm⟩ := hs.asleep i asleep
    have hc := hs.current i (by rw [hm]; rfl)
    have ht := Turn.startle (f := focus s)
    simpa [focus, hc] using ht
  | @ret i _ waits woken available =>
    have hc := hs.current i (by rw [waits]; rfl)
    have ht : Turn (focus s) { focus s with phase := .returned _ s.client.bus.syncResponse } :=
      .ret ((focus_phase hc).trans waits) (by simp [focus, hc, woken])
    rw [leave_ret]
    simpa [focus, hc] using ht
  | @timeOut i _ expired available =>
    have hc := hs.current i (by rw [expired]; rfl)
    have ht := Turn.timeOut ((focus_phase hc).trans expired)
    rw [leave_timeOut]
    simpa [focus, hc] using ht
  | @api mlm call defined =>
    obtain ⟨_, hu, _⟩ := api_sends mlm call s.client
    have he : focus { s with client := final (call.run mlm s.client) } = focus s := by
      simp only [focus, hu]
    rw [he]
    exact .quiet
  | stream idle handles =>
    cases stream_sync handles
    exact .quiet
  | streamSkipped idle handles =>
    cases stream_sync handles
    exact .quiet
  | compare idle decodes hit =>
    exact .compare ((syncMatch_iff _ _).mp hit).2 (mailbox_allowed ha decodes)
  | @invoke _ _ client _ message called idle decodes miss dispatches =>
    have ht := Turn.dispatch (mailbox_allowed ha decodes)
    simpa only [focus, dispatch_sync dispatches] using ht
  | @skipped _ _ client message idle decodes miss dispatches =>
    have ht := Turn.dispatch (mailbox_allowed ha decodes)
    simpa only [focus, dispatch_sync dispatches] using ht
  | lockHandler found available => exact .lockHandler found available
  | @store message W locked notify =>
    have hnone := hs.notified notify
    have huuid : (final (storeResponse message s.client)).bus.syncUuid = [] := rfl
    have ht := Turn.store (f := focus s) locked
    cases hc : s.current with
    | none => simpa [focus, hc, huuid] using ht
    | some i => simpa [focus, hc, hnone, huuid] using ht

end Step

theorem reachable_timely {s : LockState L}
    (h : Reachable LockState.Start (restrict FreshIds LockStep) s) :
    Single s ∧ Timely (focus s) := by
  refine h.invariant (I := fun s => Single s ∧ Timely (focus s)) ?_ ?_
  · intro s hs
    obtain ⟨clientName, rfl⟩ := hs
    refine ⟨⟨?_, ?_⟩, new_timely⟩
    · intro i hi
      simp [Phase.underway] at hi
    · intro i hi
      simp at hi
  · intro s a t hi hs
    exact ⟨hi.1.step hs.1 hs.2, hi.2.turn (focus_turn hi.1 hs.1 hs.2)⟩

/-- The wait is over because of its timeout, and the call may have thrown. -/
def TimedOut (s : LockState L) (i : ℕ) : Prop :=
  (∃ message, s.calls i = .expired message) ∨
    ∃ message, s.calls i = .threw message (.thrown "Request timed out.")

/-- Whenever the listener stores a message with the id of the request made last, that
one waits or has timed out (unless its wait has ended for no reason); and when it
enters the wait, no such message has been stored. -/
theorem never_too_early {s t : LockState L} {i : ℕ}
    (h : Reachable LockState.Start (restrict FreshIds LockStep) s) (hi : s.current = some i) :
    (∀ message, s.handler = .locked message → LockStep s .store t →
      message.correlationId = (s.calls i).uuid → i ∉ s.startled →
        (∃ request, s.calls i = .waiting request) ∧ i ∈ s.waitSet ∨ TimedOut s i) ∧
      (LockStep s (.wait i) t →
        ∀ message ∈ s.stored, message.correlationId ≠ (s.calls i).uuid) := by
  obtain ⟨hs, hf⟩ := reachable_timely h
  have hphase := focus_phase hi
  constructor
  · intro message locked _ hid hnot
    have hlocked : (focus s).handler = .locked message := locked
    obtain ⟨hmem, hne⟩ := hf.pending message (by rw [hlocked]; rfl)
    have hfree := hf.not_holds hlocked
    have hsent : (s.calls i).unsent = false := by
      rw [← hphase, ← Bool.not_eq_true]
      intro hu
      rw [hid, ← hphase] at hne
      exact hf.fresh hu hne message hmem (hphase ▸ hid)
    have hopen : ¬ (focus s).answered := by
      intro ha
      exact (hf.answered ha).2 message (by rw [hlocked]; rfl) (hphase ▸ hid)
    have hstartled : (focus s).startled = false := by simp [focus, hi, hnot]
    rw [hphase] at hfree
    cases hp : s.calls i with
    | notMade =>
      rw [hid, hp] at hne
      exact absurd rfl hne
    | armed => simp [hp, Phase.unsent] at hsent
    | locked => simp [hp, Phase.unsent] at hsent
    | sending => simp [hp, Phase.holds] at hfree
    | sent => simp [hp, Phase.holds] at hfree
    | waiting request =>
      refine Or.inl ⟨⟨request, rfl⟩, ?_⟩
      by_contra hw
      exact hopen ⟨hstartled, Or.inl ⟨⟨request, hphase.trans hp⟩, by simp [focus, hi, hw]⟩⟩
    | expired request => exact Or.inr (Or.inl ⟨request, hp⟩)
    | returned request response =>
      exact absurd ⟨hstartled, Or.inr ⟨request, response, hphase.trans hp⟩⟩ hopen
    | threw request fault =>
      have hfault : fault = .thrown "Request timed out." := by
        simpa [hp, Phase.unsent] using hsent
      exact Or.inr (Or.inr ⟨request, hfault ▸ hp⟩)
  · intro hwait message hmem
    cases hwait with
    | wait sent =>
      rw [← hphase]
      exact hf.unstored (by rw [hphase, sent]; rfl) message hmem

/-- A response that comes in while `mlm_client_sendto` is still running. -/
theorem prompt_response_in_time :
    ∃ s : LockState Unit, s.handler = .locked (answer (lit "a")) ∧
      ((∃ request, s.calls 0 = .waiting request) ∧ 0 ∈ s.waitSet ∨ TimedOut s 0) := by
  let queue := lit "queue"
  let new : LockState Unit :=
    ⟨.new (lit "bus"), fun _ => .notMade, ∅, none, .idle, [], none, ∅, [], []⟩
  let armed := new.call 0 queue (ask (lit "a")) 1
  let locked : LockState Unit :=
    { armed with
      calls := Function.update armed.calls 0 (.locked queue (ask (lit "a")) 1 (lit "peer"))
      mutex := some (.caller 0) }
  let sending : LockState Unit :=
    { locked with
      client := final (requestSend accepting (lit "peer") queue (ask (lit "a")) 1 locked.client)
      calls := Function.update locked.calls 0 (.sending (ask (lit "a"))) }
  let matched : LockState Unit :=
    { sending with handler := .matched (answer (lit "a")), compared := [answer (lit "a")] }
  let sent : LockState Unit :=
    { matched with calls := Function.update matched.calls 0 (.sent (ask (lit "a"))) }
  let waits : LockState Unit :=
    { sent with
      calls := Function.update sent.calls 0 (.waiting (ask (lit "a")))
      waitSet := insert 0 sent.waitSet
      mutex := none }
  let storing : LockState Unit :=
    { waits with handler := .locked (answer (lit "a")), mutex := some .listener }
  have hrun : Run (restrict FreshIds LockStep) new
      [.call 0 queue (ask (lit "a")) 1, .lock 0, .send 0 accepting,
        .mailbox queue (toZmsg (answer (lit "a"))), .sent 0, .wait 0, .lockHandler] storing := by
    refine .cons (t := armed) ⟨⟨fun _ => rfl, by simp [new]⟩, .call rfl⟩ ?_
    refine .cons (t := locked) ⟨trivial, .lock rfl rfl⟩ ?_
    refine .cons (t := sending) ⟨trivial, .send rfl⟩ ?_
    refine .cons (t := matched) ⟨?_, .compare rfl rfl rfl⟩ ?_
    · intro m _ i hi hu
      cases hi
      cases hu
    refine .cons (t := sent) ⟨trivial, .sent rfl⟩ ?_
    refine .cons (t := waits) ⟨trivial, .wait rfl⟩ ?_
    exact .cons (t := storing) ⟨trivial, .lockHandler rfl rfl⟩ (.nil _)
  have hstore := LockStep.store (s := storing) rfl (Or.inr ⟨0, by decide, rfl⟩)
  refine ⟨storing, rfl, ?_⟩
  exact (never_too_early ⟨_, _, ⟨_, rfl⟩, hrun⟩ rfl).1 _ rfl hstore rfl (by decide)

end Messagebus.Proofs.Locks
