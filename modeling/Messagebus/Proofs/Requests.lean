import Messagebus.Proofs.Calls
import Messagebus.Threads

namespace Messagebus.Proofs.Requests
open CondVar Frame Proofs.Calls

variable {L : Type}

/-- The synchronous protocol on its own: the members that `request` shares with the
listener thread, and the calls under way. -/
structure Sync where
  uuid : Bytes
  response : Message
  calls : ℕ → Call
  waitSet : Finset ℕ
  matched : Option Message

def sync (s : State L) : Sync :=
  ⟨s.client.bus.syncUuid, s.client.bus.syncResponse, s.calls, s.waitSet, s.matched⟩

def Sync.new : Sync := ⟨[], .empty, fun _ => .notMade, ∅, none⟩

theorem sync_new {s : State L} (h : Start s) : sync s = .new := by
  obtain ⟨clientName, rfl⟩ := h
  rfl

/-- A rule for when a request may be made. -/
abbrev Rule := Sync → ℕ → Message → Prop

/-- No call has the id of the message yet. -/
def Unused : Rule := fun v i message =>
  ∀ j, j ≠ i → message.correlationId ≠ none → (v.calls j).uuid ≠ message.correlationId

/-- Besides, no call is under way. -/
def Quiet : Rule := fun v i message => (∀ j, (v.calls j).underway = false) ∧ Unused v i message

/-- What the threads do to the shared members. A call which throws after its id
is written leaves the id behind. -/
inductive Turn (rule : Rule) (v : Sync) : Sync → Prop where
  | other : Turn rule v v
  | refuse {i : ℕ} {message : Message} {fault : Fault} (fresh : v.calls i = .notMade)
      (ok : rule v i message) :
      Turn rule v { v with calls := Function.update v.calls i (.threw message fault) }
  | reject {i : ℕ} {message : Message} {fault : Fault} {uuid : Bytes}
      (fresh : v.calls i = .notMade) (ok : rule v i message)
      (id : message.correlationId = some uuid) (named : uuid ≠ []) :
      Turn rule v
        { v with uuid := uuid, calls := Function.update v.calls i (.threw message fault) }
  | arm {i : ℕ} {message : Message} {uuid requestQueue address : Bytes} {receiveTimeOut : Int}
      (fresh : v.calls i = .notMade) (ok : rule v i message)
      (id : message.correlationId = some uuid) (named : uuid ≠ []) :
      Turn rule v
        { v with
          uuid := uuid
          calls := Function.update v.calls i (.armed requestQueue message receiveTimeOut address) }
  | send {i : ℕ} {message : Message} {requestQueue address : Bytes} {receiveTimeOut : Int}
      (armed : v.calls i = .armed requestQueue message receiveTimeOut address) :
      Turn rule v
        { v with
          calls := Function.update v.calls i (.waiting message), waitSet := insert i v.waitSet }
  | ret {i : ℕ} {message : Message} (waits : v.calls i = .waiting message)
      (notified : i ∉ v.waitSet) :
      Turn rule v
        { v with
          calls := Function.update v.calls i (.returned message v.response)
          waitSet := v.waitSet.erase i }
  | timeOut {i : ℕ} {message : Message} {fault : Fault} (waits : v.calls i = .waiting message) :
      Turn rule v
        { v with
          calls := Function.update v.calls i (.threw message fault)
          waitSet := v.waitSet.erase i }

/-- The handler of mailbox messages as one turn. -/
inductive HandlerTurn (rule : Rule) (v : Sync) : Sync → Prop where
  | thread {v' : Sync} (turn : Turn rule v v') : HandlerTurn rule v v'
  | response {message : Message} {W : Finset ℕ} (named : v.uuid ≠ [])
      (hit : message.correlationId = some v.uuid) (notify : NotifyOne v.waitSet W) :
      HandlerTurn rule v { v with response := message, uuid := [], waitSet := W }

/-- The handler in two turns. -/
inductive FineTurn (rule : Rule) (v : Sync) : Action L → Sync → Prop where
  | thread {v' : Sync} {a : Action L} (turn : Turn rule v v') : FineTurn rule v a v'
  | compare {a : Action L} {message : Message} (idle : v.matched = none) (named : v.uuid ≠ [])
      (hit : message.correlationId = some v.uuid) :
      FineTurn rule v a { v with matched := some message }
  | store {message : Message} {W : Finset ℕ} (pending : v.matched = some message)
      (notify : NotifyOne v.waitSet W) :
      FineTurn rule v .store { v with response := message, uuid := [], waitSet := W, matched := none }

theorem syncMatch_iff (bus : Bus L) (message : Message) :
    syncMatch bus message = true ↔
      bus.syncUuid ≠ [] ∧ message.correlationId = some bus.syncUuid := by
  unfold syncMatch
  exact decide_eq_true_iff

theorem leave_ret (s : State L) (i : ℕ) (message : Message) :
    s.leave i message false =
      { s with
        calls := Function.update s.calls i (.returned message s.client.bus.syncResponse)
        waitSet := s.waitSet.erase i } := rfl

theorem dispatch_sync {subject : Bytes} {message : Message} {c c' : Client L} {handled : Handled L}
    (h : dispatchMailbox subject message c = .ok handled c') : c'.bus = c.bus := by
  rw [dispatchMailbox_eq] at h
  cases hf : c.bus.subscriptions.find subject with
  | none =>
    simp only [hf] at h
    cases h
    rfl
  | some listener =>
    simp only [hf] at h
    cases h
    rfl

theorem stream_sync {subject : Bytes} {content : Zmsg} {c c' : Client L} {handled : Handled L}
    (h : listenerHandleStream subject content c = .ok handled c') : c' = c := by
  cases hd : fromZmsg content with
  | error fault =>
    rw [(handlers_fault subject c hd).2] at h
    cases h
  | ok message =>
    rw [listenerHandleStream_eq subject c hd] at h
    cases hf : c.bus.subscriptions.find subject with
    | none =>
      simp only [hf] at h
      cases h
      rfl
    | some listener =>
      simp only [hf] at h
      cases h
      rfl

theorem call_turn {rule : Rule} {s : State L} {i : ℕ} {message : Message} (requestQueue : Bytes)
    (receiveTimeOut : Int) (fresh : s.calls i = .notMade) (ok : rule (sync s) i message) :
    Turn rule (sync s) (sync (s.call i requestQueue message receiveTimeOut)) := by
  unfold State.call
  rcases requestArm_cases message s.client with
    ⟨_, he⟩ | ⟨uuid, hid, hne, ⟨_, he⟩ | ⟨address, _, _, he⟩⟩
  · rw [he]
    exact .refuse fresh ok
  · rw [he]
    exact .reject fresh ok hid hne
  · rw [he]
    exact .arm fresh ok hid hne

/-- The other calls leave the protocol alone. -/
theorem api_sync (s : State L) (mlm : Mlm) (call : ApiCall L) :
    sync { s with client := final (call.run mlm s.client) } = sync s := by
  obtain ⟨_, hu, hr, _⟩ := api_sends mlm call s.client
  simp only [sync, hu, hr]

/-- The threads keep to the protocol. -/
theorem thread_turn {rule : Rule} {s t : State L} {a : Action L} (h : ThreadStep s a t)
    (ok : ∀ i q m timeOut, a = .call i q m timeOut → rule (sync s) i m) :
    Turn rule (sync s) (sync t) := by
  cases h with
  | call fresh => exact call_turn _ _ fresh (ok _ _ _ _ rfl)
  | send armed => exact .send armed
  | ret waits notified => exact .ret waits notified
  | timeOut waits => exact .timeOut waits
  | api defined =>
    rw [api_sync]
    exact .other
  | stream idle handles =>
    cases stream_sync handles
    exact .other
  | streamSkipped idle handles =>
    cases stream_sync handles
    exact .other

theorem dispatch_not_response {subject : Bytes} {message m : Message} {c c' : Client L} :
    dispatchMailbox subject message c ≠ .ok (.response m) c' := by
  intro h
  rw [dispatchMailbox_eq] at h
  cases hf : c.bus.subscriptions.find subject with
  | none =>
    simp only [hf] at h
    cases h
  | some listener =>
    simp only [hf] at h
    cases h

theorem mailbox_decodes {s t : State L} {subject : Bytes} {content : Zmsg}
    (h : Step s (.mailbox subject content) t) : ∃ message, fromZmsg content = .ok message := by
  cases hd : fromZmsg content with
  | ok message => exact ⟨message, rfl⟩
  | error fault =>
    have heq := (handlers_fault subject s.client hd).1
    cases h with
    | thread h => cases h
    | response handles notify => cases heq.symm.trans handles
    | invoke handles => cases heq.symm.trans handles
    | skipped handles => cases heq.symm.trans handles

/-- A message that matches is stored, and one waiting call is woken. -/
theorem match_step {s t : State L} {subject : Bytes} {content : Zmsg} {message : Message}
    (hd : fromZmsg content = .ok message) (hm : syncMatch s.client.bus message = true) :
    Step s (.mailbox subject content) t ↔ ∃ W, NotifyOne s.waitSet W ∧
      t = { s with
        client := { s.client with
          bus := { s.client.bus with syncResponse := message, syncUuid := [] } }
        waitSet := W } := by
  have heq := listenerHandleMailbox_eq subject s.client hd
  rw [if_pos hm] at heq
  constructor
  · intro h
    cases h with
    | thread h => cases h
    | response handles notify =>
      rw [heq] at handles
      cases handles
      exact ⟨_, notify, rfl⟩
    | invoke handles =>
      rw [heq] at handles
      cases handles
    | skipped handles =>
      rw [heq] at handles
      cases handles
  · intro h
    obtain ⟨W, hW, rfl⟩ := h
    exact .response heq hW

/-- A message that does not match leaves the protocol alone. -/
theorem miss_step {s : State L} (subject : Bytes) {content : Zmsg} {message : Message}
    (hd : fromZmsg content = .ok message) (hm : syncMatch s.client.bus message = false) :
    (∃ t, Step s (.mailbox subject content) t) ∧
      ∀ t, Step s (.mailbox subject content) t → sync t = sync s := by
  have heq := listenerHandleMailbox_eq subject s.client hd
  rw [hm, if_neg Bool.false_ne_true] at heq
  constructor
  · rw [dispatchMailbox_eq] at heq
    cases hf : s.client.bus.subscriptions.find subject with
    | none =>
      simp only [hf] at heq
      exact ⟨_, .skipped heq⟩
    | some listener =>
      simp only [hf] at heq
      exact ⟨_, .invoke heq⟩
  · intro t h
    cases h with
    | thread h => cases h
    | response handles notify => exact absurd (heq.symm.trans handles) dispatch_not_response
    | invoke handles => simp only [sync, State.invoke, dispatch_sync (heq.symm.trans handles)]
    | skipped handles => simp only [sync, dispatch_sync (heq.symm.trans handles)]

/-- A message that does not match goes to the listener of its subject. -/
theorem dispatch_step {s t : State L} {subject : Bytes} {content : Zmsg} {message : Message}
    {listener : L} (hd : fromZmsg content = .ok message)
    (hm : syncMatch s.client.bus message = false)
    (hl : s.client.bus.subscriptions.find subject = some listener) :
    Step s (.mailbox subject content) t ↔ t = s.invoke s.client listener message := by
  have heq := listenerHandleMailbox_eq subject s.client hd
  rw [hm, if_neg Bool.false_ne_true, dispatchMailbox_eq, hl] at heq
  constructor
  · intro h
    cases h with
    | thread h => cases h
    | response handles notify => cases heq.symm.trans handles
    | invoke handles =>
      cases heq.symm.trans handles
      rfl
    | skipped handles => cases heq.symm.trans handles
  · intro he
    subst he
    exact .invoke heq

/-- The bus with its handlers as single steps keeps to the protocol. -/
theorem step_turn {rule : Rule} {s t : State L} {a : Action L} (h : Step s a t)
    (ok : ∀ i q m timeOut, a = .call i q m timeOut → rule (sync s) i m) :
    HandlerTurn rule (sync s) (sync t) := by
  have hmailbox : ∀ subject content, a = .mailbox subject content →
      HandlerTurn rule (sync s) (sync t) := by
    intro subject content he
    subst he
    obtain ⟨message, hd⟩ := mailbox_decodes h
    cases hm : syncMatch s.client.bus message with
    | true =>
      obtain ⟨W, hW, rfl⟩ := (match_step hd hm).mp h
      obtain ⟨hne, hid⟩ := (syncMatch_iff _ _).mp hm
      exact .response hne hid hW
    | false =>
      rw [(miss_step subject hd hm).2 t h]
      exact .thread .other
  cases h with
  | thread h => exact .thread (thread_turn h ok)
  | response | invoke | skipped => exact hmailbox _ _ rfl

theorem HandlerTurn.matched_eq {rule : Rule} {v v' : Sync} (h : HandlerTurn rule v v') :
    v'.matched = v.matched := by
  cases h with
  | response named hit notify => rfl
  | thread turn =>
    cases turn with
    | _ => rfl

theorem step_matched {s t : State L} {a : Action L} (h : Step s a t) : t.matched = s.matched := by
  have ht : HandlerTurn (fun _ _ _ => True) (sync s) (sync t) :=
    step_turn h fun _ _ _ _ _ => trivial
  exact ht.matched_eq

/-- So does the bus with the comparison and the store apart. -/
theorem fine_turn {rule : Rule} {s t : State L} {a : Action L} (h : FineStep s a t)
    (ok : ∀ i q m timeOut, a = .call i q m timeOut → rule (sync s) i m) :
    FineTurn rule (sync s) a (sync t) := by
  cases h with
  | thread h => exact .thread (thread_turn h ok)
  | compare idle decodes hit =>
    obtain ⟨hne, hid⟩ := (syncMatch_iff _ _).mp hit
    exact .compare idle hne hid
  | store pending notify => exact .store pending notify
  | @invoke _ _ client listener _ sent idle decodes miss dispatches =>
    have he : sync (s.invoke client listener sent) = sync s := by
      simp only [sync, State.invoke, dispatch_sync dispatches]
    rw [he]
    exact .thread .other
  | @skipped _ _ client _ idle decodes miss dispatches =>
    have he : sync { s with client := client } = sync s := by
      simp only [sync, dispatch_sync dispatches]
    rw [he]
    exact .thread .other

/-- Orderly runs only make requests while no other is under way. -/
theorem orderly_rule {s : State L} {a : Action L} (h : Orderly s a) :
    ∀ i q m timeOut, a = .call i q m timeOut → Quiet (sync s) i m := by
  intro i q m timeOut he
  subst he
  exact ⟨h.1, h.2⟩

theorem distinct_rule {s : State L} {a : Action L} (h : Distinct s a) :
    ∀ i q m timeOut, a = .call i q m timeOut → Unused (sync s) i m := by
  intro i q m timeOut he
  subst he
  exact h

end Messagebus.Proofs.Requests
