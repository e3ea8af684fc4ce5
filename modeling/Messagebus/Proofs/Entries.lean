import Messagebus.Entries
import Messagebus.Proofs.Registry

namespace Messagebus.Proofs.Entries
open Frame Proofs.Calls Proofs.Registry

variable {L : Type}

/-- The iterator is not used once its entry is gone. -/
def Safe (r : EStateM.Result Slip (Visit L) Unit) : Prop := ∀ s, r ≠ .error .dangling s

/-- The listener does not release the name that it is called for. -/
def Spares (subject : Bytes) (callback : Callback L) : Prop :=
  .unsubscribe subject ∉ callback.calls

/-- The message is for a listener of the bus, and not the response to a request. -/
def MailboxCalls (c : Client L) (message : Received) (listener : L) (msg : Message) : Prop :=
  fromZmsg message.content = .ok msg ∧ syncMatch c.bus msg = false ∧
    c.bus.subscriptions.find message.subject = some listener

def StreamCalls (c : Client L) (message : Received) (listener : L) (msg : Message) : Prop :=
  fromZmsg message.content = .ok msg ∧ c.bus.subscriptions.find message.subject = some listener

/-- The same as one of the calls that any thread can make. -/
def api (serial : ℕ) : RegistryCall L → Mlm × ApiCall (Entry L)
  | .subscribe mlm topic listener => (mlm, .subscribe topic ⟨serial, listener⟩)
  | .unsubscribe topic => (⟨true, true, true⟩, .unsubscribe topic)
  | .receive queue listener => (⟨true, true, true⟩, .receive queue ⟨serial, listener⟩)

theorem run_find (serial : ℕ) (call : RegistryCall L) (c : Client (Entry L)) :
    (final (call.run serial c)).bus.subscriptions.find =
      own c.bus.subscriptions.find (.api (api serial call).1 (api serial call).2) := by
  rw [← api_find]
  cases call with
  | subscribe mlm topic listener => rfl
  | unsubscribe topic => rfl
  | receive queue listener => rfl

/-- A call of a registry function on a bus without serials. -/
def plain : RegistryCall L → Op L Unit
  | .subscribe mlm topic listener => subscribe mlm topic listener
  | .unsubscribe topic => unsubscribe topic
  | .receive queue listener => receive queue listener

def forgetResult : EStateM.Result Fault (Client (Entry L)) Unit →
    EStateM.Result Fault (Client L) Unit
  | .ok u client => .ok u client.forget
  | .error fault client => .error fault client.forget

theorem forget_start (c : Client L) : (Visit.start c).loop.client.forget = c := by
  have hsubs : (c.bus.subscriptions.mapValues (Entry.mk 0)).mapValues Entry.callable =
      c.bus.subscriptions := SortedMap.mapValues_leftInverse _ fun _ => rfl
  simp only [Visit.start, Loop.start, Client.forget, hsubs]

theorem forget_find (c : Client (Entry L)) (key : Bytes) :
    c.forget.bus.subscriptions.find key = (c.bus.subscriptions.find key).map Entry.callable :=
  SortedMap.find_mapValues _ _ _

/-- The serials have no influence on what the calls do. -/
theorem run_forget (serial : ℕ) (call : RegistryCall L) (c : Client (Entry L)) :
    forgetResult (call.run serial c) = plain call c.forget := by
  cases call with
  | subscribe mlm topic listener =>
    simp only [RegistryCall.run, plain, subscribe_eq]
    cases mlm.setConsumer with
    | false => rfl
    | true => simp [forgetResult, Client.forget, SortedMap.mapValues_emplace]
  | unsubscribe topic =>
    simp only [RegistryCall.run, plain, unsubscribe_eq, forget_find]
    cases c.bus.subscriptions.find topic with
    | none => rfl
    | some entry => simp [forgetResult, Client.forget, SortedMap.mapValues_erase]
  | receive queue listener =>
    simp only [RegistryCall.run, plain, receive_eq, forget_find]
    cases c.bus.subscriptions.find queue with
    | none => simp [forgetResult, Client.forget, SortedMap.mapValues_emplace]
    | some entry => rfl

theorem present_iff (s : Visit L) (iterator : Iterator) :
    s.present iterator = true ↔
      ∃ entry, s.loop.client.bus.subscriptions.find iterator.key = some entry ∧
        entry.serial = iterator.serial := by
  unfold Visit.present
  cases s.loop.client.bus.subscriptions.find iterator.key with
  | none => simp
  | some entry => simp

theorem callBack_find (call : RegistryCall L) (s : Visit L) :
    (final (callBack call s)).loop.client.bus.subscriptions.find =
      own s.loop.client.bus.subscriptions.find (.api (api s.next call).1 (api s.next call).2) :=
  run_find s.next call s.loop.client

/-- Only an `unsubscribe` of its key takes an entry off the map. -/
theorem present_spared {s : Visit L} {iterator : Iterator} {call : RegistryCall L}
    (h : s.present iterator = true) (hu : call ≠ .unsubscribe iterator.key) :
    (final (callBack call s)).present iterator = true := by
  obtain ⟨entry, hf, hs⟩ := (present_iff s iterator).mp h
  refine (present_iff _ iterator).mpr ⟨entry, ?_, hs⟩
  rw [callBack_find]
  apply own_held _ hf
  cases call with
  | unsubscribe topic => exact fun he => hu (congrArg RegistryCall.unsubscribe (by cases he; rfl))
  | subscribe mlm topic listener => exact fun he => nomatch he
  | receive queue listener => exact fun he => nomatch he

theorem present_erased (s : Visit L) (iterator : Iterator) :
    (final (callBack (.unsubscribe iterator.key) s)).present iterator = false := by
  have hfind : (final (callBack (.unsubscribe iterator.key) s)).loop.client.bus.subscriptions.find
      iterator.key = none := by
    rw [callBack_find]
    exact Function.update_self _ _ _
  rw [Visit.present, hfind]

theorem access_eq (iterator : Iterator) (s : Visit L) :
    access iterator s = if s.present iterator = true then .ok () s else .error .dangling s := by
  change (if s.present iterator = false then throw Slip.dangling else pure () : VisitOp L Unit) s = _
  cases s.present iterator with
  | true => rfl
  | false => rfl

theorem access_present {iterator : Iterator} {s : Visit L} (h : s.present iterator = true) :
    access iterator s = .ok () s := by
  rw [access_eq, if_pos h]

theorem access_absent {iterator : Iterator} {s : Visit L} (h : s.present iterator = false) :
    access iterator s = .error .dangling s := by
  rw [access_eq, h, if_neg Bool.false_ne_true]

theorem execute_absent {iterator : Iterator} {s : Visit L} (calls : List (RegistryCall L))
    (h : s.present iterator = false) : execute iterator calls s = .error .dangling s := by
  cases calls with
  | nil => exact access_absent h
  | cons call calls => exact bind_of_error (access_absent h)

theorem execute_cons {iterator : Iterator} {s : Visit L} (call : RegistryCall L)
    (calls : List (RegistryCall L)) (h : s.present iterator = true) :
    execute iterator (call :: calls) s = execute iterator calls (final (callBack call s)) :=
  (bind_of_ok (access_present h)).trans (bind_of_ok rfl)

/-- The call of the listener with the entry in its place. -/
theorem execute_eq {iterator : Iterator} {s : Visit L} (calls : List (RegistryCall L))
    (h : s.present iterator = true) :
    (.unsubscribe iterator.key ∉ calls →
      ∃ t, execute iterator calls s = .ok () t ∧ t.present iterator = true) ∧
    (.unsubscribe iterator.key ∈ calls → ∃ t, execute iterator calls s = .error .dangling t) := by
  induction calls generalizing s with
  | nil => exact ⟨fun _ => ⟨s, access_present h, h⟩, fun hm => absurd hm List.not_mem_nil⟩
  | cons call calls ih =>
    rw [execute_cons call calls h]
    by_cases hu : call = .unsubscribe iterator.key
    · subst hu
      have hgone := execute_absent calls (present_erased s iterator)
      exact ⟨fun hm => absurd List.mem_cons_self hm, fun _ => ⟨_, hgone⟩⟩
    · have hmem : (.unsubscribe iterator.key ∈ call :: calls) ↔
          (.unsubscribe iterator.key ∈ calls) := by
        rw [List.mem_cons]
        exact or_iff_right fun he => hu he.symm
      rw [hmem]
      exact ih (present_spared h hu)

theorem final_forgetResult (r : EStateM.Result Fault (Client (Entry L)) Unit) :
    final (forgetResult r) = (final r).forget := by
  cases r with
  | ok u c => rfl
  | error fault c => rfl

/-- A listener that comes to its end leaves the bus as its calls would have made it
without serials. -/
theorem execute_forget {iterator : Iterator} {calls : List (RegistryCall L)} {s t : Visit L}
    (h : execute iterator calls s = .ok () t) :
    t.loop.client.forget =
      calls.foldl (fun c call => final (plain call c)) s.loop.client.forget := by
  induction calls generalizing s with
  | nil =>
    rw [execute, access_eq] at h
    split at h
    · cases h
      rfl
    · cases h
  | cons call calls ih =>
    cases hp : s.present iterator with
    | false => cases h.symm.trans (execute_absent (call :: calls) hp)
    | true =>
      have hcall : (final (callBack call s)).loop.client.forget =
          final (plain call s.loop.client.forget) := by
        rw [← run_forget s.next, final_forgetResult]
        rfl
      rw [List.foldl_cons, ← hcall]
      exact ih ((execute_cons call calls hp).symm.trans h)

theorem onLoop_safe {α : Type} (x : LoopOp (Entry L) α) (s t : Visit L) :
    onLoop x s ≠ .error .dangling t := by
  unfold onLoop
  cases x s.loop with
  | ok a loop => exact nofun
  | error why loop => exact nofun

/-- The read of the key behind the call finds what the call has left. -/
theorem invokeEntry_safe_iff (known unknown : String) {iterator : Iterator}
    (callback : Callback L) {s : Visit L} (h : s.present iterator = true) :
    Safe (invokeEntry known unknown iterator callback s) ↔ Spares iterator.key callback := by
  obtain ⟨hspared, herased⟩ := execute_eq callback.calls h
  constructor
  · intro hsafe hm
    obtain ⟨t, ht⟩ := herased hm
    exact hsafe t (bind_of_error ht)
  · intro hm
    obtain ⟨t, ht, hp⟩ := hspared hm
    have hfirst : first iterator t = .ok iterator.key t := bind_of_ok (access_present hp)
    intro u
    rw [invokeEntry, bind_of_ok ht]
    cases callback.ending with
    | returns => exact nofun
    | throws what =>
      simp only [bind_of_ok hfirst]
      exact onLoop_safe _ t u
    | throwsOther =>
      simp only [bind_of_ok hfirst]
      exact onLoop_safe _ t u

section Visit

variable (listeners : L → Message → Callback L) (known unknown : String) (message : Received)
  {handler : Op (Entry L) (Handled (Entry L))} {s : Visit L}

/-- The handler proper starts with the message entered. -/
theorem visit_eq :
    visit listeners known unknown message handler s =
      (onLoop (onBus handler) >>= fun
        | .invoke entry msg =>
          invokeEntry known unknown ⟨message.subject, entry.serial⟩ (listeners entry.callable msg)
        | .response _ | .skipped => return ())
        { s with loop := { s.loop with handled := s.loop.handled ++ [message] } } :=
  rfl

theorem visit_invoke {entry : Entry L} {msg : Message}
    (hh : handler s.loop.client = .ok (.invoke entry msg) s.loop.client)
    (hf : s.loop.client.bus.subscriptions.find message.subject = some entry) :
    Safe (visit listeners known unknown message handler s) ↔
      Spares message.subject (listeners entry.callable msg) := by
  let t : Visit L := { s with loop := { s.loop with handled := s.loop.handled ++ [message] } }
  have hbus : onLoop (onBus handler) t = .ok (.invoke entry msg) t := by
    simp only [onLoop, onBus, t, hh]
  have hp : t.present ⟨message.subject, entry.serial⟩ = true :=
    (present_iff _ _).mpr ⟨entry, hf, rfl⟩
  rw [visit_eq, bind_of_ok hbus]
  exact invokeEntry_safe_iff known unknown _ hp

/-- Without a call of a listener there is no iterator. -/
theorem visit_safe {handled : Handled (Entry L)} {client : Client (Entry L)}
    (hh : handler s.loop.client = .ok handled client)
    (hno : ∀ entry msg, handled ≠ .invoke entry msg) :
    Safe (visit listeners known unknown message handler s) := by
  let t : Visit L := { s with loop := { s.loop with handled := s.loop.handled ++ [message] } }
  have hbus : onLoop (onBus handler) t =
      .ok handled { t with loop := { t.loop with client := client } } := by
    simp only [onLoop, onBus, t, hh]
  rw [visit_eq, bind_of_ok hbus]
  cases handled with
  | invoke entry msg => exact absurd rfl (hno entry msg)
  | response msg => exact nofun
  | skipped => exact nofun

theorem visit_fault {fault : Fault} {client : Client (Entry L)}
    (hh : handler s.loop.client = .error fault client) :
    Safe (visit listeners known unknown message handler s) := by
  let t : Visit L := { s with loop := { s.loop with handled := s.loop.handled ++ [message] } }
  have hbus : onLoop (onBus handler) t =
      .error (.escape (.fault fault)) { t with loop := { t.loop with client := client } } := by
    simp only [onLoop, onBus, t, hh]
  rw [visit_eq, bind_of_error hbus]
  exact nofun

end Visit

theorem start_find (c : Client L) (key : Bytes) :
    (Visit.start c).loop.client.bus.subscriptions.find key =
      (c.bus.subscriptions.find key).map (Entry.mk 0) :=
  SortedMap.find_mapValues _ _ _

theorem visitStream_safe_iff (listeners : L → Message → Callback L) (c : Client L)
    (message : Received) :
    Safe (visitStream listeners message (.start c)) ↔
      ∀ listener msg, StreamCalls c message listener msg →
        Spares message.subject (listeners listener msg) := by
  unfold visitStream StreamCalls
  have hstart := start_find c message.subject
  cases hd : fromZmsg message.content with
  | error fault =>
    refine iff_of_true ?_ fun listener msg h => nomatch h.1
    exact visit_fault _ _ _ _ (handlers_fault message.subject _ hd).2
  | ok decoded =>
    have heq := listenerHandleStream_eq message.subject (Visit.start c).loop.client hd
    cases hf : c.bus.subscriptions.find message.subject with
    | none =>
      rw [hstart, hf] at heq
      exact iff_of_true (visit_safe _ _ _ _ heq nofun) fun listener msg h => nomatch h.2
    | some listener =>
      rw [hf] at hstart
      rw [hstart] at heq
      rw [visit_invoke _ _ _ _ heq hstart]
      constructor
      · rintro hs _ _ ⟨⟨⟩, ⟨⟩⟩
        exact hs
      · exact fun h => h listener decoded ⟨rfl, rfl⟩

theorem visitMailbox_safe_iff (listeners : L → Message → Callback L) (c : Client L)
    (message : Received) :
    Safe (visitMailbox listeners message (.start c)) ↔
      ∀ listener msg, MailboxCalls c message listener msg →
        Spares message.subject (listeners listener msg) := by
  unfold visitMailbox MailboxCalls
  have hstart := start_find c message.subject
  cases hd : fromZmsg message.content with
  | error fault =>
    refine iff_of_true ?_ fun listener msg h => nomatch h.1
    exact visit_fault _ _ _ _ (handlers_fault message.subject _ hd).1
  | ok decoded =>
    have heq := listenerHandleMailbox_eq message.subject (Visit.start c).loop.client hd
    have hsync : syncMatch (Visit.start c).loop.client.bus decoded = syncMatch c.bus decoded := rfl
    rw [hsync] at heq
    cases hm : syncMatch c.bus decoded with
    | true =>
      rw [if_pos hm] at heq
      refine iff_of_true (visit_safe _ _ _ _ heq nofun) ?_
      rintro _ _ ⟨⟨⟩, hno, _⟩
      rw [hm] at hno
      cases hno
    | false =>
      rw [hm, if_neg Bool.false_ne_true, dispatchMailbox_eq] at heq
      cases hf : c.bus.subscriptions.find message.subject with
      | none =>
        rw [hstart, hf] at heq
        exact iff_of_true (visit_safe _ _ _ _ heq nofun) fun listener msg h => nomatch h.2.2
      | some listener =>
        rw [hf] at hstart
        rw [hstart] at heq
        rw [visit_invoke _ _ _ _ heq hstart]
        constructor
        · rintro hs _ _ ⟨⟨⟩, _, ⟨⟩⟩
          exact hs
        · exact fun h => h listener decoded ⟨rfl, hm, rfl⟩

/-- The entry is there as long as a handler uses it exactly if the listener does not
unsubscribe from the subject of the message that it is called with. -/
theorem entry_kept_iff (listeners : L → Message → Callback L) (c : Client L)
    (message : Received) :
    (Safe (visitMailbox listeners message (.start c)) ↔
      ∀ listener msg, MailboxCalls c message listener msg →
        Spares message.subject (listeners listener msg)) ∧
    (Safe (visitStream listeners message (.start c)) ↔
      ∀ listener msg, StreamCalls c message listener msg →
        Spares message.subject (listeners listener msg)) :=
  ⟨visitMailbox_safe_iff listeners c message, visitStream_safe_iff listeners c message⟩

/-- A listener that has seen enough, and throws. -/
theorem last_message_dangles :
    ¬ ∀ (listeners : Unit → Message → Callback Unit) (c : Client Unit) (message : Received),
      Safe (visitMailbox listeners message (.start c)) ∧
        Safe (visitStream listeners message (.start c)) := by
  intro h
  let c : Client Unit :=
    final (subscribe ⟨true, true, true⟩ (lit "topic") () (.new (lit "bus")))
  let leaving : Callback Unit := ⟨[.unsubscribe (lit "topic")], .throws (lit "enough")⟩
  have hsafe := (h (fun _ _ => leaving) c ⟨lit "STREAM DELIVER", lit "topic", lit "peer", []⟩).2
  exact hsafe _ rfl

end Messagebus.Proofs.Entries
