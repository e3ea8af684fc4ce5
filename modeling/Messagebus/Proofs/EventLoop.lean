import Messagebus.Loop
import Messagebus.Proofs.HostileFrames

namespace Messagebus.Proofs.EventLoop
open Frame Proofs.Calls

variable {L : Type}

/-- The `$TERM` command or a null receive. -/
def stops : Event → Bool
  | .command actorCommand => actorCommand = lit "$TERM"
  | .closed => true
  | _ => false

/-- A command on the pipe that the loop means to ignore. -/
def ignored : Event → Bool
  | .command actorCommand => actorCommand ≠ lit "$TERM"
  | _ => false

def message? : Event → Option Received
  | .received message => some message
  | _ => none

/-- The events before the one that stops the loop. -/
def live (events : List Event) : List Event := events.takeWhile (fun e => !stops e)

/-- The events after it, if there is one. -/
def unseen (events : List Event) : Option (List Event) :=
  (events.dropWhile (fun e => !stops e)).tail?

/-- All frames that are received decode. -/
def Decodable (events : List Event) : Prop :=
  ∀ message, .received message ∈ events → ∃ decoded, fromZmsg message.content = .ok decoded

/-- What there is of the loop apart from its reports. -/
structure Core (L : Type) where
  client : Client L
  handled : List Received
  invocations : List (ℕ × L × Message)

def core (s : Loop L) : Core L := ⟨s.client, s.handled, s.invocations⟩

/-- The call that the result of a handler comes to. -/
def called (number : ℕ) : EStateM.Result Fault (Client L) (Handled L) → List (ℕ × L × Message)
  | .ok (.invoke listener message) _ => [(number, listener, message)]
  | _ => []

def Core.deliver (s : Core L) (message : Received)
    (r : EStateM.Result Fault (Client L) (Handled L)) : Core L where
  client := final r
  handled := s.handled ++ [message]
  invocations := s.invocations ++ called (s.handled.length + 1) r

def Core.receive (s : Core L) (message : Received) : Core L :=
  if message.command = lit "MAILBOX DELIVER" then
    s.deliver message (listenerHandleMailbox message.subject message.content s.client)
  else if message.command = lit "STREAM DELIVER" then
    s.deliver message (listenerHandleStream message.subject message.content s.client)
  else { s with handled := s.handled ++ [message] }

/-- The effect of an event, which knows nothing of how listeners end. -/
def Core.after (s : Core L) : Event → Core L
  | .received message => s.receive message
  | _ => s

theorem report_core {format : String} {arguments : List Bytes}
    (h : Format.directives format.toList ≤ arguments.length) (s : Loop L) :
    ∃ t, report format arguments s = .ok () t ∧ core t = core s := by
  have hsome : (Format.expand formatByte format.toList (arguments.map cStr)).isSome = true :=
    (Format.expand_isSome_iff _ _ _).mpr (by simpa using h)
  obtain ⟨text, ht⟩ := Option.isSome_iff_exists.mp hsome
  refine ⟨{ s with reports := s.reports ++ [text] }, ?_, rfl⟩
  rw [report, ht]

/-- No exception gets past the two clauses, and both of them only report. -/
theorem catching_core {known unknown : String} (hk : Format.directives known.toList ≤ 2)
    (hu : Format.directives unknown.toList ≤ 1) (endings : ℕ → Ending) (name : Bytes)
    (listener : L) (message : Message) (s : Loop L) :
    ∃ t, catching known unknown name (callListener endings listener message) s = .ok () t ∧
      core t = { core s with
        invocations := s.invocations ++ [(s.handled.length, listener, message)] } := by
  unfold catching callListener
  cases endings s.invocations.length with
  | returns => exact ⟨_, rfl, rfl⟩
  | throws what => exact report_core hk _
  | throwsOther => exact report_core hu _

theorem deliver_core {known unknown : String} (hk : Format.directives known.toList ≤ 2)
    (hu : Format.directives unknown.toList ≤ 1) (endings : ℕ → Ending) (message : Received)
    {handler : Op L (Handled L)} (s : Loop L) {handled : Handled L} {client : Client L}
    (hh : handler s.client = .ok handled client) :
    ∃ t, deliver endings known unknown message handler s = .ok () t ∧
      core t = (core s).deliver message (handler s.client) := by
  let entered : Loop L := { s with client := client, handled := s.handled ++ [message] }
  have hbus : onBus handler { s with handled := s.handled ++ [message] } = .ok handled entered := by
    simp only [onBus, hh, entered]
  cases handled with
  | invoke listener msg =>
    have hbind : deliver endings known unknown message handler s =
        catching known unknown message.subject (callListener endings listener msg) entered :=
      bind_of_ok hbus
    obtain ⟨t, ht, hc⟩ := catching_core hk hu endings message.subject listener msg entered
    refine ⟨t, hbind.trans ht, hc.trans ?_⟩
    simp [core, Core.deliver, hh, called, final, entered]
  | response msg | skipped =>
    exact ⟨entered, bind_of_ok hbus, by simp [core, Core.deliver, hh, called, final, entered]⟩

theorem handleMailbox_core (endings : ℕ → Ending) {message : Received} (s : Loop L)
    {decoded : Message} (hd : fromZmsg message.content = .ok decoded) :
    ∃ t, handleMailbox endings message s = .ok () t ∧ core t =
      (core s).deliver message
        (listenerHandleMailbox message.subject message.content s.client) := by
  obtain ⟨_, _, hsurvives⟩ := HostileFrames.survives_of_decodes hd
  obtain ⟨handled, client, hm⟩ := (hsurvives L message.subject s.client).1
  exact deliver_core (by decide) (by decide) endings message s hm

theorem handleStream_core (endings : ℕ → Ending) {message : Received} (s : Loop L)
    {decoded : Message} (hd : fromZmsg message.content = .ok decoded) :
    ∃ t, handleStream endings message s = .ok () t ∧ core t =
      (core s).deliver message (listenerHandleStream message.subject message.content s.client) := by
  obtain ⟨_, _, hsurvives⟩ := HostileFrames.survives_of_decodes hd
  obtain ⟨handled, client, hs⟩ := (hsurvives L message.subject s.client).2
  exact deliver_core (by decide) (by decide) endings message s hs

theorem handleUnknown_core (message : Received) (s : Loop L) :
    ∃ t, handleUnknown message s = .ok () t ∧
      core t = { core s with handled := s.handled ++ [message] } := by
  have hargs : Format.directives
      "%s - unknown malamute pattern '%s' from '%s' subject '%s'".toList ≤ 4 := by decide
  let entered : Loop L := { s with handled := s.handled ++ [message] }
  have hreport : ∃ t, report "%s - unknown malamute pattern '%s' from '%s' subject '%s'"
      [s.client.bus.clientName, message.command, message.sender, message.subject] entered =
        .ok () t ∧ core t = core entered := report_core hargs entered
  exact hreport

theorem handleReceived_core (endings : ℕ → Ending) {message : Received} (s : Loop L)
    {decoded : Message} (hd : fromZmsg message.content = .ok decoded) :
    ∃ t, handleReceived endings message s = .ok () t ∧ core t = (core s).receive message := by
  unfold handleReceived Core.receive
  split
  · exact handleMailbox_core endings s hd
  · split
    · exact handleStream_core endings s hd
    · exact handleUnknown_core message s

/-- One turn: what it does, apart from the reports, does not depend on how the
listeners end. -/
theorem handleEvent_core (endings : ℕ → Ending) {e : Event} (s : Loop L)
    (hd : ∀ message, e = .received message → ∃ decoded, fromZmsg message.content = .ok decoded)
    (hi : ignored e = false) :
    ∃ t, handleEvent endings e s = .ok (stops e) t ∧ core t = (core s).after e := by
  cases e with
  | nothing => exact ⟨s, rfl, rfl⟩
  | closed => exact ⟨s, rfl, rfl⟩
  | command actorCommand =>
    have ht : actorCommand = lit "$TERM" := by simpa [ignored] using hi
    subst ht
    exact ⟨s, rfl, rfl⟩
  | received message =>
    obtain ⟨decoded, hdec⟩ := hd message rfl
    obtain ⟨t, ht, hc⟩ := handleReceived_core endings s hdec
    refine ⟨t, ?_, hc⟩
    exact bind_of_ok ht

/-- The warning about any other command lacks an argument. -/
theorem handleEvent_ignored (endings : ℕ → Ending) {e : Event} (s : Loop L)
    (hi : ignored e = true) : handleEvent endings e s = .error .missingArgument s := by
  cases e with
  | command actorCommand =>
    have hne : actorCommand ≠ lit "$TERM" := by simpa [ignored] using hi
    have hr : report "%s - received '%s' on pipe, ignored" [actorCommand] s =
        .error .missingArgument s := rfl
    simp only [handleEvent, if_neg hne]
    exact bind_of_error hr
  | _ => simp [ignored] at hi

/-- The whole loop in the terms of the single turns. -/
theorem mainloop_cons (endings : ℕ → Ending) (e : Event) (events : List Event) (s : Loop L) :
    listenerMainloop endings (e :: events) s =
      match handleEvent endings e s with
      | .ok stopping t =>
        if stopping then .ok (some events) t else listenerMainloop endings events t
      | .error escape t => .error escape t := by
  cases he : handleEvent endings e s with
  | error escape t => exact bind_of_error he
  | ok stopping t =>
    cases stopping with
    | true => exact bind_of_ok he
    | false => exact bind_of_ok he

theorem live_cons (e : Event) (events : List Event) :
    live (e :: events) = if stops e then [] else e :: live events := by
  cases h : stops e <;> simp [live, h]

theorem unseen_cons (e : Event) (events : List Event) :
    unseen (e :: events) = if stops e then some events else unseen events := by
  cases h : stops e <;> simp [unseen, h]

/-- The event that stops the loop does nothing else. -/
theorem stops_quiet {e : Event} (h : stops e = true) :
    ignored e = false ∧ ∀ s : Core L, s.after e = s := by
  cases e with
  | command actorCommand => exact ⟨by simpa [stops, ignored] using h, fun _ => rfl⟩
  | closed => exact ⟨rfl, fun _ => rfl⟩
  | nothing => simp [stops] at h
  | received message => simp [stops] at h

theorem Decodable.head {e : Event} {events : List Event} (h : Decodable (e :: events)) :
    ∀ message, e = .received message → ∃ decoded, fromZmsg message.content = .ok decoded := by
  intro message he
  exact h message (by simp [he])

theorem Decodable.tail {e : Event} {events : List Event} (h : Decodable (e :: events)) :
    Decodable events := by
  intro message hm
  exact h message (by simp [hm])

/-- Up to the first event that stops it the loop takes one turn after the other. -/
theorem mainloop_core (endings : ℕ → Ending) {events : List Event} (s : Loop L)
    (hd : Decodable events) (hi : ∀ e ∈ live events, ignored e = false) :
    ∃ t, listenerMainloop endings events s = .ok (unseen events) t ∧
      core t = (live events).foldl Core.after (core s) := by
  induction events generalizing s with
  | nil => exact ⟨s, rfl, rfl⟩
  | cons e events ih =>
    rw [live_cons] at hi ⊢
    rw [mainloop_cons, unseen_cons]
    cases hs : stops e with
    | true =>
      obtain ⟨hquiet, hafter⟩ := stops_quiet (L := L) hs
      obtain ⟨t, ht, hc⟩ := handleEvent_core endings s hd.head hquiet
      rw [hs] at ht
      exact ⟨t, by simp [ht], by simp [hc, hafter]⟩
    | false =>
      simp only [hs, Bool.false_eq_true, if_false] at hi ⊢
      obtain ⟨t, ht, hc⟩ := handleEvent_core endings s hd.head (hi e (by simp))
      obtain ⟨u, hu, hcu⟩ := ih t hd.tail (fun e he => hi e (by simp [he]))
      rw [hs] at ht
      exact ⟨u, by simp [ht, hu], by simp [hcu, hc]⟩

/-- An ignored command before that is the end of it. -/
theorem mainloop_ignored (endings : ℕ → Ending) {events : List Event} (s : Loop L)
    (hd : Decodable events) (hi : ∃ e ∈ live events, ignored e = true) :
    ∃ t, listenerMainloop endings events s = .error .missingArgument t := by
  induction events generalizing s with
  | nil =>
    obtain ⟨e, he, _⟩ := hi
    simp [live] at he
  | cons e events ih =>
    rw [live_cons] at hi
    rw [mainloop_cons]
    cases hs : stops e with
    | true =>
      obtain ⟨d, hmem, _⟩ := hi
      simp [hs] at hmem
    | false =>
      cases he : ignored e with
      | true => exact ⟨s, by simp [handleEvent_ignored endings s he]⟩
      | false =>
        obtain ⟨t, ht, _⟩ := handleEvent_core endings s hd.head he
        obtain ⟨d, hmem, hd'⟩ := hi
        simp only [hs, Bool.false_eq_true, if_false, List.mem_cons] at hmem
        rcases hmem with rfl | hmem
        · rw [he] at hd'
          cases hd'
        · obtain ⟨u, hu⟩ := ih t hd.tail ⟨d, hmem, hd'⟩
          rw [hs] at ht
          exact ⟨u, by simp [ht, hu]⟩

/-- The calls carry the numbers of their messages, in the order of arrival. -/
structure Numbered (s : Core L) : Prop where
  increasing : (s.invocations.map Prod.fst).Pairwise (· < ·)
  bounded : ∀ x ∈ s.invocations, x.1 ≤ s.handled.length

theorem called_number (number : ℕ) (r : EStateM.Result Fault (Client L) (Handled L)) :
    called number r = [] ∨ ∃ x, called number r = [x] ∧ x.1 = number := by
  unfold called
  split
  · exact Or.inr ⟨_, rfl, rfl⟩
  · exact Or.inl rfl

/-- Another message adds one call at most. -/
theorem Numbered.deliver {s : Core L} (h : Numbered s) (message : Received)
    (r : EStateM.Result Fault (Client L) (Handled L)) : Numbered (s.deliver message r) := by
  have hlt : ∀ x ∈ s.invocations, x.1 < s.handled.length + 1 :=
    fun x hx => Nat.lt_succ_of_le (h.bounded x hx)
  unfold Core.deliver
  rcases called_number (s.handled.length + 1) r with he | ⟨x, he, hx⟩
  · refine ⟨by simpa [he] using h.increasing, ?_⟩
    intro y hy
    simpa using Nat.le_of_lt (hlt y (by simpa [he] using hy))
  · constructor
    · simp only [he, List.map_append, List.map_cons, List.map_nil, List.pairwise_append]
      refine ⟨h.increasing, List.pairwise_singleton _ _, ?_⟩
      intro n hn m hm
      obtain ⟨y, hy, rfl⟩ := List.mem_map.mp hn
      rw [List.mem_singleton.mp hm, hx]
      exact hlt y hy
    · intro y hy
      simp only [he, List.mem_append, List.mem_singleton] at hy
      rcases hy with hy | rfl
      · simpa using Nat.le_of_lt (hlt y hy)
      · simp [hx]

theorem Numbered.after {s : Core L} (h : Numbered s) (e : Event) : Numbered (s.after e) := by
  cases e with
  | received message =>
    change Numbered (s.receive message)
    unfold Core.receive
    split
    · exact h.deliver message _
    · split
      · exact h.deliver message _
      · refine ⟨h.increasing, ?_⟩
        intro x hx
        simpa using Nat.le_succ_of_le (h.bounded x hx)
  | _ => exact h

theorem Numbered.fold {s : Core L} (h : Numbered s) (events : List Event) :
    Numbered (events.foldl Core.after s) := by
  induction events generalizing s with
  | nil => exact h
  | cons e events ih => exact ih (h.after e)

theorem after_handled (s : Core L) (e : Event) :
    (s.after e).handled = s.handled ++ (message? e).toList := by
  cases e with
  | received message =>
    change (s.receive message).handled = s.handled ++ [message]
    unfold Core.receive
    split
    · rfl
    · split
      · rfl
      · rfl
  | _ => exact (List.append_nil _).symm

/-- Each message that comes up is handled once, in the order of arrival. -/
theorem fold_handled (s : Core L) (events : List Event) :
    (events.foldl Core.after s).handled = s.handled ++ events.filterMap message? := by
  induction events generalizing s with
  | nil => simp
  | cons e events ih =>
    rw [List.foldl_cons, ih, after_handled]
    cases hm : message? e with
    | none => simp [hm]
    | some message => simp [hm]

/-- The loop stops where it should and nowhere else, and nothing but its reports
tells whether a listener has failed. -/
def Isolated (endings : ℕ → Ending) (client : Client L) (events : List Event) : Prop :=
  ∃ s t, listenerMainloop endings events (.start client) = .ok (unseen events) s ∧
    listenerMainloop (fun _ => .returns) events (.start client) = .ok (unseen events) t ∧
    s.handled = (live events).filterMap message? ∧
    (s.invocations.map Prod.fst).Pairwise (· < ·) ∧
    s.invocations = t.invocations ∧
    s.client.bus.subscriptions = t.client.bus.subscriptions ∧
    s.client.bus.syncUuid = t.client.bus.syncUuid ∧
    s.client.bus.syncResponse = t.client.bus.syncResponse

/-- Failures of listeners are isolated from the loop, unless it is sent a command
that it does not know. -/
theorem isolated_iff (endings : ℕ → Ending) (client : Client L) {events : List Event}
    (hd : Decodable events) :
    Isolated endings client events ↔ ∀ e ∈ live events, ignored e = false := by
  constructor
  · intro h e he
    obtain ⟨s, _, hs, _⟩ := h
    by_contra hi
    rw [Bool.not_eq_false] at hi
    obtain ⟨t, ht⟩ := mainloop_ignored endings (.start client) hd ⟨e, he, hi⟩
    cases hs.symm.trans ht
  · intro hi
    obtain ⟨s, hs, hcs⟩ := mainloop_core endings (.start client) hd hi
    obtain ⟨t, ht, hct⟩ := mainloop_core (fun _ => .returns) (.start client) hd hi
    have hn : Numbered (core s) := by
      rw [hcs]
      exact Numbered.fold ⟨List.Pairwise.nil, by simp [core, Loop.start]⟩ _
    have hh : (core s).handled = (live events).filterMap message? := by
      rw [hcs, fold_handled]
      rfl
    have hst : core s = core t := hcs.trans hct.symm
    have hclient : s.client = t.client := congrArg Core.client hst
    exact ⟨s, t, hs, ht, hh, hn.increasing, congrArg Core.invocations hst,
      by rw [hclient], by rw [hclient], by rw [hclient]⟩

/-- A listener that throws what is no `std::exception`. -/
theorem throwing_listener_isolated :
    Isolated (fun _ => .throwsOther)
      (final ((ApiCall.receive (lit "queue") ()).run ⟨true, true, true⟩ (.new (lit "bus"))))
      [.received ⟨lit "MAILBOX DELIVER", lit "queue", lit "peer", []⟩, .closed] := by
  refine (isolated_iff _ _ ?_).mpr ?_
  · intro message hm
    simp only [List.mem_cons, Event.received.injEq, List.not_mem_nil, or_false, reduceCtorEq] at hm
    rw [hm]
    exact ⟨.empty, rfl⟩
  · simp [live, stops, ignored]

/-- A command that the loop is to ignore is its undoing. -/
theorem unknown_command_not_isolated :
    ¬ ∀ (endings : ℕ → Ending) (client : Client Unit) (events : List Event),
      Decodable events → Isolated endings client events := by
  intro h
  have hd : Decodable [.command (lit "VERBOSE")] := by
    intro message hm
    simp at hm
  obtain ⟨s, _, hs, _⟩ := h (fun _ => .returns) (.new (lit "bus")) [.command (lit "VERBOSE")] hd
  cases hs

end Messagebus.Proofs.EventLoop
