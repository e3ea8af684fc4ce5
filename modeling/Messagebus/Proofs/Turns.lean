import Messagebus.Proofs.EventLoop
import Messagebus.Proofs.Registry

namespace Messagebus.Proofs.Turns
open CondVar Frame Runs Proofs.Calls Proofs.Requests Proofs.EventLoop

variable {L : Type}

/-- The step that an event is for the bus, if it is one. -/
def action? : Event → Option (Action L)
  | .received message =>
    if message.command = lit "MAILBOX DELIVER" then
      some (.mailbox message.subject message.content)
    else if message.command = lit "STREAM DELIVER" then
      some (.stream message.subject message.content)
    else none
  | _ => none

/-- The loop and the bus agree on what there is and on what has happened since. -/
structure Agrees (c c' : Core L) (s s' : State L) : Prop where
  client : s'.client = c'.client
  idle : s'.matched = none
  calls : s'.calls = s.calls
  invocations : ∃ new, c'.invocations = c.invocations ++ new ∧
    s'.invocations = s.invocations ++ new.map Prod.snd

theorem Agrees.refl {c : Core L} {s : State L} (hc : s.client = c.client)
    (hidle : s.matched = none) : Agrees c c s s :=
  ⟨hc, hidle, rfl, [], (List.append_nil _).symm, (List.append_nil _).symm⟩

theorem Agrees.trans {c c' c'' : Core L} {s s' s'' : State L} (h : Agrees c c' s s')
    (h' : Agrees c' c'' s' s'') : Agrees c c'' s s'' := by
  obtain ⟨new, hc, hs⟩ := h.invocations
  obtain ⟨new', hc', hs'⟩ := h'.invocations
  refine ⟨h'.client, h'.idle, h'.calls.trans h.calls, new ++ new', ?_, ?_⟩
  · rw [hc', hc, List.append_assoc]
  · rw [hs', hs, List.map_append, List.append_assoc]

theorem mailbox_turn {c : Core L} {s : State L} (hc : s.client = c.client)
    (hidle : s.matched = none) {message : Received} {decoded : Message}
    (hd : fromZmsg message.content = .ok decoded) :
    ∃ t, Step s (.mailbox message.subject message.content) t ∧
      Agrees c (c.deliver message
        (listenerHandleMailbox message.subject message.content c.client)) s t := by
  obtain ⟨_, _, hsurvives⟩ := HostileFrames.survives_of_decodes hd
  obtain ⟨handled, client, hm⟩ := (hsurvives L message.subject c.client).1
  rw [hm]
  rw [← hc] at hm
  cases handled with
  | response msg =>
    obtain ⟨W, hW⟩ := NotifyOne.possible s.waitSet
    exact ⟨_, .response hm hW, rfl, hidle, rfl, [], rfl, (List.append_nil _).symm⟩
  | invoke listener msg => exact ⟨_, .invoke hm, rfl, hidle, rfl, [(_, listener, msg)], rfl, rfl⟩
  | skipped => exact ⟨_, .skipped hm, rfl, hidle, rfl, [], rfl, (List.append_nil _).symm⟩

theorem stream_turn {c : Core L} {s : State L} (hc : s.client = c.client)
    (hidle : s.matched = none) {message : Received} {decoded : Message}
    (hd : fromZmsg message.content = .ok decoded) :
    ∃ t, Step s (.stream message.subject message.content) t ∧
      Agrees c (c.deliver message
        (listenerHandleStream message.subject message.content c.client)) s t := by
  have heq := listenerHandleStream_eq message.subject c.client hd
  cases hf : c.client.bus.subscriptions.find message.subject with
  | none =>
    simp only [hf] at heq
    rw [heq]
    rw [← hc] at heq
    exact ⟨_, .thread (.streamSkipped hidle heq), hc, hidle, rfl, [], rfl,
      (List.append_nil _).symm⟩
  | some listener =>
    simp only [hf] at heq
    rw [heq]
    rw [← hc] at heq
    exact ⟨_, .thread (.stream hidle heq), hc, hidle, rfl, [(_, listener, decoded)], rfl, rfl⟩

/-- What an event does is a step of the bus, or nothing that concerns the bus. -/
theorem event_turn {c : Core L} {s : State L} (hc : s.client = c.client)
    (hidle : s.matched = none) {e : Event}
    (hd : ∀ message, e = .received message → ∃ decoded, fromZmsg message.content = .ok decoded) :
    ∃ t, Run Step s (action? e).toList t ∧ Agrees c (c.after e) s t := by
  cases e with
  | received message =>
    obtain ⟨decoded, hdec⟩ := hd message rfl
    by_cases hmailbox : message.command = lit "MAILBOX DELIVER"
    · obtain ⟨t, hstep, ha⟩ := mailbox_turn hc hidle hdec
      simp only [action?, Core.after, Core.receive, if_pos hmailbox]
      exact ⟨t, .cons hstep (.nil t), ha⟩
    · by_cases hstream : message.command = lit "STREAM DELIVER"
      · obtain ⟨t, hstep, ha⟩ := stream_turn hc hidle hdec
        simp only [action?, Core.after, Core.receive, if_neg hmailbox, if_pos hstream]
        exact ⟨t, .cons hstep (.nil t), ha⟩
      · simp only [action?, Core.after, Core.receive, if_neg hmailbox, if_neg hstream]
        exact ⟨s, .nil s, hc, hidle, rfl, [], (List.append_nil _).symm, (List.append_nil _).symm⟩
  | _ => exact ⟨s, .nil s, .refl hc hidle⟩

theorem events_turn {c : Core L} {s : State L} (hc : s.client = c.client)
    (hidle : s.matched = none) {events : List Event} (hd : Decodable events) :
    ∃ t, Run Step s (events.filterMap action?) t ∧ Agrees c (events.foldl Core.after c) s t := by
  induction events generalizing c s with
  | nil => exact ⟨s, .nil s, .refl hc hidle⟩
  | cons e events ih =>
    obtain ⟨t, hr, ha⟩ := event_turn hc hidle hd.head
    obtain ⟨u, hr', ha'⟩ := ih ha.client ha.idle hd.tail
    refine ⟨u, ?_, ha.trans ha'⟩
    have hactions : (e :: events).filterMap (action? (L := L)) =
        (action? e).toList ++ events.filterMap action? := by
      cases hact : (action? e : Option (Action L)) with
      | none => simp [hact]
      | some a => simp [hact]
    rw [hactions]
    exact hr.append hr'

theorem Decodable.live {events : List Event} (hd : Decodable events) : Decodable (live events) :=
  fun message hm => hd message (List.takeWhile_subset _ hm)

/-- The event loop refines the step relation: for every sequence of events with frames
that decode and without an ignored command on the pipe, the loop ends where a run of
the bus ends that takes the messages for its steps, with the same calls of listeners
in the same order, however the listeners end. -/
theorem mainloop_refines (endings : ℕ → Ending) {events : List Event} (s : Loop L) (b : State L)
    (hb : b.client = s.client) (hidle : b.matched = none) (hd : Decodable events)
    (hi : ∀ e ∈ live events, ignored e = false) :
    ∃ t b', listenerMainloop endings events s = .ok (unseen events) t ∧
      Run Step b ((live events).filterMap action?) b' ∧ b'.client = t.client ∧
      b'.calls = b.calls ∧ ∃ new, t.invocations = s.invocations ++ new ∧
        b'.invocations = b.invocations ++ new.map Prod.snd := by
  obtain ⟨t, ht, hcore⟩ := mainloop_core endings s hd hi
  have hc : b.client = (core s).client := hb
  obtain ⟨b', hr, ha⟩ := events_turn hc hidle (Decodable.live hd)
  rw [← hcore] at ha
  exact ⟨t, b', ht, hr, ha.client, ha.calls, ha.invocations⟩

/-- A bus with a listener for a queue and one for a topic. -/
def bound : Client Unit :=
  ⟨{ Bus.new (L := Unit) (lit "bus") with
    subscriptions := (SortedMap.empty.emplace (lit "q") ()).emplace (lit "t") () }, [], []⟩

def visitors : List Event :=
  [.received ⟨lit "MAILBOX DELIVER", lit "q", lit "peer", [lit "x"]⟩,
    .received ⟨lit "STREAM DELIVER", lit "t", lit "peer", [lit "y"]⟩, .closed]

/-- A listener throws for a mailbox message, and is called again for one of a stream. -/
theorem thrown_turn :
    ∃ t b', listenerMainloop (fun k => if k = 0 then .throws (lit "oops") else .returns) visitors
        (.start bound) = .ok (some []) t ∧
      Run Step { State.new (lit "bus") with client := bound }
        [.mailbox (lit "q") [lit "x"], .stream (lit "t") [lit "y"]] b' ∧
      b'.client = t.client ∧
      b'.invocations = [((), ⟨.empty, [lit "x"]⟩), ((), ⟨.empty, [lit "y"]⟩)] := by
  have hd : Decodable visitors := by
    intro message hm
    simp only [visitors, List.mem_cons, Event.received.injEq, reduceCtorEq, List.not_mem_nil,
      or_self, or_false] at hm
    rcases hm with rfl | rfl
    · exact ⟨⟨.empty, [lit "x"]⟩, rfl⟩
    · exact ⟨⟨.empty, [lit "y"]⟩, rfl⟩
  have hi : ∀ e ∈ live visitors, ignored e = false := by
    intro e he
    simp only [live, visitors] at he
    rcases List.mem_cons.mp (List.takeWhile_subset _ he) with rfl | he'
    · rfl
    · rcases List.mem_cons.mp he' with rfl | he'
      · rfl
      · cases List.mem_singleton.mp he'
        rfl
  obtain ⟨t, b', ht, hr, hc, _⟩ :=
    mainloop_refines (fun k => if k = 0 then .throws (lit "oops") else .returns) (.start bound)
      { State.new (lit "bus") with client := bound } rfl rfl hd hi
  refine ⟨t, b', ht, hr, hc, ?_⟩
  cases hr with
  | cons head tail =>
    have hd : fromZmsg [lit "x"] = .ok ⟨.empty, [lit "x"]⟩ := rfl
    have hl : bound.bus.subscriptions.find (lit "q") = some () := rfl
    have hqueue := (dispatch_step hd rfl hl).mp head
    subst hqueue
    cases tail with
    | cons head tail =>
      cases tail
      obtain ⟨message, hm, hinv⟩ := Registry.stream_invokes head
      cases hm
      exact hinv

end Messagebus.Proofs.Turns
