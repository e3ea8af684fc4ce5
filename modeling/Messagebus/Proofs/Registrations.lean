import Messagebus.Proofs.Registry

namespace Messagebus.Proofs.Registrations
open Frame Runs Proofs.Calls Proofs.Registry

variable {L : Type} {name : Bytes} {listener : L}

/-- The name under which a call registers a listener or releases one. -/
def nameOf : ApiCall L → Option Bytes
  | .subscribe topic _ => some topic
  | .unsubscribe topic => some topic
  | .receive queue _ => some queue
  | .sendRequestWithListener _ message _ => message.metaData.find Message.REPLY_TO
  | _ => none

/-- No call for the name succeeds. -/
def Undisturbed (name : Bytes) (s : State L) : Action L → Prop
  | .api mlm call => nameOf call = some name → ∀ client, call.run mlm s.client ≠ .ok () client
  | _ => True

/-- Until the next call for the name succeeds. -/
def Until (name : Bytes) (s : State L) (as : List (Action L)) (t : State L) : Prop :=
  Run (restrict (Undisturbed name) Step) s as t

/-- Every stream message with the subject invokes the listener, and that once. -/
def StreamsTo (name : Bytes) (listener : L) (s : State L) : Prop :=
  ∀ as t content u, Until name s as t → Step t (.stream name content) u →
    ∃ message, fromZmsg content = .ok message ∧
      u.invocations = t.invocations ++ [(listener, message)]

/-- So does every mailbox message with the subject that is no response. -/
def QueuesTo (name : Bytes) (listener : L) (s : State L) : Prop :=
  ∀ as t content u, Until name s as t → Step t (.mailbox name content) u →
    ∃ message, fromZmsg content = .ok message ∧ (syncMatch t.client.bus message = false →
      u.invocations = t.invocations ++ [(listener, message)])

/-- No message with the subject invokes a listener. -/
def Silent (name : Bytes) (s : State L) : Prop :=
  ∀ as t a u, Until name s as t → Step t a u →
    (∃ content, a = .stream name content ∨ a = .mailbox name content) →
      u.invocations = t.invocations

/-- What the caller may expect of a call that succeeds. -/
def Effective (s : State L) (a : Action L) (t : State L) : Prop :=
  match a with
  | .api mlm (.subscribe topic listener) =>
    ∀ client, subscribe mlm topic listener s.client = .ok () client → StreamsTo topic listener t
  | .api _ (.receive queue listener) =>
    ∀ client, receive queue listener s.client = .ok () client → QueuesTo queue listener t
  | .api _ (.unsubscribe topic) =>
    ∀ client, unsubscribe topic s.client = .ok () client → Silent topic t
  | _ => True

/-- `subscribe` is only called for a topic that is free or has the same listener. -/
def Vacant (history : List (Action L)) : Action L → Prop
  | .api mlm (.subscribe topic listener) =>
    mlm.setConsumer = true →
      holder history topic = none ∨ holder history topic = some listener
  | _ => True

/-- The holder of a name only changes in a call for the name that succeeds. -/
theorem undisturbed_find {s t : State L} {a : Action L} (hu : Undisturbed name s a)
    (h : Step s a t) :
    t.client.bus.subscriptions.find name = s.client.bus.subscriptions.find name := by
  rw [step_find h]
  cases a with
  | api mlm call =>
    cases call with
    | subscribe topic l =>
      have heq := subscribe_eq mlm topic l s.client
      cases hok : mlm.setConsumer with
      | false => simp [own, hok]
      | true =>
        rw [hok, if_pos rfl] at heq
        have hne : topic ≠ name := fun hn => hu (by simp [nameOf, hn]) _ heq
        simp [own, hok, claim, Ne.symm hne]
    | receive queue l =>
      refine claim_undisturbed ?_
      intro hn hf
      have heq := receive_eq queue l s.client
      rw [hn, hf] at heq
      exact hu (by simp [nameOf, hn]) _ (hn ▸ heq)
    | sendRequestWithListener queue message l =>
      rcases sendRequestWithListener_eq mlm queue message l s.client with
        ⟨hr, _⟩ | ⟨replyTo, hr, hq, heq⟩
      · cases hf : message.metaData.find Message.REPLY_TO with
        | none => simp [own, hf]
        | some replyTo =>
          have hq : replyTo = [] := by simpa [missing, hf] using hr
          simp [own, hf, hq]
      · simp only [own, hr, if_neg hq]
        refine claim_undisturbed ?_
        intro hn hf
        rw [receive_eq, hn, hf] at heq
        obtain ⟨address, subject, log, hsend⟩ := sendRequest_eq mlm queue message
          { s.client with
            bus := { s.client.bus with
              subscriptions := s.client.bus.subscriptions.emplace name l } }
        exact hu (by simp [nameOf, hr, hn]) _ (heq.trans hsend)
    | unsubscribe topic =>
      by_cases hn : topic = name
      · subst hn
        have heq := unsubscribe_eq topic s.client
        cases hf : s.client.bus.subscriptions.find topic with
        | none => simp [own]
        | some l =>
          rw [hf] at heq
          exact absurd heq (hu rfl _)
      · simp [own, Ne.symm hn]
    | _ => rfl
  | _ => rfl

/-- So it stays until the next call for the name succeeds. -/
theorem until_find {s t : State L} {as : List (Action L)} (h : Until name s as t) :
    t.client.bus.subscriptions.find name = s.client.bus.subscriptions.find name := by
  refine Run.invariant (I := fun t =>
    t.client.bus.subscriptions.find name = s.client.bus.subscriptions.find name) h rfl ?_
  intro s a t hi hs
  exact (undisturbed_find hs.1 hs.2).trans hi

/-- The stream messages go to the listener exactly if it holds the name. -/
theorem streamsTo_iff {s : State L} (hs : s.matched = none) :
    StreamsTo name listener s ↔ s.client.bus.subscriptions.find name = some listener := by
  constructor
  · intro h
    obtain ⟨t, ht⟩ : ∃ t, Step s (.stream name []) t := stream_possible hs name rfl
    obtain ⟨message, hd, hi⟩ := h [] s [] t (.nil s) ht
    obtain ⟨message', hd', hi'⟩ := stream_invokes ht
    have he : addressed s name message' = [(listener, message)] :=
      List.append_cancel_left (hi'.symm.trans hi)
    cases hf : s.client.bus.subscriptions.find name with
    | none => simp [addressed, hf] at he
    | some l =>
      simp only [addressed, hf, Option.map_some, Option.toList_some, List.cons.injEq,
        Prod.mk.injEq] at he
      rw [he.1.1]
  · intro hf as t content u hrun hu
    obtain ⟨message, hd, hi⟩ := stream_invokes hu
    refine ⟨message, hd, ?_⟩
    rw [hi, addressed, until_find hrun, hf]
    rfl

theorem queuesTo_of_find {s : State L}
    (hf : s.client.bus.subscriptions.find name = some listener) : QueuesTo name listener s := by
  intro as t content u hrun hu
  obtain ⟨message, hd, ⟨hm, _⟩ | ⟨_, hi⟩⟩ := mailbox_invokes hu
  · exact ⟨message, hd, fun hm' => by simp [hm] at hm'⟩
  · refine ⟨message, hd, fun _ => ?_⟩
    rw [hi, addressed, until_find hrun, hf]
    rfl

theorem silent_of_find {s : State L} (hf : s.client.bus.subscriptions.find name = none) :
    Silent name s := by
  intro as t a u hrun hu ha
  have hnone : ∀ message, addressed t name message = [] := by
    intro message
    rw [addressed, until_find hrun, hf]
    rfl
  obtain ⟨content, rfl | rfl⟩ := ha
  · obtain ⟨message, _, hi⟩ := stream_invokes hu
    rw [hi, hnone, List.append_nil]
  · obtain ⟨message, _, ⟨_, hi⟩ | ⟨_, hi⟩⟩ := mailbox_invokes hu
    · exact hi
    · rw [hi, hnone, List.append_nil]

/-- The registrations and releases of a run that succeed are effective exactly if
no topic is subscribed to that another listener holds. -/
theorem effective_iff (clientName : Bytes) (as : List (Action L)) :
    EveryStep Step (.new clientName) as (fun _ => Effective) ↔
      EveryStep Step (.new clientName) as (fun history _ a _ => Vacant history a) := by
  apply EveryStep.congr
  intro before a after s t _ hrun hstep
  have hfind := find_holder hrun
  have ht : t.client.bus.subscriptions.find = own (holder before) a := by
    rw [step_find hstep, hfind]
  cases a with
  | api mlm call =>
    cases call with
    | subscribe topic l =>
      have hidle : t.matched = none := reachable_idle
        (Reachable.step ⟨_, before, ⟨clientName, rfl⟩, hrun⟩ hstep)
      have heq := subscribe_eq mlm topic l s.client
      simp only [Effective, Vacant, streamsTo_iff hidle, ht]
      cases hok : mlm.setConsumer with
      | false =>
        simp only [hok, Bool.false_eq_true, if_false] at heq
        simp [heq]
      | true =>
        simp only [hok, if_true] at heq
        cases hh : holder before topic with
        | none => simp [own, hok, claim, hh]
        | some first => simp [heq, own, hok, claim, hh]
    | receive queue l =>
      refine iff_of_true ?_ trivial
      intro client hok
      apply queuesTo_of_find
      have heq := receive_eq queue l s.client
      cases hf : s.client.bus.subscriptions.find queue with
      | some taken =>
        rw [hf] at heq
        cases heq.symm.trans hok
      | none =>
        rw [hfind] at hf
        simp [ht, own, claim, hf]
    | unsubscribe topic =>
      refine iff_of_true ?_ trivial
      intro client _
      apply silent_of_find
      simp [ht, own]
    | _ => exact iff_of_true trivial trivial
  | _ => exact iff_of_true trivial trivial

/-- Of two listeners for one topic only the first is ever called. -/
theorem second_subscription_idle :
    ¬ ∀ (clientName : Bytes) (as : List (Action Bool)),
      EveryStep Step (.new clientName) as (fun _ => Effective) := by
  intro h
  let listen (listener : Bool) : Action Bool :=
    .api ⟨true, true, true⟩ (.subscribe (lit "topic") listener)
  let after (s : State Bool) (listener : Bool) : State Bool :=
    { s with
      client := final ((ApiCall.subscribe (lit "topic") listener).run ⟨true, true, true⟩ s.client) }
  have hstep : ∀ s listener, Step s (listen listener) (after s listener) :=
    fun s listener => .thread (.api (by intro client he; cases he))
  let first := after (.new (lit "bus")) true
  have heff := h (lit "bus") [listen true, listen false] [listen true] (listen false) [] first
    (after first false) rfl (.cons (hstep _ true) (.nil _)) (hstep first false)
  have hfind := (streamsTo_iff (s := after first false) rfl).mp (heff _ rfl)
  cases hfind

end Messagebus.Proofs.Registrations
