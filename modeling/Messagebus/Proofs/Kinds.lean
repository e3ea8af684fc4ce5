import Messagebus.Proofs.Registry

namespace Messagebus.Proofs.Kinds
open Frame Runs Proofs.Calls Proofs.Registry

/-- Topics and queues share the names of one map. Here a listener is tagged with the kind
of the call that registered it. -/
inductive Kind where
  | topic
  | queue
deriving DecidableEq

variable {L : Type}

/-- The tag of a listener says how it is registered. -/
def Marked : Action (Kind × L) → Prop
  | .api _ (.subscribe _ listener) => listener.1 = .topic
  | .api _ (.receive _ listener) => listener.1 = .queue
  | .api _ (.sendRequestWithListener _ _ listener) => listener.1 = .queue
  | _ => True

/-- A call of `subscribe` has succeeded, and the topic was not released since. -/
def Subscribed (history : List (Action (Kind × L))) (topic : Bytes) : Prop :=
  ∃ before mlm listener after,
    history = before ++ .api mlm (.subscribe topic listener) :: after ∧
      mlm.setConsumer = true ∧ ∀ mlm', .api mlm' (.unsubscribe topic) ∉ after

/-- A step that keeps topics and queues apart. -/
structure Apart (history : List (Action (Kind × L))) (s : State (Kind × L))
    (a : Action (Kind × L)) (t : State (Kind × L)) : Prop where
  invoked : ∀ new, t.invocations = s.invocations ++ new → ∀ x ∈ new,
    (x.1.1 = .topic → ∃ subject content, a = .stream subject content) ∧
      (x.1.1 = .queue → ∃ subject content, a = .mailbox subject content)
  released : ∀ mlm topic client, a = .api mlm (.unsubscribe topic) →
    unsubscribe topic s.client = .ok () client →
      Subscribed history topic ∧
        ∀ listener, s.client.bus.subscriptions.find topic ≠ some (.queue, listener)

/-- Nothing is done under a name that is first of all for the other kind: no topic
message and no release of a queue, no mailbox message of a topic but a response. -/
def Fits (history : List (Action (Kind × L))) (s : State (Kind × L)) : Action (Kind × L) → Prop
  | .stream subject _ => ∀ listener, holder history subject ≠ some (.queue, listener)
  | .mailbox subject content =>
    (∃ message, fromZmsg content = .ok message ∧ syncMatch s.client.bus message = true) ∨
      ∀ listener, holder history subject ≠ some (.topic, listener)
  | .api _ (.unsubscribe topic) => ∀ listener, holder history topic ≠ some (.queue, listener)
  | _ => True

theorem claim_some {names : Bytes → Option L} {name taken : Bytes} {l listener : L}
    (h : claim names taken l name = some listener) :
    names name = some listener ∨ name = taken ∧ l = listener := by
  by_cases hn : name = taken
  · subst hn
    cases hf : names name with
    | none => simpa [claim, hf] using h
    | some first => exact Or.inl (by simpa [claim, hf] using h)
  · exact Or.inl (by simpa [claim, hn] using h)

/-- A holder was there before or is registered by the action itself. -/
theorem own_some {names : Bytes → Option L} {a : Action L} {name : Bytes} {listener : L}
    (h : own names a name = some listener) :
    names name = some listener ∧ (∀ mlm, a ≠ .api mlm (.unsubscribe name)) ∨
      (∃ mlm, a = .api mlm (.subscribe name listener) ∧ mlm.setConsumer = true) ∨
      (∃ mlm, a = .api mlm (.receive name listener)) ∨
      ∃ mlm queue message, a = .api mlm (.sendRequestWithListener queue message listener) := by
  cases a with
  | api mlm call =>
    cases call with
    | subscribe topic l =>
      cases hok : mlm.setConsumer with
      | false => exact Or.inl ⟨by simpa [own, hok] using h, by simp⟩
      | true =>
        simp only [own, hok, if_true] at h
        rcases claim_some h with hn | ⟨rfl, rfl⟩
        · exact Or.inl ⟨hn, by simp⟩
        · exact Or.inr (Or.inl ⟨mlm, rfl, hok⟩)
    | receive queue l =>
      rcases claim_some h with hn | ⟨rfl, rfl⟩
      · exact Or.inl ⟨hn, by simp⟩
      · exact Or.inr (Or.inr (Or.inl ⟨mlm, rfl⟩))
    | sendRequestWithListener queue message l =>
      cases hr : message.metaData.find Message.REPLY_TO with
      | none => exact Or.inl ⟨by simpa [own, hr] using h, by simp⟩
      | some replyTo =>
        by_cases hq : replyTo = []
        · exact Or.inl ⟨by simpa [own, hr, hq] using h, by simp⟩
        · simp only [own, hr, if_neg hq] at h
          rcases claim_some h with hn | ⟨_, rfl⟩
          · exact Or.inl ⟨hn, by simp⟩
          · exact Or.inr (Or.inr (Or.inr ⟨mlm, queue, message, rfl⟩))
    | unsubscribe topic =>
      by_cases hn : name = topic
      · subst hn
        simp [own] at h
      · refine Or.inl ⟨by simpa [own, hn] using h, ?_⟩
        intro mlm' he
        cases he
        exact hn rfl
    | _ => exact Or.inl ⟨h, by simp⟩
  | _ => exact Or.inl ⟨h, by simp⟩

/-- Whoever holds a name as a topic has subscribed to it. -/
theorem subscribed_of_holder {history : List (Action (Kind × L))} {topic : Bytes} {l : L}
    (hm : ∀ a ∈ history, Marked a) (h : holder history topic = some (.topic, l)) :
    Subscribed history topic := by
  induction history using List.reverseRecOn with
  | nil => simp at h
  | append_singleton history a ih =>
    have ha : Marked a := hm a (by simp)
    rw [holder_snoc] at h
    rcases own_some h with ⟨hf, hn⟩ | ⟨mlm, rfl, hok⟩ | ⟨mlm, rfl⟩ | ⟨mlm, queue, message, rfl⟩
    · obtain ⟨before, mlm, listener, after, he, hok, hafter⟩ :=
        ih (fun b hb => hm b (by simp [hb])) hf
      refine ⟨before, mlm, listener, after ++ [a], by simp [he], hok, ?_⟩
      intro mlm' hmem
      rcases List.mem_append.mp hmem with hmem | hmem
      · exact hafter mlm' hmem
      · exact hn mlm' (List.mem_singleton.mp hmem).symm
    · exact ⟨history, mlm, _, [], rfl, hok, by simp⟩
    · simp [Marked] at ha
    · simp [Marked] at ha

/-- The tag that an invocation has to carry, and may carry, in a step that handles
a message. -/
theorem addressed_kind (s : State (Kind × L)) (subject : Bytes) (message : Message) (k : Kind) :
    (∀ x ∈ addressed s subject message, x.1.1 ≠ k) ↔
      ∀ listener, s.client.bus.subscriptions.find subject ≠ some (k, listener) := by
  unfold addressed
  cases s.client.bus.subscriptions.find subject with
  | none => simp
  | some holder =>
    obtain ⟨j, l⟩ := holder
    simp only [Option.map_some, Option.toList_some, List.mem_singleton, forall_eq]
    constructor
    · intro h listener he
      cases he
      exact h rfl
    · intro h he
      subst he
      exact h l rfl

section Step

variable {history : List (Action (Kind × L))} {s t : State (Kind × L)}

theorem stream_apart_iff {subject : Bytes} {content : Zmsg}
    (h : Step s (.stream subject content) t) :
    Apart history s (.stream subject content) t ↔
      ∀ listener, s.client.bus.subscriptions.find subject ≠ some (.queue, listener) := by
  obtain ⟨message, _, hi⟩ := stream_invokes h
  rw [← addressed_kind s subject message]
  constructor
  · intro ha x hx hq
    obtain ⟨_, _, he⟩ := (ha.invoked _ hi x hx).2 hq
    cases he
  · intro hk
    refine ⟨?_, by simp⟩
    intro new hnew x hx
    have he : new = addressed s subject message := List.append_cancel_left (hnew.symm.trans hi)
    subst he
    exact ⟨fun _ => ⟨_, _, rfl⟩, fun hq => absurd hq (hk x hx)⟩

theorem mailbox_apart_iff {subject : Bytes} {content : Zmsg}
    (h : Step s (.mailbox subject content) t) :
    Apart history s (.mailbox subject content) t ↔
      (∃ message, fromZmsg content = .ok message ∧ syncMatch s.client.bus message = true) ∨
        ∀ listener, s.client.bus.subscriptions.find subject ≠ some (.topic, listener) := by
  obtain ⟨message, hd, ⟨hm, hi⟩ | ⟨hm, hi⟩⟩ := mailbox_invokes h
  · refine iff_of_true ⟨?_, by simp⟩ (Or.inl ⟨message, hd, hm⟩)
    intro new hnew x hx
    have he : new = [] := List.self_eq_append_right.mp (hi.symm.trans hnew)
    simp [he] at hx
  · have hno : ¬ ∃ m, fromZmsg content = .ok m ∧ syncMatch s.client.bus m = true := by
      intro ⟨m, hdm, hmm⟩
      cases hd.symm.trans hdm
      rw [hm] at hmm
      cases hmm
    rw [or_iff_right hno, ← addressed_kind s subject message]
    constructor
    · intro ha x hx ht
      obtain ⟨_, _, he⟩ := (ha.invoked _ hi x hx).1 ht
      cases he
    · intro hk
      refine ⟨?_, by simp⟩
      intro new hnew x hx
      have he : new = addressed s subject message := List.append_cancel_left (hnew.symm.trans hi)
      subst he
      exact ⟨fun ht => absurd ht (hk x hx), fun _ => ⟨_, _, rfl⟩⟩

/-- A step that is neither a message nor a release keeps the kinds apart. -/
theorem other_apart {a : Action (Kind × L)} (h : Step s a t)
    (hs : ∀ subject content, a ≠ .stream subject content)
    (hm : ∀ subject content, a ≠ .mailbox subject content)
    (hu : ∀ mlm topic, a ≠ .api mlm (.unsubscribe topic)) : Apart history s a t := by
  refine ⟨?_, fun mlm topic client he => absurd he (hu mlm topic)⟩
  intro new hnew x hx
  have he : new = [] :=
    List.self_eq_append_right.mp ((other_invokes h hs hm).symm.trans hnew)
  simp [he] at hx

theorem release_apart_iff {mlm : Mlm} {topic : Bytes}
    (h : Step s (.api mlm (.unsubscribe topic)) t) (hm : ∀ a ∈ history, Marked a)
    (hf : s.client.bus.subscriptions.find = holder history) :
    Apart history s (.api mlm (.unsubscribe topic)) t ↔
      ∀ listener, s.client.bus.subscriptions.find topic ≠ some (.queue, listener) := by
  have heq := unsubscribe_eq topic s.client
  constructor
  · intro ha listener hl
    rw [hl] at heq
    exact (ha.released mlm topic _ rfl heq).2 listener hl
  · intro hq
    refine ⟨?_, ?_⟩
    · intro new hnew x hx
      have he : new = [] := List.self_eq_append_right.mp
        ((other_invokes h (by simp) (by simp)).symm.trans hnew)
      simp [he] at hx
    · intro mlm' topic' client he hok
      cases he
      refine ⟨?_, hq⟩
      cases hl : s.client.bus.subscriptions.find topic with
      | none =>
        rw [hl] at heq
        cases heq.symm.trans hok
      | some taken =>
        obtain ⟨k, l⟩ := taken
        cases k with
        | queue => exact absurd hl (hq l)
        | topic =>
          rw [hf] at hl
          exact subscribed_of_holder hm hl

end Step

/-- In a run the topics and the queues stay apart at the very steps that do
nothing under a name of the other kind. -/
theorem apart_iff (clientName : Bytes) (as : List (Action (Kind × L)))
    (hm : ∀ a ∈ as, Marked a) :
    EveryStep Step (.new clientName) as Apart ↔
      EveryStep Step (.new clientName) as (fun history s a _ => Fits history s a) := by
  apply EveryStep.congr
  intro before a after s t he hrun hstep
  have hbefore : ∀ b ∈ before, Marked b := fun b hb => hm b (by simp [he, hb])
  have hf := find_holder hrun
  cases a with
  | stream subject content =>
    rw [stream_apart_iff hstep, hf]
    rfl
  | mailbox subject content =>
    rw [mailbox_apart_iff hstep, hf]
    rfl
  | api mlm call =>
    cases call with
    | unsubscribe topic =>
      rw [release_apart_iff hstep hbefore hf, hf]
      rfl
    | _ => exact iff_of_true (other_apart hstep (by simp) (by simp) (by simp)) trivial
  | _ => exact iff_of_true (other_apart hstep (by simp) (by simp) (by simp)) trivial

/-- Registering both kinds under one name does no harm as such. -/
theorem one_name_twice :
    EveryStep Step (.new (lit "bus"))
      [.api ⟨true, true, true⟩ (.receive (lit "name") (Kind.queue, ())),
        .api ⟨true, true, true⟩ (.subscribe (lit "name") (Kind.topic, ()))] Apart := by
  refine (apart_iff (lit "bus") _ (by simp [Marked])).mpr ?_
  intro before a after s t he _ _
  have ha : a ∈ before ++ a :: after := by simp
  rw [← he] at ha
  simp only [List.mem_cons, List.not_mem_nil, or_false] at ha
  rcases ha with rfl | rfl
  · trivial
  · trivial

/-- A message of a stream that the bus consumes has the name of a queue for its subject,
and reaches the listener of the queue. -/
theorem queue_gets_stream :
    ¬ ∀ (clientName : Bytes) (as : List (Action (Kind × Unit))), (∀ a ∈ as, Marked a) →
      EveryStep Step (.new clientName) as Apart := by
  intro h
  let mlm : Mlm := ⟨true, true, true⟩
  let fresh : State (Kind × Unit) := .new (lit "bus")
  let consuming : State (Kind × Unit) :=
    { fresh with
      client := final ((ApiCall.subscribe (lit "topic") (Kind.topic, ())).run mlm fresh.client) }
  let bound : State (Kind × Unit) :=
    { consuming with
      client := final ((ApiCall.receive (lit "name") (Kind.queue, ())).run mlm consuming.client) }
  have hrun : Run Step fresh [.api mlm (.subscribe (lit "topic") (Kind.topic, ())),
      .api mlm (.receive (lit "name") (Kind.queue, ()))] bound := by
    refine .cons (t := consuming) (.thread (.api ?_)) (.cons (.thread (.api ?_)) (.nil _))
    · intro client he
      cases he
    · intro client he
      cases he
  obtain ⟨t, ht⟩ : ∃ t, Step bound (.stream (lit "name") []) t := stream_possible rfl _ rfl
  have ha := h (lit "bus") [_, _, .stream (lit "name") []] (by simp [Marked]) _ _ _ _ _ rfl hrun ht
  exact (stream_apart_iff ht).mp ha () rfl

end Messagebus.Proofs.Kinds
