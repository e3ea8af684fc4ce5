import Messagebus.Proofs.Nodes

namespace Messagebus.Proofs.Registry
open Frame Runs Proofs.Calls Proofs.Requests

variable {L : Type}

/-- Taking a name which may be taken already. -/
def claim (names : Bytes → Option L) (name : Bytes) (listener : L) : Bytes → Option L :=
  Function.update names name (some ((names name).getD listener))

/-- Who holds which name after one more action. -/
def own (names : Bytes → Option L) : Action L → Bytes → Option L
  | .api mlm (.subscribe topic listener) =>
    if mlm.setConsumer then claim names topic listener else names
  | .api _ (.receive queue listener) => claim names queue listener
  | .api _ (.sendRequestWithListener _ message listener) =>
    match message.metaData.find Message.REPLY_TO with
    | some queue => if queue = [] then names else claim names queue listener
    | none => names
  | .api _ (.unsubscribe topic) => Function.update names topic none
  | _ => names

/-- Who holds which name, told from the history of a bus alone. -/
def holder (history : List (Action L)) : Bytes → Option L := history.foldl own (fun _ => none)

@[simp] theorem holder_nil : holder ([] : List (Action L)) = fun _ => none := rfl

@[simp] theorem holder_snoc (history : List (Action L)) (a : Action L) :
    holder (history ++ [a]) = own (holder history) a := by
  simp [holder]

theorem find_emplace_claim (m : SortedMap Bytes L) (name : Bytes) (listener : L) :
    (m.emplace name listener).find = claim m.find name listener := by
  funext key
  by_cases hk : key = name
  · subst hk
    simp [claim]
  · simp [claim, SortedMap.find_emplace_other m listener hk, hk]

theorem find_erase_update (m : SortedMap Bytes L) (name : Bytes) :
    (m.erase name).find = Function.update m.find name none := by
  funext key
  by_cases hk : key = name
  · subst hk
    simp
  · simp [SortedMap.find_erase_other m hk, hk]

/-- A name that is taken stays with its holder. -/
theorem claim_taken {names : Bytes → Option L} {name : Bytes} {listener taken : L}
    (h : names name = some taken) : claim names name listener = names := by
  unfold claim
  rw [h, Option.getD_some, ← h, Function.update_eq_self]

theorem claim_undisturbed {names : Bytes → Option L} {name taken : Bytes}
    {listener : L}
    (h : taken = name → names name ≠ none) : claim names taken listener name = names name := by
  by_cases hn : taken = name
  · subst hn
    obtain ⟨l, hl⟩ := Option.ne_none_iff_exists'.mp (h rfl)
    rw [claim_taken hl]
  · simp [claim, Ne.symm hn]

/-- Only an `unsubscribe` of the name takes a listener off it. -/
theorem own_held {names : Bytes → Option L} (mlm : Mlm) {call : ApiCall L} {name : Bytes}
    {listener : L} (h : names name = some listener) (hu : call ≠ .unsubscribe name) :
    own names (.api mlm call) name = some listener := by
  have hclaim : ∀ taken other, claim names taken other name = some listener := by
    intro taken other
    rw [← h]
    exact claim_undisturbed fun _ => by simp [h]
  cases call with
  | subscribe topic other =>
    simp only [own]
    split
    · exact hclaim topic other
    · exact h
  | unsubscribe topic =>
    have hn : name ≠ topic := fun hn => hu (congrArg ApiCall.unsubscribe hn.symm)
    exact (Function.update_of_ne hn _ _).trans h
  | receive queue other => exact hclaim queue other
  | sendRequestWithListener queue message other =>
    simp only [own]
    cases hr : message.metaData.find Message.REPLY_TO with
    | none => exact h
    | some replyTo =>
      by_cases hq : replyTo = []
      · simpa only [if_pos hq] using h
      · simpa only [if_neg hq] using hclaim replyTo other
  | _ => exact h

theorem receive_find (queue : Bytes) (listener : L) (c : Client L) :
    (final (receive queue listener c)).bus.subscriptions.find =
      claim c.bus.subscriptions.find queue listener := by
  rw [receive_eq]
  cases hf : c.bus.subscriptions.find queue with
  | some taken => exact (claim_taken hf).symm
  | none => exact find_emplace_claim _ _ _

theorem publish_subscriptions (mlm : Mlm) (topic : Bytes) (message : Message) (c : Client L) :
    (final (publish mlm topic message c)).bus.subscriptions = c.bus.subscriptions := by
  by_cases h : c.bus.publishTopic = []
  · rw [publish_first mlm topic message h]
    split
    · rfl
    · rfl
  · rw [publish_later mlm topic message h]
    split
    · rfl
    · rfl

theorem sendRequest_subscriptions (mlm : Mlm) (requestQueue : Bytes) (message : Message)
    (c : Client L) :
    (final (sendRequest mlm requestQueue message c)).bus.subscriptions = c.bus.subscriptions := by
  obtain ⟨address, subject, log, he⟩ := sendRequest_eq mlm requestQueue message c
  rw [he]
  rfl

theorem sendReply_subscriptions (mlm : Mlm) (replyQueue : Bytes) (message : Message)
    (c : Client L) :
    (final (sendReply mlm replyQueue message c)).bus.subscriptions = c.bus.subscriptions := by
  obtain ⟨log, he⟩ := sendReply_eq mlm replyQueue message c
  rw [he]
  split
  · rfl
  · split
    · rfl
    · rfl

theorem sendRequestWithListener_find (mlm : Mlm) (requestQueue : Bytes) (message : Message)
    (listener : L) (c : Client L) :
    (final (sendRequestWithListener mlm requestQueue message listener c)).bus.subscriptions.find =
      own c.bus.subscriptions.find
        (.api mlm (.sendRequestWithListener requestQueue message listener)) := by
  rcases sendRequestWithListener_eq mlm requestQueue message listener c with
    ⟨hr, he⟩ | ⟨queue, hr, hq, he⟩
  · rw [he]
    cases hf : message.metaData.find Message.REPLY_TO with
    | none => simp [own, hf, final]
    | some queue =>
      have hq : queue = [] := by simpa [missing, hf] using hr
      simp [own, hf, hq, final]
  · have hown := receive_find queue listener c
    rw [he]
    simp only [own, hr, if_neg hq]
    rw [← hown]
    cases receive queue listener c with
    | ok u c' => exact congrArg SortedMap.find (sendRequest_subscriptions mlm _ message c')
    | error fault c' => rfl

/-- What the calls do to the listeners is what the history says. -/
theorem api_find (mlm : Mlm) (call : ApiCall L) (c : Client L) :
    (final (call.run mlm c)).bus.subscriptions.find =
      own c.bus.subscriptions.find (.api mlm call) := by
  cases call with
  | publish topic message =>
    exact congrArg SortedMap.find (publish_subscriptions mlm topic message c)
  | sendRequest queue message =>
    exact congrArg SortedMap.find (sendRequest_subscriptions mlm queue message c)
  | sendReply queue message =>
    exact congrArg SortedMap.find (sendReply_subscriptions mlm queue message c)
  | receive queue listener => exact receive_find queue listener c
  | sendRequestWithListener queue message listener =>
    exact sendRequestWithListener_find mlm queue message listener c
  | subscribe topic listener =>
    change (final (subscribe mlm topic listener c)).bus.subscriptions.find = _
    rw [subscribe_eq]
    cases hok : mlm.setConsumer with
    | true =>
      simp only [own, hok, if_true]
      exact find_emplace_claim _ _ _
    | false => simp [own, hok, final]
  | unsubscribe topic =>
    change (final (unsubscribe topic c)).bus.subscriptions.find = _
    rw [unsubscribe_eq]
    cases hf : c.bus.subscriptions.find topic with
    | some listener => exact find_erase_update _ _
    | none =>
      simp only [own, final]
      rw [← hf, Function.update_eq_self]

theorem step_find {s t : State L} {a : Action L} (h : Step s a t) :
    t.client.bus.subscriptions.find = own s.client.bus.subscriptions.find a := by
  have hsame : (∀ mlm call, a ≠ .api mlm call) →
      t.client.bus.subscriptions = s.client.bus.subscriptions := by
    intro hapi
    refine Nodes.step_keeps (F := .same fun c => c.bus.subscriptions) h ⟨?_, ?_, ?_⟩
    · intro c c' he
      exact he.2.1
    · intro mlm call he
      exact absurd he (hapi mlm call)
    · intro i mlm requestQueue message receiveTimeOut address _ _ c
      rfl
  cases a with
  | api mlm call =>
    cases Nodes.own_thread (by simp) h with
    | api defined => exact api_find mlm call s.client
  | _ => exact congrArg SortedMap.find (hsame (by simp))

/-- The listeners of a bus are those that its history tells. -/
theorem run_find {s t : State L} {as : List (Action L)} (h : Run Step s as t) :
    t.client.bus.subscriptions.find = as.foldl own s.client.bus.subscriptions.find := by
  induction h with
  | nil => rfl
  | cons head tail ih =>
    rw [ih, step_find head]
    rfl

theorem find_holder {clientName : Bytes} {history : List (Action L)} {s : State L}
    (h : Run Step (.new clientName) history s) :
    s.client.bus.subscriptions.find = holder history :=
  run_find h

/-- The invocations that dispatching a message by its subject comes to. -/
def addressed (s : State L) (subject : Bytes) (message : Message) : List (L × Message) :=
  ((s.client.bus.subscriptions.find subject).map fun listener => (listener, message)).toList

theorem stream_invokes {s t : State L} {subject : Bytes} {content : Zmsg}
    (h : Step s (.stream subject content) t) :
    ∃ message, fromZmsg content = .ok message ∧
      t.invocations = s.invocations ++ addressed s subject message := by
  cases hd : fromZmsg content with
  | error fault =>
    have hf := (handlers_fault subject s.client hd).2
    cases Nodes.own_thread (by simp) h with
    | stream idle handles => cases hf.symm.trans handles
    | streamSkipped idle handles => cases hf.symm.trans handles
  | ok message =>
    refine ⟨message, rfl, ?_⟩
    have heq := listenerHandleStream_eq subject s.client hd
    cases hl : s.client.bus.subscriptions.find subject with
    | none =>
      simp only [hl] at heq
      cases Nodes.own_thread (by simp) h with
      | stream idle handles => cases heq.symm.trans handles
      | streamSkipped idle handles => simp [addressed, hl]
    | some listener =>
      simp only [hl] at heq
      cases Nodes.own_thread (by simp) h with
      | stream idle handles =>
        cases heq.symm.trans handles
        simp [addressed, hl, State.invoke]
      | streamSkipped idle handles => cases heq.symm.trans handles

/-- A mailbox message is stored as a response or dispatched by its subject. -/
theorem mailbox_invokes {s t : State L} {subject : Bytes} {content : Zmsg}
    (h : Step s (.mailbox subject content) t) :
    ∃ message, fromZmsg content = .ok message ∧
      (syncMatch s.client.bus message = true ∧ t.invocations = s.invocations ∨
        syncMatch s.client.bus message = false ∧
          t.invocations = s.invocations ++ addressed s subject message) := by
  obtain ⟨message, hd⟩ := mailbox_decodes h
  refine ⟨message, hd, ?_⟩
  cases hm : syncMatch s.client.bus message with
  | true =>
    obtain ⟨W, _, rfl⟩ := (match_step hd hm).mp h
    exact Or.inl ⟨rfl, rfl⟩
  | false =>
    refine Or.inr ⟨rfl, ?_⟩
    have heq := listenerHandleMailbox_eq subject s.client hd
    rw [hm, if_neg Bool.false_ne_true, dispatchMailbox_eq] at heq
    cases hl : s.client.bus.subscriptions.find subject with
    | some listener =>
      rw [(dispatch_step hd hm hl).mp h]
      simp [addressed, hl, State.invoke]
    | none =>
      simp only [hl] at heq
      cases h with
      | thread h => cases h
      | response handles notify => cases heq.symm.trans handles
      | invoke handles => cases heq.symm.trans handles
      | skipped handles => simp [addressed, hl]

/-- Nothing but a message invokes a listener. -/
theorem other_invokes {s t : State L} {a : Action L} (h : Step s a t)
    (hs : ∀ subject content, a ≠ .stream subject content)
    (hm : ∀ subject content, a ≠ .mailbox subject content) : t.invocations = s.invocations := by
  rcases Nodes.step_invocations h with he | ⟨subject, content, _, _, ha | ha, _⟩
  · exact he
  · exact absurd ha (hm subject content)
  · exact absurd ha (hs subject content)

/-- With its handlers as single steps the listener is idle between them. -/
theorem reachable_idle {s : State L} (h : Reachable Start Step s) : s.matched = none := by
  refine h.invariant (I := fun s => (sync s).matched = none) ?_ ?_
  · intro s hs
    rw [sync_new hs]
    rfl
  · intro s a t hi hs
    exact (step_matched hs).trans hi

theorem stream_possible {s : State L} (hs : s.matched = none) (subject : Bytes)
    {content : Zmsg} {message : Message} (hd : fromZmsg content = .ok message) :
    ∃ t, Step s (.stream subject content) t := by
  have heq := listenerHandleStream_eq subject s.client hd
  cases hl : s.client.bus.subscriptions.find subject with
  | none =>
    simp only [hl] at heq
    exact ⟨_, .thread (.streamSkipped hs heq)⟩
  | some listener =>
    simp only [hl] at heq
    exact ⟨_, .thread (.stream hs heq)⟩

end Messagebus.Proofs.Registry
