import Messagebus.Proofs.Registrations

namespace Messagebus.Proofs.Atomicity
open Frame Runs Proofs.Calls Proofs.Registry Proofs.Registrations

variable {L : Type}

/-- One call after the other, each with its answers of malamute. -/
def CallStep (c : Client L) (a : Mlm × ApiCall L) (c' : Client L) : Prop :=
  c' = final (a.2.run a.1 c)

/-- A call that throws leaves the listeners as they were and hands nothing over. -/
def Atomic (c : Client L) (a : Mlm × ApiCall L) : Prop :=
  ∀ fault c', a.2.run a.1 c = .error fault c' →
    c'.bus.subscriptions = c.bus.subscriptions ∧
      ∃ new, c'.calls = c.calls ++ new ∧ ∀ call ∈ new, call.content? = none

/-- A call that returns changes at most the listener of its own name. -/
def Local (c : Client L) (a : Mlm × ApiCall L) : Prop :=
  ∀ c', a.2.run a.1 c = .ok () c' → ∀ name, nameOf a.2 ≠ some name →
    c'.bus.subscriptions.find name = c.bus.subscriptions.find name

/-- The name and the listener of a call that gives a queue to a listener. -/
def binds? : ApiCall L → Option (Bytes × L)
  | .receive queue listener => some (queue, listener)
  | .sendRequestWithListener _ message listener =>
    (message.metaData.find Message.REPLY_TO).map fun queue => (queue, listener)
  | _ => none

/-- No `unsubscribe` of the name succeeds. -/
def Unreleased (name : Bytes) (c : Client L) (a : Mlm × ApiCall L) : Prop :=
  a.2 = .unsubscribe name → ∀ c', a.2.run a.1 c ≠ .ok () c'

/-- A listener that a call gave a queue has it, until the queue is released. -/
def Binding (c : Client L) (a : Mlm × ApiCall L) : Prop :=
  ∀ c', a.2.run a.1 c = .ok () c' → ∀ queue listener, binds? a.2 = some (queue, listener) →
    ∀ as c'', Run (restrict (Unreleased queue) CallStep) c' as c'' →
      c''.bus.subscriptions.find queue = some listener

/-- The listeners are as they were, and nothing has been handed over. -/
def Intact (c c' : Client L) : Prop :=
  c'.bus.subscriptions = c.bus.subscriptions ∧
    ∃ new, c'.calls = c.calls ++ new ∧ ∀ call ∈ new, call.content? = none

def IntactIfThrown (c : Client L) : EStateM.Result Fault (Client L) Unit → Prop
  | .ok _ _ => True
  | .error _ c' => Intact c c'

theorem Intact.refl (c : Client L) : Intact c c := ⟨rfl, [], (List.append_nil _).symm, by simp⟩

theorem Intact.control {c c' : Client L} {call : MlmCall}
    (hs : c'.bus.subscriptions = c.bus.subscriptions) (hc : c'.calls = c.calls ++ [call])
    (hcontent : call.content? = none) : Intact c c' :=
  ⟨hs, [call], hc, by simp [hcontent]⟩

theorem publish_intact (mlm : Mlm) (topic : Bytes) (message : Message) (c : Client L) :
    IntactIfThrown c (publish mlm topic message c) := by
  by_cases hfirst : c.bus.publishTopic = []
  · rw [publish_first mlm topic message hfirst]
    split
    · trivial
    · exact Intact.control rfl rfl rfl
  · rw [publish_later mlm topic message hfirst]
    split
    · trivial
    · exact Intact.refl c

theorem subscribe_intact (mlm : Mlm) (topic : Bytes) (listener : L) (c : Client L) :
    IntactIfThrown c (subscribe mlm topic listener c) := by
  rw [subscribe_eq]
  split
  · trivial
  · exact Intact.control rfl rfl rfl

theorem unsubscribe_intact (topic : Bytes) (c : Client L) :
    IntactIfThrown c (unsubscribe topic c) := by
  rw [unsubscribe_eq]
  split
  · exact Intact.refl c
  · trivial

theorem receive_intact (queue : Bytes) (listener : L) (c : Client L) :
    IntactIfThrown c (receive queue listener c) := by
  rw [receive_eq]
  split
  · exact Intact.refl c
  · trivial

/-- Once the listener has its queue nothing throws any more. -/
theorem sendRequestWithListener_intact (mlm : Mlm) (requestQueue : Bytes) (message : Message)
    (listener : L) (c : Client L) :
    IntactIfThrown c (sendRequestWithListener mlm requestQueue message listener c) := by
  rcases sendRequestWithListener_eq mlm requestQueue message listener c with
    ⟨_, he⟩ | ⟨replyTo, _, _, he⟩
  · rw [he]
    exact Intact.refl c
  · have hreceive := receive_intact replyTo listener c
    rw [he]
    cases hr : receive replyTo listener c with
    | error fault c' =>
      rw [hr] at hreceive
      exact hreceive
    | ok u c' =>
      obtain ⟨address, subject, log, hsend⟩ := sendRequest_eq mlm requestQueue message c'
      simp only [hsend]
      trivial

theorem sendReply_intact (mlm : Mlm) (replyQueue : Bytes) (message : Message) (c : Client L) :
    IntactIfThrown c (sendReply mlm replyQueue message c) := by
  obtain ⟨log, he⟩ := sendReply_eq mlm replyQueue message c
  rw [he]
  split
  · exact Intact.refl c
  · split
    · exact Intact.refl c
    · trivial

theorem atomic (c : Client L) (a : Mlm × ApiCall L) : Atomic c a := by
  obtain ⟨mlm, call⟩ := a
  have hintact : IntactIfThrown c (call.run mlm c) := by
    cases call with
    | publish topic message => exact publish_intact mlm topic message c
    | subscribe topic listener => exact subscribe_intact mlm topic listener c
    | unsubscribe topic => exact unsubscribe_intact topic c
    | sendRequest queue message =>
      obtain ⟨address, subject, log, he⟩ := sendRequest_eq mlm queue message c
      change IntactIfThrown c (sendRequest mlm queue message c)
      rw [he]
      trivial
    | sendRequestWithListener queue message listener =>
      exact sendRequestWithListener_intact mlm queue message listener c
    | sendReply queue message => exact sendReply_intact mlm queue message c
    | receive queue listener => exact receive_intact queue listener c
  intro fault c' h
  change IntactIfThrown c (.error fault c')
  rw [← h]
  exact hintact

/-- Nobody else's listener is touched. -/
theorem own_other (names : Bytes → Option L) (mlm : Mlm) {call : ApiCall L} {name : Bytes}
    (h : nameOf call ≠ some name) : own names (.api mlm call) name = names name := by
  have hclaim : ∀ taken listener, taken ≠ name → claim names taken listener name = names name :=
    fun taken listener hn => claim_undisturbed fun he => absurd he hn
  cases call with
  | subscribe topic listener =>
    simp only [own]
    split
    · exact hclaim topic listener fun hn => h (congrArg some hn)
    · rfl
  | unsubscribe topic => exact Function.update_of_ne (fun hn => h (congrArg some hn.symm)) _ _
  | receive queue listener => exact hclaim queue listener fun hn => h (congrArg some hn)
  | sendRequestWithListener queue message listener =>
    simp only [own]
    cases hr : message.metaData.find Message.REPLY_TO with
    | none => rfl
    | some replyTo =>
      by_cases hq : replyTo = []
      · simp only [if_pos hq]
      · simp only [if_neg hq]
        exact hclaim replyTo listener fun hn => h (hr.trans (congrArg some hn))
  | _ => rfl

theorem call_local (c : Client L) (a : Mlm × ApiCall L) : Local c a := by
  intro c' hok name hn
  have hf := api_find a.1 a.2 c
  rw [hok] at hf
  change c'.bus.subscriptions.find = _ at hf
  rw [hf]
  exact own_other _ a.1 hn

theorem held_step {c c' : Client L} {a : Mlm × ApiCall L} {name : Bytes} {listener : L}
    (hf : c.bus.subscriptions.find name = some listener)
    (h : restrict (Unreleased name) CallStep c a c') :
    c'.bus.subscriptions.find name = some listener := by
  obtain ⟨hu, rfl⟩ := h
  rw [api_find]
  apply own_held a.1 hf
  intro he
  have heq := unsubscribe_eq name c
  rw [hf] at heq
  have hrun : a.2.run a.1 c = unsubscribe name c := by
    rw [he]
    rfl
  exact hu he _ (hrun.trans heq)

/-- A call that gives a queue to a listener and returns has found the queue free. -/
theorem binds_find {c c' : Client L} {a : Mlm × ApiCall L} {queue : Bytes} {listener : L}
    (hok : a.2.run a.1 c = .ok () c') (hb : binds? a.2 = some (queue, listener)) :
    c'.bus.subscriptions.find queue = some listener := by
  have hreceive : ∀ c₁, receive queue listener c = .ok () c₁ →
      c₁.bus.subscriptions.find queue = some listener := by
    intro c₁ h
    rw [receive_eq] at h
    cases hf : c.bus.subscriptions.find queue with
    | some taken => simp [hf] at h
    | none =>
      simp only [hf] at h
      cases h
      simp [hf]
  obtain ⟨mlm, call⟩ := a
  cases call with
  | receive queue' listener' =>
    cases hb
    exact hreceive c' hok
  | sendRequestWithListener requestQueue message listener' =>
    obtain ⟨replyTo, hr, hp⟩ := Option.map_eq_some_iff.mp hb
    cases hp
    rcases sendRequestWithListener_eq mlm requestQueue message listener c with
      ⟨_, he⟩ | ⟨queue', hr', _, he⟩
    · cases hok.symm.trans he
    · cases hr.symm.trans hr'
      have he := hok.symm.trans he
      cases hc : receive queue listener c with
      | error fault c₁ => simp [hc] at he
      | ok u c₁ =>
        simp only [hc] at he
        have hs := sendRequest_subscriptions mlm requestQueue message c₁
        rw [← he] at hs
        change c'.bus.subscriptions = _ at hs
        rw [hs]
        exact hreceive c₁ hc
  | _ => cases hb

theorem binding (c : Client L) (a : Mlm × ApiCall L) : Binding c a := by
  intro c' hok queue listener hb as c'' hrun
  refine Run.invariant (I := fun c => c.bus.subscriptions.find queue = some listener) hrun
    (binds_find hok hb) ?_
  intro c a c' hf hstep
  exact held_step hf hstep

/-- In every history of calls, those that throw leave the listeners alone and send
nothing, the others touch no name but their own, and a queue stays with its listener. -/
theorem registry_calls (c : Client L) (as : List (Mlm × ApiCall L)) :
    EveryStep CallStep c as fun _ c a _ => Atomic c a ∧ Local c a ∧ Binding c a :=
  fun _ a _ c _ _ _ _ => ⟨atomic c a, call_local c a, binding c a⟩

end Messagebus.Proofs.Atomicity
