import Messagebus.Streams
import Messagebus.Proofs.Levels
import Messagebus.Proofs.Registry

namespace Messagebus.Proofs.Streams
open Frame Runs Proofs.Calls Proofs.Requests Proofs.Nodes

variable {ι L : Type}

/-- Has nothing to do with what a client sends on streams. -/
def apart : MlmCall → Bool
  | .setProducer _ _ | .send _ _ _ => false
  | .setConsumer _ _ | .sendto _ _ _ _ => true

theorem declared_apart {calls new : List MlmCall} (h : ∀ call ∈ new, apart call = true) :
    declared (calls ++ new) = declared calls := by
  have hnone : new.filterMap MlmCall.declares = [] := by
    refine List.filterMap_eq_nil_iff.mpr ?_
    intro call hcall
    have ha := h call hcall
    cases call with
    | setProducer | send => cases ha
    | setConsumer | sendto => rfl
  unfold declared
  rw [List.filterMap_append, hnone, List.append_nil]

theorem declared_setProducer (calls : List MlmCall) (topic : Bytes) :
    declared (calls ++ [.setProducer topic true]) = some topic := by
  simp [declared, List.filterMap_append, MlmCall.declares]

theorem declared_send (calls : List MlmCall) (topic : Bytes) (content : Zmsg) (ok : Bool) :
    declared (calls ++ [.send topic content ok]) = declared calls := by
  simp [declared, List.filterMap_append, MlmCall.declares]

theorem declared_refused (calls : List MlmCall) (topic : Bytes) :
    declared (calls ++ [.setProducer topic false]) = declared calls := by
  simp [declared, List.filterMap_append, MlmCall.declares]

/-- Of what a client has sent only the calls made since count. -/
theorem mem_streamed {sender : ι} {c c' : Client L} {l : List MlmCall} {x : Streamed ι}
    (hc : c'.calls = c.calls ++ l) (hx : x ∈ streamed sender c c') :
    declared c'.calls = some x.stream ∧ x.sender = some sender ∧
      .send x.subject x.content true ∈ l := by
  unfold streamed at hx
  cases hd : declared c'.calls with
  | none =>
    rw [hd] at hx
    cases hx
  | some stream =>
    rw [hd, hc, List.drop_left] at hx
    obtain ⟨call, hcall, he⟩ := List.mem_filterMap.mp hx
    cases call with
    | send subject content ok =>
      cases ok with
      | false => cases he
      | true =>
        cases he
        exact ⟨rfl, rfl, hcall⟩
    | _ => cases he

/-- Nothing is declared or sent on a stream. -/
def mute : Footprint (Client L) where
  rel c c' := c'.bus.publishTopic = c.bus.publishTopic ∧
    ∃ new, c'.calls = c.calls ++ new ∧ ∀ call ∈ new, apart call = true
  refl c := ⟨rfl, [], (List.append_nil c.calls).symm, by simp⟩
  trans c c' c'' h h' := by
    obtain ⟨ht, new, hc, hm⟩ := h
    obtain ⟨ht', new', hc', hm'⟩ := h'
    refine ⟨ht'.trans ht, new ++ new', by rw [hc', hc, List.append_assoc], ?_⟩
    intro call hcall
    rcases List.mem_append.mp hcall with h | h
    · exact hm call h
    · exact hm' call h

theorem mute_streamed {sender : ι} {c c' : Client L} (h : mute.rel c c') :
    streamed sender c c' = [] := by
  obtain ⟨_, new, hc, hm⟩ := h
  refine List.eq_nil_iff_forall_not_mem.mpr ?_
  intro x hx
  cases hm _ (mem_streamed hc hx).2.2

theorem mute_calls {c c' : Client L} {call : MlmCall}
    (ht : c'.bus.publishTopic = c.bus.publishTopic) (hc : c'.calls = c.calls ++ [call])
    (ha : apart call = true) : mute.rel c c' :=
  ⟨ht, [call], hc, fun _ h => List.mem_singleton.mp h ▸ ha⟩

theorem mute_same {c c' : Client L} (ht : c'.bus.publishTopic = c.bus.publishTopic)
    (hc : c'.calls = c.calls) : mute.rel c c' :=
  ⟨ht, [], by rw [hc, List.append_nil], by simp⟩

theorem sendRequest_mute (mlm : Mlm) (requestQueue : Bytes) (message : Message) :
    Keeps mute (sendRequest mlm requestQueue message : Op L Unit) := by
  intro c
  obtain ⟨address, subject, log, he⟩ := sendRequest_eq mlm requestQueue message c
  rw [he]
  exact mute_calls rfl rfl rfl

theorem receive_mute (queue : Bytes) (listener : L) : Keeps mute (receive queue listener) := by
  intro c
  rw [receive_eq]
  cases c.bus.subscriptions.find queue with
  | some taken => exact mute.refl c
  | none => exact mute_same rfl rfl

theorem api_mute (mlm : Mlm) {call : ApiCall L}
    (h : ∀ topic message, call ≠ .publish topic message) : Keeps mute (call.run mlm) := by
  intro c
  cases call with
  | publish topic message => exact absurd rfl (h topic message)
  | subscribe topic listener =>
    change mute.rel c (final (subscribe mlm topic listener c))
    rw [subscribe_eq]
    split
    · exact mute_calls rfl rfl rfl
    · exact mute_calls rfl rfl rfl
  | unsubscribe topic =>
    change mute.rel c (final (unsubscribe topic c))
    rw [unsubscribe_eq]
    cases c.bus.subscriptions.find topic with
    | none => exact mute.refl c
    | some listener => exact mute_same rfl rfl
  | sendRequest queue message => exact sendRequest_mute mlm queue message c
  | sendRequestWithListener queue message listener =>
    change mute.rel c (final (sendRequestWithListener mlm queue message listener c))
    rcases sendRequestWithListener_eq mlm queue message listener c with
      ⟨_, he⟩ | ⟨replyTo, _, _, he⟩
    · rw [he]
      exact mute.refl c
    · rw [he]
      have hr := receive_mute replyTo listener c
      cases hc : receive replyTo listener c with
      | ok u c' =>
        rw [hc] at hr
        exact mute.trans _ _ _ hr (sendRequest_mute mlm queue message c')
      | error fault c' =>
        rw [hc] at hr
        exact hr
  | sendReply queue message =>
    change mute.rel c (final (sendReply mlm queue message c))
    obtain ⟨log, he⟩ := sendReply_eq mlm queue message c
    rw [he]
    split
    · exact mute.refl c
    · split
      · exact mute_same rfl rfl
      · exact mute_calls rfl rfl rfl
  | receive queue listener => exact receive_mute queue listener c

theorem dispatch_mute {subject : Bytes} {message : Message} {c c' : Client L}
    {handled : Handled L} (h : dispatchMailbox subject message c = .ok handled c') :
    mute.rel c c' :=
  mute_same (congrArg Bus.publishTopic (dispatch_sync h)) (dispatch_alike h).2.2

theorem arm_mute (message : Message) (c : Client L) :
    mute.rel c (final (requestArm message c)) := by
  refine mute_same ?_ (arm_alike message c).2.2
  rcases requestArm_cases message c with ⟨_, he⟩ | ⟨uuid, _, _, ⟨_, he⟩ | ⟨address, _, _, he⟩⟩
  · rw [he]
    rfl
  · rw [he]
    rfl
  · rw [he]
    rfl

/-- Only `publish` has to do with streams. -/
theorem loose_mute {s t : State L} {a : Action L} (h : LooseStep s a t)
    (ha : ∀ mlm topic message, a ≠ .api mlm (.publish topic message)) :
    mute.rel s.client t.client := by
  cases h with
  | spurious waits asleep => exact mute.refl _
  | fine h =>
    cases h with
    | compare idle decodes hit => exact mute.refl _
    | store pending notify => exact mute_same rfl rfl
    | invoke idle decodes miss dispatches => exact dispatch_mute dispatches
    | skipped idle decodes miss dispatches => exact dispatch_mute dispatches
    | thread h =>
      cases h with
      | call fresh =>
        rw [call_client]
        exact arm_mute _ s.client
      | send armed => exact mute_calls rfl rfl rfl
      | ret waits notified => exact mute.refl _
      | timeOut waits => exact mute.refl _
      | api defined =>
        exact api_mute _ (fun topic message he => ha _ topic message (congrArg _ he)) s.client
      | stream idle handles =>
        cases stream_sync handles
        exact mute.refl _
      | streamSkipped idle handles =>
        cases stream_sync handles
        exact mute.refl _

/-- A stream with a name is declared for the topic on record. -/
def Declares (c : Client L) : Prop :=
  ∀ stream, declared c.calls = some stream → stream ≠ [] → cStr c.bus.publishTopic = stream

theorem Declares.mute {c c' : Client L} (h : Declares c) (hm : mute.rel c c') : Declares c' := by
  obtain ⟨ht, new, hc, ha⟩ := hm
  intro stream hd hne
  rw [hc, declared_apart ha] at hd
  rw [ht]
  exact h stream hd hne

/-- What goes out on a stream with a name has the name for its subject. -/
def Speaks (sender : ι) (topic : Bytes) (message : Message) (c c' : Client L) : Prop :=
  Declares c' ∧ ∀ x ∈ streamed sender c c', x.stream ≠ [] →
    x = ⟨some sender, cStr topic, cStr topic, toZmsg message⟩

theorem speaks_calls {sender : ι} {topic : Bytes} {message : Message} {c c' : Client L}
    {l : List MlmCall} (hd : Declares c') (ht : c'.bus.publishTopic = topic)
    (hc : c'.calls = c.calls ++ l)
    (hm : ∀ call ∈ l, call = .setProducer (cStr topic) true ∨
      ∃ ok, call = .send (cStr topic) (toZmsg message) ok) :
    Speaks sender topic message c c' := by
  refine ⟨hd, ?_⟩
  intro x hx hne
  obtain ⟨hstream, hsender, hsend⟩ := mem_streamed hc hx
  have hname := hd x.stream hstream hne
  rw [ht] at hname
  rcases hm _ hsend with he | ⟨ok, he⟩
  · cases he
  · obtain ⟨sender, stream, subject, content⟩ := x
    cases he
    subst hname
    subst hsender
    rfl

theorem publish_speaks (sender : ι) (mlm : Mlm) (topic : Bytes) (message : Message)
    {c : Client L} (h : Declares c) :
    Speaks sender topic message c (final (publish mlm topic message c)) := by
  by_cases ht : c.bus.publishTopic = []
  · rw [publish_first mlm topic message ht]
    split
    · refine speaks_calls (l := [.setProducer (cStr topic) true,
        .send (cStr topic) (toZmsg message) mlm.send]) ?_ rfl (by simp [final]) ?_
      · intro stream hd _
        simp only [final, declared_send, declared_setProducer, Option.some.injEq] at hd
        exact hd
      · intro call hcall
        rcases List.mem_cons.mp hcall with rfl | hcall
        · exact Or.inl rfl
        · exact Or.inr ⟨mlm.send, List.mem_singleton.mp hcall⟩
    · -- The topic is on record, but the client may still send on the stream without a name.
      refine ⟨?_, ?_⟩
      · intro stream hd hne
        simp only [final, declared_refused] at hd
        have hnil := h stream hd hne
        rw [ht] at hnil
        exact absurd hnil.symm hne
      · intro x hx _
        cases List.mem_singleton.mp (mem_streamed (l := [_]) rfl hx).2.2
  · rw [publish_later mlm topic message ht]
    split
    · rename_i he
      refine speaks_calls (l := [.send (cStr topic) (toZmsg message) mlm.send])
        ?_ he.symm rfl ?_
      · intro stream hd hne
        simp only [final, declared_send] at hd
        exact h stream hd hne
      · exact fun call hcall => Or.inr ⟨mlm.send, List.mem_singleton.mp hcall⟩
    · refine ⟨h, ?_⟩
      intro x hx _
      cases (mem_streamed (l := []) (List.append_nil _).symm hx).2.2

/-- What a step of a bus sends on a stream. -/
theorem loose_speaks (sender : ι) {s t : State L} {a : Action L} (h : LooseStep s a t)
    (hd : Declares s.client) :
    Declares t.client ∧ ∀ x ∈ streamed sender s.client t.client, x.stream ≠ [] →
      ∃ mlm topic message, a = .api mlm (.publish topic message) ∧
        x = ⟨some sender, cStr topic, cStr topic, toZmsg message⟩ := by
  by_cases ha : ∃ mlm topic message, a = .api mlm (.publish topic message)
  · obtain ⟨mlm, topic, message, rfl⟩ := ha
    have ht : t.client = final (publish mlm topic message s.client) := by
      cases h with
      | fine h =>
        cases h with
        | thread h =>
          cases h with
          | api defined => rfl
    rw [ht]
    obtain ⟨hd', hx⟩ := publish_speaks sender mlm topic message hd
    exact ⟨hd', fun x hm hne => ⟨mlm, topic, message, rfl, hx x hm hne⟩⟩
  · have hm := loose_mute h fun mlm topic message he => ha ⟨mlm, topic, message, he⟩
    refine ⟨hd.mute hm, ?_⟩
    rw [mute_streamed hm]
    nofun

/-- A message of a topic invokes the listener of the topic. -/
theorem loose_stream {topic : Bytes} {listener : L} {content : Zmsg} {s t : State L}
    (h : LooseStep s (.stream topic content) t)
    (hs : s.client.bus.subscriptions.find topic = some listener) :
    ∃ message, fromZmsg content = .ok message ∧
      t.invocations = s.invocations ++ [(listener, message)] := by
  have hthread : ThreadStep s (.stream topic content) t := by
    cases h with
    | fine h =>
      cases h with
      | thread h => exact h
  obtain ⟨message, hd, ht⟩ := Registry.stream_invokes (.thread hthread)
  refine ⟨message, hd, ?_⟩
  rw [ht, Registry.addressed, hs]
  rfl

/-- A bus that has a listener for a topic and gets its messages. -/
structure Listening (topic : Bytes) (listener : L) (s : State L) : Prop where
  bound : s.client.bus.subscriptions.find topic = some listener
  consumed : consumes s.client.calls topic

theorem loose_listening {topic : Bytes} {listener : L} {s t : State L} {a : Action L}
    (hl : Listening topic listener s) (h : LooseStep s a t)
    (ha : ∀ mlm, a ≠ .api mlm (.unsubscribe topic)) : Listening topic listener t :=
  ⟨loose_holds h ha hl.bound, (loose_keeps h (Levels.adds_guards s a)).subset hl.consumed⟩

section Net

variable {names : ι → Bytes} {n m : StreamNet ι L}

/-- What is on its way from a stream with a name has the name for its subject. -/
structure Sound (n : StreamNet ι L) : Prop where
  declares : ∀ i, Declares (n.nodes i).client
  named : ∀ i, ∀ x ∈ n.inbox i, x.stream ≠ [] → x.subject = x.stream

theorem start_sound (h : n.Start names) : Sound n := by
  cases h
  exact ⟨fun _ => nofun, fun _ _ hx => absurd hx List.not_mem_nil⟩

variable [DecidableEq ι] {echoes : Bool} {a : StreamAction ι L}

theorem spread_named (hs : Sound n) {xs : List (Streamed ι)}
    (hx : ∀ x ∈ xs, x.stream ≠ [] → x.subject = x.stream) :
    ∀ i, ∀ x ∈ (n.spread echoes xs).inbox i, x.stream ≠ [] → x.subject = x.stream := by
  intro i x hm
  rcases List.mem_append.mp hm with hm | hm
  · exact hs.named i x hm
  · exact hx x (List.mem_of_mem_filter hm)

theorem update_declares (hs : Sound n) {i : ι} {u : State L} (hu : Declares u.client) (j : ι) :
    Declares (Function.update n.nodes i u j).client := by
  rcases eq_or_ne j i with rfl | hj
  · rw [Function.update_self]
    exact hu
  · rw [Function.update_of_ne hj]
    exact hs.declares j

theorem step_sound (hs : Sound n) (h : StreamStep echoes n a m) : Sound m := by
  cases h with
  | @act i a u own step =>
    obtain ⟨hu, hx⟩ := loose_speaks i step (hs.declares i)
    refine ⟨update_declares hs hu, spread_named hs ?_⟩
    intro x hm hne
    obtain ⟨_, _, _, _, rfl⟩ := hx x hm hne
    rfl
  | @deliver i x before after u waits next step =>
    refine ⟨update_declares hs (loose_speaks i step (hs.declares i)).1, ?_⟩
    intro j y hy
    rcases eq_or_ne j i with rfl | hj
    · have hy' : y ∈ before ++ after := by simpa [StreamNet.deliver] using hy
      refine hs.named j y (waits ▸ ?_)
      exact (List.sublist_cons_self x after).append_left before |>.subset hy'
    · have hy' : y ∈ n.inbox j := by simpa [StreamNet.deliver, hj] using hy
      exact hs.named j y hy'
  | post =>
    refine ⟨hs.declares, spread_named hs ?_⟩
    intro x hm _
    rw [List.mem_singleton.mp hm]

theorem reachable_sound (h : Reachable (StreamNet.Start names) (StreamStep echoes) n) :
    Sound n :=
  h.invariant (fun _ => start_sound) fun _ _ _ => step_sound

theorem sentOn_append (i : ι) (stream : Bytes) (xs ys : List (Streamed ι)) :
    sentOn echoes i stream (xs ++ ys) = sentOn echoes i stream xs ++ sentOn echoes i stream ys := by
  simp [sentOn]

/-- What one client hears of a topic: the listener of the topic gets the messages
that were waiting and those that come in, in their order, as far as they are
handled. -/
def hears (echoes : Bool) (j : ι) (topic : Bytes) (listener : L) : Footprint (StreamNet ι L) where
  rel n m := ∃ xs heard, m.archive = n.archive ++ xs ∧
    m.passed j topic = n.passed j topic ++ heard.map (fun message => (listener, message)) ∧
    heard.map .ok ++ m.waiting j topic = n.waiting j topic ++ sentOn echoes j topic xs
  refl n := ⟨[], [], (List.append_nil _).symm, (List.append_nil _).symm, (List.append_nil _).symm⟩
  trans n m k h h' := by
    obtain ⟨xs, heard, ha, hp, hw⟩ := h
    obtain ⟨xs', heard', ha', hp', hw'⟩ := h'
    refine ⟨xs ++ xs', heard ++ heard', ?_, ?_, ?_⟩
    · rw [ha', ha, List.append_assoc]
    · rw [hp', hp, List.map_append, List.append_assoc]
    · rw [List.map_append, List.append_assoc, hw', ← List.append_assoc, hw, List.append_assoc,
        sentOn_append]

variable {j : ι} {topic : Bytes} {listener : L}

theorem spread_hears (hl : Listening topic listener (n.nodes j)) (xs : List (Streamed ι)) :
    (hears echoes j topic listener).rel n (n.spread echoes xs) := by
  refine ⟨xs, [], rfl, (List.append_nil _).symm, ?_⟩
  change ((n.inbox j ++ xs.filter (n.takes echoes j)).filter _).map _ = _
  rw [List.filter_append, List.map_append, List.filter_filter]
  refine congrArg (n.waiting j topic ++ List.map _ ·) (List.filter_congr ?_)
  intro x _
  by_cases hx : x.stream = topic
  · simp [StreamNet.takes, hx, hl.consumed]
  · simp [hx]

theorem deliver_hears (ht : topic ≠ []) (hs : Sound n) (hl : Listening topic listener (n.nodes j))
    {i : ι} {x : Streamed ι} {before after : List (Streamed ι)} {u : State L}
    (waits : n.inbox i = before ++ x :: after) (next : ∀ y ∈ before, y.stream ≠ x.stream)
    (step : LooseStep (n.nodes i) (.stream x.subject x.content) u) :
    (hears echoes j topic listener).rel n (n.deliver i x (before ++ after) u) := by
  rcases eq_or_ne i j with rfl | hij
  · by_cases hx : x.stream = topic
    · have hsubject : x.subject = topic := by
        rw [hs.named i x (waits ▸ List.mem_append_right _ List.mem_cons_self) (hx ▸ ht), hx]
      rw [hsubject] at step
      obtain ⟨message, hd, hu⟩ := loose_stream step hl.bound
      have hfirst : before.filter (fun y => y.stream = topic) = [] := by
        refine List.filter_eq_nil_iff.mpr ?_
        intro y hy
        simpa [hx] using next y hy
      refine ⟨[], [message], (List.append_nil _).symm, ?_, ?_⟩
      · simp [StreamNet.passed, StreamNet.deliver, hu, hx]
      · simp [StreamNet.waiting, StreamNet.deliver, waits, hfirst, hx, hd, sentOn]
    · refine ⟨[], [], (List.append_nil _).symm, ?_, ?_⟩
      · simp only [StreamNet.passed, StreamNet.deliver, Function.update_self,
          Tagged.select_append, Tagged.select_map_other hx, List.map_nil]
      · simp [StreamNet.waiting, StreamNet.deliver, waits, hx, sentOn]
  · refine ⟨[], [], (List.append_nil _).symm, ?_, ?_⟩
    · simp [StreamNet.passed, StreamNet.deliver, hij.symm]
    · simp [StreamNet.waiting, StreamNet.deliver, hij.symm, sentOn]

/-- Every step but one that takes the listener off its topic. -/
def Stays (j : ι) (topic : Bytes) (_ : StreamNet ι L) (a : StreamAction ι L) : Prop :=
  ∀ mlm, a ≠ .act j (.api mlm (.unsubscribe topic))

theorem step_listening (hl : Listening topic listener (n.nodes j)) (ha : Stays j topic n a)
    (h : StreamStep echoes n a m) : Listening topic listener (m.nodes j) := by
  cases h with
  | @act i b u own step =>
    change Listening topic listener (Function.update n.nodes i u j)
    rcases eq_or_ne j i with rfl | hj
    · rw [Function.update_self]
      exact loose_listening hl step fun mlm he => ha mlm (congrArg _ he)
    · rw [Function.update_of_ne hj]
      exact hl
  | @deliver i x before after u waits next step =>
    change Listening topic listener (Function.update n.nodes i u j)
    rcases eq_or_ne j i with rfl | hj
    · rw [Function.update_self]
      exact loose_listening hl step (by simp)
    · rw [Function.update_of_ne hj]
      exact hl
  | post => exact hl

theorem step_hears (ht : topic ≠ []) (hs : Sound n) (hl : Listening topic listener (n.nodes j))
    (h : StreamStep echoes n a m) : (hears echoes j topic listener).rel n m := by
  cases h with
  | @act i b u own step =>
    have hspread : (hears echoes j topic listener).rel n _ :=
      spread_hears hl (streamed i (n.nodes i).client u.client)
    exact hspread
  | deliver waits next step => exact deliver_hears ht hs hl waits next step
  | post => exact spread_hears hl _

theorem run_hears (ht : topic ≠ []) (hs : Sound n) (hl : Listening topic listener (n.nodes j))
    {as : List (StreamAction ι L)} (h : Run (restrict (Stays j topic) (StreamStep echoes)) n as m) :
    (hears echoes j topic listener).rel n m := by
  have hinv : Sound m ∧ Listening topic listener (m.nodes j) ∧
      (hears echoes j topic listener).rel n m := by
    refine h.invariant (I := fun m => Sound m ∧ Listening topic listener (m.nodes j) ∧
      (hears echoes j topic listener).rel n m) ⟨hs, hl, Footprint.refl _ n⟩ ?_
    intro k b k' hi hstep
    obtain ⟨hk, hlk, hr⟩ := hi
    exact ⟨step_sound hk hstep.2, step_listening hlk hstep.1 hstep.2,
      Footprint.trans _ _ _ _ hr (step_hears ht hk hlk hstep.2)⟩
  exact hinv.2.2

/-- What is on record from a bus on a stream with a name has been published by it. -/
def Published (as : List (StreamAction ι L)) (x : Streamed ι) : Prop :=
  ∀ i, x.sender = some i → ∃ mlm name message,
    StreamAction.act i (.api mlm (.publish name message)) ∈ as ∧ cStr name = x.stream ∧
      x.content = toZmsg message

omit [DecidableEq ι] in
theorem Published.elsewhere {as : List (StreamAction ι L)} {x : Streamed ι} {i : ι}
    (h : Published as x) (hno : ∀ mlm name message, cStr name = x.stream →
      StreamAction.act i (.api mlm (.publish name message)) ∉ as) : x.sender ≠ some i := by
  intro hi
  obtain ⟨mlm, name, message, hm, hname, _⟩ := h i hi
  exact hno mlm name message hname hm

theorem step_archive (hs : Sound n) (h : StreamStep echoes n a m) :
    ∃ xs, m.archive = n.archive ++ xs ∧ ∀ x ∈ xs, x.stream ≠ [] → Published [a] x := by
  cases h with
  | @act i b u own step =>
    refine ⟨_, rfl, ?_⟩
    intro x hx hne k hk
    obtain ⟨mlm, name, message, rfl, rfl⟩ := (loose_speaks i step (hs.declares i)).2 x hx hne
    cases hk
    exact ⟨mlm, name, message, List.mem_singleton.mpr rfl, rfl, rfl⟩
  | deliver waits next step => exact ⟨[], (List.append_nil _).symm, nofun⟩
  | post =>
    refine ⟨_, rfl, ?_⟩
    intro x hx _ k hk
    rw [List.mem_singleton.mp hx] at hk
    cases hk

theorem run_archive (hs : Sound n) {as : List (StreamAction ι L)}
    (h : Run (StreamStep echoes) n as m) :
    ∃ xs, m.archive = n.archive ++ xs ∧ ∀ x ∈ xs, x.stream ≠ [] → Published as x := by
  induction h with
  | nil => exact ⟨[], (List.append_nil _).symm, nofun⟩
  | @cons n k m a as head _ ih =>
    obtain ⟨xs, hx, hpub⟩ := step_archive hs head
    obtain ⟨ys, hy, hpub'⟩ := ih (step_sound hs head)
    refine ⟨xs ++ ys, by rw [hy, hx, List.append_assoc], ?_⟩
    intro x hm hne i hi
    rcases List.mem_append.mp hm with hm | hm
    · obtain ⟨mlm, name, message, ha, hname, hcontent⟩ := hpub x hm hne i hi
      exact ⟨mlm, name, message, List.mem_singleton.mp ha ▸ List.mem_cons_self, hname, hcontent⟩
    · obtain ⟨mlm, name, message, ha, hname, hcontent⟩ := hpub' x hm hne i hi
      exact ⟨mlm, name, message, List.mem_cons_of_mem a ha, hname, hcontent⟩

theorem subscribe_listening (hplain : 0 ∉ topic) {mlm : Mlm} (hok : mlm.setConsumer = true)
    (hfree : (n.nodes j).client.bus.subscriptions.find topic = none)
    (h : StreamStep echoes n (.act j (.api mlm (.subscribe topic listener))) m) :
    Listening topic listener (m.nodes j) := by
  cases h with
  | @act _ _ u own step =>
    change Listening topic listener (Function.update n.nodes j u j)
    rw [Function.update_self]
    have hu : u.client = final (subscribe mlm topic listener (n.nodes j).client) := by
      cases step with
      | fine h =>
        cases h with
        | thread h =>
          cases h with
          | api defined => rfl
    rw [subscribe_eq, if_pos hok] at hu
    refine ⟨?_, ?_⟩
    · rw [hu]
      change ((n.nodes j).client.bus.subscriptions.emplace topic listener).find topic = _
      rw [SortedMap.find_emplace_self, hfree]
      rfl
    · rw [hu, consumes, cStr_eq_self hplain]
      exact List.mem_append_right _ List.mem_cons_self

/-- From a subscription on, and until it is given up, the listener is invoked with
exactly what goes out on its topic, each message once and in the order in which it
was sent, whatever else the buses do and whatever comes in at their mailboxes. What
it has not been invoked with is still waiting; before it comes what was waiting already.
Its own messages reach a bus only if the broker echoes them. -/
theorem subscriber_hears_all (hn : Reachable (StreamNet.Start names) (StreamStep echoes) n)
    (htopic : topic ≠ [] ∧ 0 ∉ topic) {mlm : Mlm} (hok : mlm.setConsumer = true)
    (hfree : (n.nodes j).client.bus.subscriptions.find topic = none)
    (hsubscribe : StreamStep echoes n (.act j (.api mlm (.subscribe topic listener))) m)
    {q : StreamNet ι L} {as : List (StreamAction ι L)}
    (hrun : Run (restrict (Stays j topic) (StreamStep echoes)) m as q) :
    ∃ (xs : List (Streamed ι)) (heard : List Message), q.archive = m.archive ++ xs ∧
      q.passed j topic = m.passed j topic ++ heard.map (fun message => (listener, message)) ∧
      heard.map .ok ++ q.waiting j topic = m.waiting j topic ++ sentOn echoes j topic xs ∧
      ∀ x ∈ xs, x.stream = topic → Published as x := by
  have hs := step_sound (reachable_sound hn) hsubscribe
  have hl := subscribe_listening htopic.2 hok hfree hsubscribe
  obtain ⟨xs, heard, ha, hp, hw⟩ := run_hears htopic.1 hs hl hrun
  obtain ⟨ys, hy, hpub⟩ := run_archive hs (hrun.map fun _ _ _ h => h.2)
  have hxs : xs = ys := List.append_cancel_left (ha.symm.trans hy)
  refine ⟨xs, heard, ha, hp, hw, ?_⟩
  intro x hx hstream
  exact hpub x (hxs ▸ hx) (hstream ▸ htopic.1)

/-- One bus subscribes to a topic and another one publishes on it. -/
theorem subscriber_hears_one :
    ∃ (q : StreamNet Bool Unit) (heard : List Message),
      q.passed true (lit "t") = heard.map (fun message => ((), message)) ∧
      heard.map .ok ++ q.waiting true (lit "t") = [fromZmsg (toZmsg ⟨.empty, [lit "x"]⟩)] := by
  let mlm : Mlm := ⟨true, true, true⟩
  let n : StreamNet Bool Unit := ⟨fun _ => State.new (lit "b"), fun _ => [], [], fun _ => []⟩
  let u : State Unit := { n.nodes true with
    client := final (subscribe mlm (lit "t") () (n.nodes true).client) }
  let m := n.act false true u
  let v : State Unit := { m.nodes false with
    client := final (publish mlm (lit "t") ⟨.empty, [lit "x"]⟩ (m.nodes false).client) }
  let k := m.act false false v
  have hsub : StreamStep false n (.act true (.api mlm (.subscribe (lit "t") ()))) m :=
    .act nofun (.fine (.thread (.api nofun)))
  have hpub : StreamStep false m
      (.act false (.api mlm (.publish (lit "t") ⟨.empty, [lit "x"]⟩))) k :=
    .act nofun (.fine (.thread (.api nofun)))
  have hnext : k.inbox true =
      [⟨some false, lit "t", lit "t", toZmsg ⟨.empty, [lit "x"]⟩⟩] := rfl
  let w : State Unit := (k.nodes true).invoke (k.nodes true).client () ⟨.empty, [lit "x"]⟩
  have hdel : StreamStep false k (.deliver true) (k.deliver true _ [] w) :=
    .deliver (show _ = [] ++ _ from hnext) nofun (.fine (.thread (.stream rfl rfl)))
  have hn : Reachable (StreamNet.Start fun _ => lit "b") (StreamStep false) n :=
    ⟨n, [], rfl, .nil n⟩
  obtain ⟨xs, heard, ha, hp, hw, _⟩ := subscriber_hears_all hn (by decide) rfl rfl hsub
    (.cons ⟨by simp [Stays], hpub⟩ (.cons ⟨by simp [Stays], hdel⟩ (.nil _)))
  refine ⟨_, heard, hp, ?_⟩
  have hxs : xs = k.archive := ha.symm
  rw [hw, hxs]
  rfl

theorem sentOn_congr {k : ι} {xs : List (Streamed ι)}
    (h : echoes = true ∨ ∀ x ∈ xs, x.stream = topic → x.sender ≠ some j ∧ x.sender ≠ some k) :
    sentOn echoes j topic xs = sentOn echoes k topic xs := by
  unfold sentOn
  refine congrArg _ (List.filter_congr ?_)
  intro x hx
  rcases h with he | hno
  · simp [he]
  · by_cases ht : x.stream = topic
    · simp [ht, hno x hx ht]
    · simp [ht]

/-- Two subscribers of a topic hear the same from a moment on at which the same is waiting
for both: one of them has heard what the other has, and maybe more, and whenever nothing
is waiting for either there is no difference. -/
theorem subscribers_agree (hn : Reachable (StreamNet.Start names) (StreamStep echoes) n)
    (htopic : topic ≠ []) {k : ι} {listener' : L} (hj : Listening topic listener (n.nodes j))
    (hk : Listening topic listener' (n.nodes k))
    (heven : n.waiting j topic = n.waiting k topic) {q : StreamNet ι L}
    {as : List (StreamAction ι L)}
    (hrun : Run (restrict (fun n a => Stays j topic n a ∧ Stays k topic n a)
      (StreamStep echoes)) n as q)
    (hothers : echoes = true ∨ ∀ mlm name message, cStr name = topic →
      StreamAction.act j (.api mlm (.publish name message)) ∉ as ∧
        StreamAction.act k (.api mlm (.publish name message)) ∉ as) :
    ∃ heard heard' : List Message, q.passed j topic =
        n.passed j topic ++ heard.map (fun message => (listener, message)) ∧
      q.passed k topic =
        n.passed k topic ++ heard'.map (fun message => (listener', message)) ∧
      (heard <+: heard' ∨ heard' <+: heard) ∧
      (q.waiting j topic = [] → q.waiting k topic = [] → heard = heard') := by
  have hs := reachable_sound hn
  obtain ⟨xs, heard, ha, hp, hw⟩ := run_hears htopic hs hj
    (hrun.map fun _ _ _ h => ⟨h.1.1, h.2⟩)
  obtain ⟨ys, heard', ha', hp', hw'⟩ := run_hears htopic hs hk
    (hrun.map fun _ _ _ h => ⟨h.1.2, h.2⟩)
  obtain ⟨zs, hz, hpub⟩ := run_archive hs (hrun.map fun _ _ _ h => h.2)
  obtain rfl : ys = xs := List.append_cancel_left (ha'.symm.trans ha)
  obtain rfl : zs = ys := List.append_cancel_left (hz.symm.trans ha)
  have hsame : sentOn echoes j topic zs = sentOn echoes k topic zs := by
    refine sentOn_congr ?_
    rcases hothers with he | hno
    · exact Or.inl he
    · refine Or.inr fun x hx hstream => ?_
      have hx' := hpub x hx (hstream ▸ htopic)
      exact ⟨hx'.elsewhere fun mlm name message hname =>
          (hno mlm name message (hname.trans hstream)).1,
        hx'.elsewhere fun mlm name message hname =>
          (hno mlm name message (hname.trans hstream)).2⟩
  rw [heven, hsame] at hw
  have hinj : Function.Injective (Except.ok : Message → Except Fault Message) :=
    fun _ _ h => Except.ok.inj h
  refine ⟨heard, heard', hp, hp', ?_, ?_⟩
  · rcases List.prefix_or_prefix_of_prefix ⟨_, hw⟩ ⟨_, hw'⟩ with h | h
    · exact Or.inl ((List.prefix_map_iff_of_injective hinj).mp h)
    · exact Or.inr ((List.prefix_map_iff_of_injective hinj).mp h)
  · intro hj hk
    rw [hj, List.append_nil] at hw
    rw [hk, List.append_nil] at hw'
    exact List.map_injective_iff.mpr hinj (hw.trans hw'.symm)

/-- Of two subscribers one has been handed the message and the other has not. -/
theorem one_subscriber_ahead :
    ∃ (q : StreamNet Bool Unit) (heard heard' : List Message),
      q.passed true (lit "t") = heard.map (fun message => ((), message)) ∧
      q.passed false (lit "t") = heard'.map (fun message => ((), message)) ∧
      (heard <+: heard' ∨ heard' <+: heard) := by
  let mlm : Mlm := ⟨true, true, true⟩
  let z : StreamNet Bool Unit := ⟨fun _ => State.new (lit "b"), fun _ => [], [], fun _ => []⟩
  let u : State Unit := { z.nodes true with
    client := final (subscribe mlm (lit "t") () (z.nodes true).client) }
  let m := z.act false true u
  let v : State Unit := { m.nodes false with
    client := final (subscribe mlm (lit "t") () (m.nodes false).client) }
  let n := m.act false false v
  have hsub : StreamStep false z (.act true (.api mlm (.subscribe (lit "t") ()))) m :=
    .act nofun (.fine (.thread (.api nofun)))
  have hsub' : StreamStep false m (.act false (.api mlm (.subscribe (lit "t") ()))) n :=
    .act nofun (.fine (.thread (.api nofun)))
  have hn : Reachable (StreamNet.Start fun _ => lit "b") (StreamStep false) n :=
    ⟨z, _, rfl, .cons hsub (.cons hsub' (.nil _))⟩
  have hj : Listening (lit "t") () (n.nodes true) :=
    step_listening (subscribe_listening (by decide) rfl rfl hsub) (by simp [Stays]) hsub'
  have hk : Listening (lit "t") () (n.nodes false) :=
    subscribe_listening (by decide) rfl rfl hsub'
  let x : Streamed Bool := ⟨none, lit "t", lit "t", [lit "x"]⟩
  let k := n.spread false [x]
  have hnext : k.inbox true = [x] := rfl
  let w : State Unit := (k.nodes true).invoke (k.nodes true).client () ⟨.empty, [lit "x"]⟩
  have hdel : StreamStep false k (.deliver true) (k.deliver true x [] w) :=
    .deliver (show _ = [] ++ _ from hnext) nofun (.fine (.thread (.stream rfl rfl)))
  have hrun : Run (restrict (fun n a => Stays true (lit "t") n a ∧ Stays false (lit "t") n a)
      (StreamStep false)) n [.post (lit "t") [lit "x"], .deliver true] (k.deliver true x [] w) :=
    .cons ⟨by simp [Stays], .post⟩ (.cons ⟨by simp [Stays], hdel⟩ (.nil _))
  obtain ⟨heard, heard', hp, hp', hle, _⟩ :=
    subscribers_agree hn (by decide) hj hk rfl hrun (Or.inr (by simp))
  exact ⟨_, heard, heard', hp, hp', hle⟩

end Net

end Messagebus.Proofs.Streams
