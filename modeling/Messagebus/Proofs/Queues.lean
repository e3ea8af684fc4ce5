import Messagebus.Queues
import Messagebus.Proofs.Registry
import Messagebus.Proofs.Replies

namespace Messagebus.Proofs.Queues
open Frame Runs Proofs.Calls Proofs.Requests Proofs.Nodes

variable {ι L : Type}

section Bus

variable {s t : State L} {a : Action L} {queue : Bytes} {listener : L}

/-- A call keeps its id. -/
theorem loose_named (h : LooseStep s a t) {j : ℕ} {id : Bytes}
    (hj : (s.calls j).uuid = some id) : (t.calls j).uuid = some id := by
  rcases Replies.loose_uuid h j with hu | ⟨hnone, _⟩
  · rw [hu, hj]
  · rw [hnone] at hj
    cases hj

/-- The listener waits for no id but that of a request which was made. -/
def Asked (s : State L) : Prop :=
  s.client.bus.syncUuid ≠ [] → ∃ j, (s.calls j).uuid = some s.client.bus.syncUuid

theorem loose_asked (h : LooseStep s a t) (hs : Asked s) : Asked t := by
  have hkeep : t.client.bus.syncUuid = s.client.bus.syncUuid → Asked t := by
    intro he hne
    rw [he] at hne ⊢
    obtain ⟨j, hj⟩ := hs hne
    exact ⟨j, loose_named h hj⟩
  cases h with
  | spurious waits asleep => exact hkeep rfl
  | fine h =>
    have ht : FineTurn (fun _ _ _ => True) (sync s) a (sync t) := fine_turn h fun _ _ _ _ _ => trivial
    change (sync t).uuid ≠ [] → ∃ j, ((sync t).calls j).uuid = some (sync t).uuid
    change (sync t).uuid = (sync s).uuid → (sync t).uuid ≠ [] →
      ∃ j, ((sync t).calls j).uuid = some (sync t).uuid at hkeep
    generalize sync t = v at ht hkeep ⊢
    cases ht with
    | compare idle named hit => exact hkeep rfl
    | store pending notify => exact fun hne => absurd rfl hne
    | thread turn =>
      cases turn with
      | @reject i message fault uuid fresh ok id named =>
        exact fun _ => ⟨i, by simp [Call.uuid, Call.message?, id]⟩
      | @arm i message uuid q address timeOut fresh ok id named =>
        exact fun _ => ⟨i, by simp [Call.uuid, Call.message?, id]⟩
      | _ => exact hkeep rfl

/-- A mailbox message goes to the listener of its queue or is taken for a response. -/
theorem loose_mailbox {content : Zmsg} (h : LooseStep s (.mailbox queue content) t)
    (hs : s.client.bus.subscriptions.find queue = some listener) :
    ∃ message, fromZmsg content = .ok message ∧
      (t.invocations = s.invocations ++ [(listener, message)] ∧ t.matched = none ∨
        t.invocations = s.invocations ∧ t.matched = some message) := by
  cases h with
  | fine h =>
    cases h with
    | thread h => cases h
    | @compare _ _ message idle decodes hit => exact ⟨message, decodes, Or.inr ⟨rfl, rfl⟩⟩
    | @invoke _ _ client called message sent idle decodes miss dispatches =>
      rw [dispatchMailbox_eq, hs] at dispatches
      cases dispatches
      exact ⟨message, decodes, Or.inl ⟨rfl, idle⟩⟩
    | skipped idle decodes miss dispatches =>
      rw [dispatchMailbox_eq, hs] at dispatches
      cases dispatches

/-- Some request has been made with the id of the message. -/
def Requested (s : State L) (message : Message) : Prop :=
  ∃ j id, message.correlationId = some id ∧ (s.calls j).uuid = some id

/-- Only a message with the id of a request is taken for a response. -/
theorem loose_requested {content : Zmsg} (h : LooseStep s (.mailbox queue content) t)
    (hasked : Asked s) {message : Message} (ht : t.matched = some message) :
    Requested t message := by
  cases h with
  | fine h =>
    cases h with
    | thread h => cases h
    | compare idle decodes hit =>
      cases ht
      obtain ⟨hne, hid⟩ := (syncMatch_iff _ _).mp hit
      obtain ⟨j, hj⟩ := hasked hne
      exact ⟨j, _, hid, hj⟩
    | invoke idle decodes miss dispatches => cases idle.symm.trans ht
    | skipped idle decodes miss dispatches => cases idle.symm.trans ht

end Bus

section Net

variable {names : ι → Bytes} {n m : Net ι L}

/-- Every bus has its name and waits for no id that it has not asked with. -/
structure Sound (names : ι → Bytes) (n : Net ι L) : Prop where
  named : ∀ i, (n.nodes i).client.bus.clientName = names i
  asked : ∀ i, Asked (n.nodes i)

theorem start_sound (h : n.Start names) : Sound names n := by
  cases h
  exact ⟨fun _ => rfl, fun _ hne => absurd rfl hne⟩

variable [DecidableEq ι] {a : NetAction ι L}

theorem Sound.after (hs : Sound names n) {i : ι} {b : Action L} {u : State L}
    (h : LooseStep (n.nodes i) b u) (mail : List Mail) : Sound names (n.after i u mail) := by
  refine ⟨?_, ?_⟩
  · intro k
    rw [Replies.name_kept h mail k]
    exact hs.named k
  · intro k
    rcases eq_or_ne k i with rfl | hk
    · rw [Net.after_self]
      exact loose_asked h (hs.asked k)
    · rw [Net.after_other n u mail hk]
      exact hs.asked k

theorem step_sound (hs : Sound names n) (h : LooseNetStep n a m) : Sound names m := by
  cases h with
  | act own step => exact hs.after step _
  | deliver flight addressed step => exact hs.after step _
  | post => exact ⟨hs.named, hs.asked⟩

/-- Every step but one that takes the listener off its queue. -/
def Stays (j : ι) (queue : Bytes) (_ : PostalNet ι L) (a : NetAction ι L) : Prop :=
  ∀ mlm script, a ≠ .act j (.api mlm (.unsubscribe queue)) script

theorem mailTo_append (clientName queue : Bytes) (xs ys : List Mail) :
    mailTo clientName queue (xs ++ ys) = mailTo clientName queue xs + mailTo clientName queue ys := by
  simp [mailTo]

theorem mailTo_erase {clientName queue : Bytes} {xs : List Mail} {x : Mail} (h : x ∈ xs) :
    mailTo clientName queue xs =
      mailTo clientName queue [x] + mailTo clientName queue (xs.erase x) := by
  rw [← mailTo_append]
  exact Multiset.coe_eq_coe.mpr (((List.perm_cons_erase h).filter _).map _)

theorem decoded_append (xs ys : List Message) : decoded (xs ++ ys) = decoded xs + decoded ys := by
  simp [decoded]

/-- What becomes of the mail for a queue: it is in flight, or the listener of the
queue has been invoked with it, or it has answered a request. -/
def balances (clientName : Bytes) (j : ι) (queue : Bytes) (listener : L) :
    Footprint (PostalNet ι L) where
  rel p q := ∃ (xs : List Mail) (heard taken : List Message), q.archive = p.archive ++ xs ∧
    q.passed j queue = p.passed j queue ++ heard.map (fun message => (listener, message)) ∧
    q.taken j queue = p.taken j queue ++ taken ∧
    decoded heard + decoded taken + mailTo clientName queue q.net.mail =
      mailTo clientName queue p.net.mail + mailTo clientName queue xs
  refl p := ⟨[], [], [], by simp, by simp, by simp, by simp [mailTo, decoded]⟩
  trans p q r h h' := by
    obtain ⟨xs, heard, taken, ha, hp, ht, he⟩ := h
    obtain ⟨xs', heard', taken', ha', hp', ht', he'⟩ := h'
    refine ⟨xs ++ xs', heard ++ heard', taken ++ taken', ?_, ?_, ?_, ?_⟩
    · rw [ha', ha, List.append_assoc]
    · rw [hp', hp, List.map_append, List.append_assoc]
    · rw [ht', ht, List.append_assoc]
    · calc decoded (heard ++ heard') + decoded (taken ++ taken') + mailTo clientName queue r.net.mail
        _ = decoded heard + decoded taken +
            (decoded heard' + decoded taken' + mailTo clientName queue r.net.mail) := by
          rw [decoded_append, decoded_append, add_add_add_comm, add_assoc]
        _ = decoded heard + decoded taken + mailTo clientName queue q.net.mail +
            mailTo clientName queue xs' := by rw [he', ← add_assoc]
        _ = mailTo clientName queue p.net.mail + mailTo clientName queue (xs ++ xs') := by
          rw [he, mailTo_append, add_assoc]

variable {clientName queue : Bytes} {listener : L} {j : ι} {p q : PostalNet ι L}

theorem act_balances (i : ι) (b : Action L) (script : Script L) (u : State L) :
    (balances clientName j queue listener).rel p
      (p.note (.act i b script) (p.net.after i u p.net.mail)) := by
  refine ⟨_, [], [], rfl, (List.append_nil _).symm, (List.append_nil _).symm, ?_⟩
  change decoded [] + decoded [] + mailTo clientName queue (p.net.mail ++ _) = _
  rw [mailTo_append, Net.after_self]
  simp [decoded]

theorem post_balances (x : Mail) :
    (balances clientName j queue listener).rel p
      (p.note (.post x) { p.net with mail := p.net.mail ++ [x] }) := by
  refine ⟨[x], [], [], rfl, (List.append_nil _).symm, (List.append_nil _).symm, ?_⟩
  change decoded [] + decoded [] + mailTo clientName queue (p.net.mail ++ _) = _
  rw [mailTo_append]
  simp [decoded]

theorem deliver_balances (hs : Sound names p.net) (halone : ∀ i, names i = names j → i = j)
    (hbound : (p.net.nodes j).client.bus.subscriptions.find queue = some listener) {i : ι}
    {x : Mail} {script : Script L} {u : State L} (flight : x ∈ p.net.mail)
    (addressed : x.address = (p.net.nodes i).client.bus.clientName)
    (step : LooseStep (p.net.nodes i) (.mailbox x.subject x.content) u) :
    (balances (names j) j queue listener).rel p
      (p.note (.deliver i x script) (p.net.after i u (p.net.mail.erase x))) := by
  have hname : x.address = names i := addressed.trans (hs.named i)
  obtain ⟨heard, taken, hp, ht, hbooks⟩ : ∃ heard taken : List Message,
      (p.note (.deliver i x script) (p.net.after i u (p.net.mail.erase x))).passed j queue =
        p.passed j queue ++ heard.map (fun message => (listener, message)) ∧
      (p.note (.deliver i x script) (p.net.after i u (p.net.mail.erase x))).taken j queue =
        p.taken j queue ++ taken ∧
      decoded heard + decoded taken = mailTo (names j) queue [x] := by
    rcases eq_or_ne i j with rfl | hij
    · by_cases hx : x.subject = queue
      · rw [hx] at step
        obtain ⟨message, hd, ⟨hinv, hmatched⟩ | ⟨hinv, hmatched⟩⟩ :=
          loose_mailbox step hbound
        · refine ⟨[message], [], ?_, ?_, ?_⟩
          · simp [PostalNet.passed, PostalNet.note, hinv, hx]
          · simp [PostalNet.taken, PostalNet.note, hmatched]
          · simp [decoded, mailTo, hname, hx, hd]
        · refine ⟨[], [message], ?_, ?_, ?_⟩
          · simp [PostalNet.passed, PostalNet.note, hinv]
          · simp [PostalNet.taken, PostalNet.note, hmatched, hx]
          · simp [decoded, mailTo, hname, hx, hd]
      · refine ⟨[], [], ?_, ?_, ?_⟩
        · simp only [PostalNet.passed, PostalNet.note, Function.update_self,
            Tagged.select_append, Tagged.select_map_other hx, List.map_nil]
        · simp only [PostalNet.taken, PostalNet.note, Function.update_self,
            Tagged.select_append, Tagged.select_map_other hx]
        · simp [decoded, mailTo, hx]
    · have hne : names i ≠ names j := fun he => hij (halone i he)
      refine ⟨[], [], ?_, ?_, ?_⟩
      · simp [PostalNet.passed, PostalNet.note, hij.symm]
      · simp [PostalNet.taken, PostalNet.note, hij.symm]
      · simp [decoded, mailTo, hname, hne]
  refine ⟨_, heard, taken, rfl, hp, ht, ?_⟩
  change decoded heard + decoded taken + mailTo (names j) queue (p.net.mail.erase x ++ _) = _
  rw [hbooks, mailTo_append, ← add_assoc, ← mailTo_erase flight, Net.after_self]

theorem step_bound (hbound : (p.net.nodes j).client.bus.subscriptions.find queue = some listener)
    (ha : Stays j queue p a) (h : LooseNetStep p.net a m) :
    (m.nodes j).client.bus.subscriptions.find queue = some listener := by
  cases h with
  | @act i b u own step =>
    rcases eq_or_ne j i with rfl | hj
    · rw [Net.after_self]
      exact loose_holds step (fun mlm he => ha mlm [] (by rw [he])) hbound
    · rw [Net.after_other _ u _ hj]
      exact hbound
  | @deliver i x u flight addressed step =>
    rcases eq_or_ne j i with rfl | hj
    · rw [Net.after_self]
      exact loose_holds step (by simp) hbound
    · rw [Net.after_other _ u _ hj]
      exact hbound
  | post => exact hbound

theorem step_balances (hs : Sound names p.net) (halone : ∀ i, names i = names j → i = j)
    (hbound : (p.net.nodes j).client.bus.subscriptions.find queue = some listener)
    (h : PostalStep p a q) : (balances (names j) j queue listener).rel p q := by
  obtain ⟨hstep, hq⟩ := h
  rw [hq]
  generalize q.net = m at hstep
  cases hstep with
  | act own step => exact act_balances _ _ _ _
  | deliver flight addressed step => exact deliver_balances hs halone hbound flight addressed step
  | post => exact post_balances _

/-- What is taken for a response has the id of a request. -/
def Answered (p : PostalNet ι L) : Prop :=
  ∀ i, ∀ answer ∈ p.answers i, Requested (p.net.nodes i) answer.2

theorem Requested.after {i k : ι} {b : Action L} {u : State L} {message : Message}
    (hm : Requested (n.nodes k) message) (h : LooseStep (n.nodes i) b u) (mail : List Mail) :
    Requested ((n.after i u mail).nodes k) message := by
  obtain ⟨l, id, hid, hl⟩ := hm
  exact ⟨l, id, hid, Replies.uuid_kept h mail hl⟩

theorem step_answered (hs : Sound names p.net) (hp : Answered p) (h : PostalStep p a q) :
    Answered q := by
  obtain ⟨hstep, hq⟩ := h
  rw [hq]
  generalize q.net = m at hstep
  cases hstep with
  | act own step => exact fun k answer hm => Requested.after (hp k answer hm) step _
  | post => exact hp
  | @deliver i x u flight addressed step =>
    intro k answer hm
    rcases eq_or_ne k i with rfl | hk
    · simp only [PostalNet.note, Function.update_self, List.mem_append, List.mem_map] at hm
      rcases hm with hm | ⟨message, hmatched, rfl⟩
      · exact Requested.after (hp k answer hm) step _
      · change Requested ((p.net.after k u _).nodes k) message
        rw [Net.after_self] at hmatched ⊢
        exact loose_requested step (hs.asked k) (Option.mem_toList.mp hmatched)
    · simp only [PostalNet.note, Function.update_of_ne hk] at hm
      exact Requested.after (hp k answer hm) step _

theorem reachable_sound (h : Reachable (PostalNet.Start names) PostalStep p) :
    Sound names p.net ∧ Answered p := by
  refine h.invariant (I := fun p => Sound names p.net ∧ Answered p) ?_ ?_
  · intro p hp
    obtain ⟨hnet, _, _, hanswers⟩ := hp
    refine ⟨start_sound hnet, ?_⟩
    intro i answer hm
    rw [hanswers] at hm
    cases hm
  · intro p a q hi hstep
    exact ⟨step_sound hi.1 hstep.1, step_answered hi.1 hi.2 hstep⟩

/-- No mail for a queue with a listener is lost or handed out twice: whatever the
buses and other clients do, the listener is invoked with what is sent to the queue,
each message once, but for those that are still in flight and those that have the id
of a request of the bus and were taken for its response. -/
theorem mail_accounted (hp : Reachable (PostalNet.Start names) PostalStep p)
    (halone : ∀ i, names i = names j → i = j)
    (hbound : (p.net.nodes j).client.bus.subscriptions.find queue = some listener)
    {as : List (NetAction ι L)} (hrun : Run (restrict (Stays j queue) PostalStep) p as q) :
    ∃ (xs : List Mail) (heard taken : List Message), q.archive = p.archive ++ xs ∧
      q.passed j queue = p.passed j queue ++ heard.map (fun message => (listener, message)) ∧
      q.taken j queue = p.taken j queue ++ taken ∧
      decoded heard + decoded taken + mailTo (names j) queue q.net.mail =
        mailTo (names j) queue p.net.mail + mailTo (names j) queue xs ∧
      ∀ message ∈ taken, Requested (q.net.nodes j) message := by
  have hstart := reachable_sound hp
  obtain ⟨⟨_, hanswered⟩, _, xs, heard, taken, ha, hh, ht, he⟩ :
      (Sound names q.net ∧ Answered q) ∧
        (q.net.nodes j).client.bus.subscriptions.find queue = some listener ∧
        (balances (names j) j queue listener).rel p q := by
    refine hrun.invariant (I := fun q => (Sound names q.net ∧ Answered q) ∧
      (q.net.nodes j).client.bus.subscriptions.find queue = some listener ∧
      (balances (names j) j queue listener).rel p q) ⟨hstart, hbound, Footprint.refl _ p⟩ ?_
    intro k b k' hi hstep
    obtain ⟨⟨hs, hk⟩, hb, hr⟩ := hi
    exact ⟨⟨step_sound hs hstep.2.1, step_answered hs hk hstep.2⟩,
      step_bound hb hstep.1 hstep.2.1,
      Footprint.trans _ _ _ _ hr (step_balances hs halone hb hstep.2)⟩
  refine ⟨xs, heard, taken, ha, hh, ht, he, ?_⟩
  intro message hm
  have hmem : message ∈ q.taken j queue := by
    rw [ht]
    exact List.mem_append_right _ hm
  obtain ⟨answer, hanswer, rfl⟩ := List.mem_map.mp hmem
  exact hanswered j answer (List.mem_of_mem_filter hanswer)

/-- A client of the broker posts one message to a queue. -/
theorem one_mail_accounted :
    ∃ (q : PostalNet Unit Unit) (heard taken : List Message),
      q.passed () (lit "q") = heard.map (fun message => ((), message)) ∧
      decoded heard + decoded taken + mailTo (lit "b") (lit "q") q.net.mail =
        {fromZmsg [lit "x"]} := by
  let mlm : Mlm := ⟨true, true, true⟩
  let z : PostalNet Unit Unit := ⟨⟨fun _ => State.new (lit "b"), []⟩, [], fun _ => [], fun _ => []⟩
  let u : State Unit := { z.net.nodes () with
    client := final (receive (lit "q") () (z.net.nodes ()).client) }
  let n := z.net.after () u z.net.mail
  let p := z.note (.act () (.api mlm (.receive (lit "q") ())) []) n
  have hreceive : PostalStep z (.act () (.api mlm (.receive (lit "q") ())) []) p :=
    ⟨.act nofun (.fine (.thread (.api nofun))), rfl⟩
  let x : Mail := ⟨lit "b", lit "q", [lit "x"]⟩
  let m : Net Unit Unit := { n with mail := [x] }
  let k := p.note (.post x) m
  let w : State Unit := u.invoke u.client () ⟨.empty, [lit "x"]⟩
  let r := k.note (.deliver () x []) (m.after () w [])
  have hdecodes : fromZmsg [lit "x"] = .ok ⟨.empty, [lit "x"]⟩ := rfl
  have hdeliver : PostalStep k (.deliver () x []) r :=
    ⟨.deliver List.mem_cons_self rfl (.fine (.invoke rfl hdecodes rfl rfl)), rfl⟩
  have hp : Reachable (PostalNet.Start fun _ => lit "b") PostalStep p :=
    ⟨z, _, ⟨rfl, rfl, rfl, rfl⟩, .cons hreceive (.nil _)⟩
  have hrun : Run (restrict (Stays () (lit "q")) PostalStep) p [.post x, .deliver () x []] r :=
    .cons ⟨by simp [Stays], ⟨.post, rfl⟩⟩ (.cons ⟨by simp [Stays], hdeliver⟩ (.nil _))
  have hbound : (p.net.nodes ()).client.bus.subscriptions.find (lit "q") = some () := rfl
  obtain ⟨xs, heard, taken, ha, hh, _, he, _⟩ :=
    mail_accounted hp (fun _ _ => rfl) hbound hrun
  have hxs : xs = [x] := ha.symm
  refine ⟨r, heard, taken, hh, ?_⟩
  rw [he, hxs]
  rfl

end Net

end Messagebus.Proofs.Queues
