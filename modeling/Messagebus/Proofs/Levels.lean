import Messagebus.Callbacks
import Messagebus.Locks
import Messagebus.Network
import Messagebus.Proofs.Nodes

namespace Messagebus.Proofs.Levels
open CondVar Frame Runs Proofs.Calls Proofs.Requests Proofs.Nodes

variable {ι L : Type}

/-- The same state, with the listener between two messages. -/
def Idle (s s' : State L) : Prop := s' = s ∧ s.matched = none

/-- A step begins with one of the same action; what may follow is the store. -/
theorem step_fine {s t : State L} {a : Action L} (h : Step s a t) (hs : s.matched = none) :
    ∃ u, FineStep s a u ∧ (t = u ∨ FineStep u .store t) := by
  have hmailbox : ∀ subject content, a = .mailbox subject content →
      ∃ u, FineStep s a u ∧ (t = u ∨ FineStep u .store t) := by
    intro subject content ha
    subst ha
    obtain ⟨message, hd⟩ := mailbox_decodes h
    cases hm : syncMatch s.client.bus message with
    | true =>
      obtain ⟨W, hW, rfl⟩ := (match_step hd hm).mp h
      refine ⟨_, .compare hs hd hm, Or.inr ?_⟩
      have hstore := FineStep.store (s := { s with matched := some message }) rfl hW
      rw [← hs] at hstore
      exact hstore
    | false =>
      have heq := listenerHandleMailbox_eq subject s.client hd
      rw [hm, if_neg Bool.false_ne_true] at heq
      cases h with
      | thread h => cases h
      | response handles notify => exact absurd (heq.symm.trans handles) dispatch_not_response
      | invoke handles => exact ⟨_, .invoke hs hd hm (heq.symm.trans handles), Or.inl rfl⟩
      | skipped handles => exact ⟨_, .skipped hs hd hm (heq.symm.trans handles), Or.inl rfl⟩
  cases h with
  | thread h => exact ⟨t, .thread h, Or.inl rfl⟩
  | response | invoke | skipped => exact hmailbox _ _ rfl

/-- The handler in one step is the handler in two steps. -/
theorem step_simulates : Simulates Idle (Step (L := L)) FineStep := by
  intro s a t s' hR h
  obtain ⟨rfl, hs⟩ := hR
  obtain ⟨u, hfirst, rfl | hstore⟩ := step_fine h hs
  · exact ⟨[a], _, .cons hfirst (.nil _), rfl, (step_matched h).trans hs⟩
  · exact ⟨[a, .store], _, .cons hfirst (.cons hstore (.nil _)), rfl, (step_matched h).trans hs⟩

theorem wait_simulates : Simulates Idle (WaitStep (L := L)) LooseStep := by
  intro s a t s' hR h
  cases h with
  | step h =>
    obtain ⟨as, t', hr, ht⟩ := step_simulates s a t s' hR h
    exact ⟨as, t', hr.map fun _ _ _ => .fine, ht⟩
  | spurious waits asleep =>
    obtain ⟨rfl, hs⟩ := hR
    exact ⟨_, _, .cons (.spurious waits asleep) (.nil _), rfl, hs⟩

/-- Callbacks that take time only keep the listener thread from other messages. -/
theorem callback_simulates :
    Simulates (fun s s' => s' = s.bus) (CallbackStep (L := L)) FineStep := by
  intro s a t s' hR h
  subst hR
  cases h with
  | @caller a t other h => exact ⟨[a], t, .cons (.thread h) (.nil t), rfl⟩
  | @handle a t mine idle h quiet => exact ⟨[a], t, .cons h (.nil t), rfl⟩
  | @invoke a t mine idle h calls => exact ⟨[a], t, .cons h (.nil t), rfl⟩
  | request free fresh => exact ⟨_, _, .cons (.thread (.call fresh)) (.nil _), rfl⟩
  | finish free => exact ⟨[], _, .nil _, rfl⟩

section Locks

variable {s t : LockState L} {v : State L} {i : ℕ} {phase : Phase}

/-- A call as the larger steps have it: it waits once it has sent, and throws once
its time is over. -/
def ofPhase : Phase → Call
  | .notMade => .notMade
  | .armed requestQueue message receiveTimeOut address
  | .locked requestQueue message receiveTimeOut address =>
    .armed requestQueue message receiveTimeOut address
  | .sending message | .sent message | .waiting message => .waiting message
  | .expired message => .threw message (.thrown "Request timed out.")
  | .returned message response => .returned message response
  | .threw message fault => .threw message fault

/-- On its way from the sending to the wait. -/
def leaving : Phase → Bool
  | .sending _ | .sent _ => true
  | _ => false

/-- The mutex belongs to whoever is in its section. -/
structure Exclusive (s : LockState L) : Prop where
  caller : ∀ i, (s.calls i).holds = true → s.mutex = some (.caller i)
  listener : ∀ message, s.handler = .locked message → s.mutex = some .listener

theorem Exclusive.outside (hs : Exclusive s) {message : Message}
    (locked : s.handler = .locked message) (j : ℕ) : (s.calls j).holds = false := by
  rw [← Bool.not_eq_true]
  intro h
  have hm := hs.caller j h
  rw [hs.listener message locked] at hm
  cases hm

theorem Exclusive.alone (hs : Exclusive s) (hi : (s.calls i).holds = true) {j : ℕ}
    (hj : (s.calls j).holds = true) : j = i := by
  have hm := hs.caller j hj
  rw [hs.caller i hi] at hm
  cases hm
  rfl

/-- A call that keeps its hands off the mutex, or keeps it. -/
theorem Exclusive.moved (hs : Exclusive s) (hcalls : t.calls = Function.update s.calls i phase)
    (hp : phase.holds = true → (s.calls i).holds = true) (hmutex : t.mutex = s.mutex)
    (hhandler : t.handler = s.handler) : Exclusive t := by
  constructor
  · rw [hcalls, hmutex]
    apply (Function.forall_update_iff s.calls fun j p =>
      p.holds = true → s.mutex = some (.caller j)).mpr
    exact ⟨fun h => hs.caller i (hp h), fun j _ => hs.caller j⟩
  · rw [hhandler, hmutex]
    exact hs.listener

theorem Exclusive.step {a : LockAction L} (hs : Exclusive s) (h : LockStep s a t) :
    Exclusive t := by
  cases h with
  | @call i q m timeOut fresh =>
    unfold LockState.call
    cases requestArm m s.client with
    | ok address client => exact hs.moved rfl (by simp [Phase.holds]) rfl rfl
    | error fault client => exact hs.moved rfl (by simp [Phase.holds]) rfl rfl
  | @lock i q address m timeOut armed available =>
    constructor
    · intro j hj
      rcases eq_or_ne j i with rfl | hne
      · rfl
      · have hm := hs.caller j (by simpa [hne] using hj)
        rw [available] at hm
        cases hm
    · intro m hm
      have hl := hs.listener m hm
      rw [available] at hl
      cases hl
  | send locked => exact hs.moved rfl (by simp [locked, Phase.holds]) rfl rfl
  | sent sending => exact hs.moved rfl (by simp [sending, Phase.holds]) rfl rfl
  | @wait i m sent =>
    have hi : (s.calls i).holds = true := by
      rw [sent]
      rfl
    constructor
    · intro j hj
      rcases eq_or_ne j i with rfl | hne
      · simp [Phase.holds] at hj
      · exact absurd (hs.alone hi (by simpa [hne] using hj)) hne
    · intro m hm
      have hout := hs.outside hm i
      rw [hi] at hout
      cases hout
  | expire waits => exact hs.moved rfl (by simp [Phase.holds]) rfl rfl
  | startle asleep => exact ⟨hs.caller, hs.listener⟩
  | ret waits woken available => exact hs.moved rfl (by simp [Phase.holds]) rfl rfl
  | timeOut expired available => exact hs.moved rfl (by simp [Phase.holds]) rfl rfl
  | api defined => exact ⟨hs.caller, hs.listener⟩
  | stream idle handles => exact ⟨hs.caller, hs.listener⟩
  | streamSkipped idle handles => exact ⟨hs.caller, hs.listener⟩
  | compare idle decodes hit => exact ⟨hs.caller, by simp⟩
  | invoke idle decodes miss dispatches => exact ⟨hs.caller, hs.listener⟩
  | skipped idle decodes miss dispatches => exact ⟨hs.caller, hs.listener⟩
  | lockHandler found available =>
    constructor
    · intro j hj
      have hm := hs.caller j hj
      rw [available] at hm
      cases hm
    · simp
  | store locked notify =>
    constructor
    · intro j hj
      have hout := hs.outside locked j
      change (s.calls j).holds = true at hj
      rw [hj] at hout
      cases hout
    · simp

/-- A bus as the larger steps have it. -/
structure Abstracts (s : LockState L) (v : State L) : Prop where
  client : v.client = s.client
  calls : ∀ i, v.calls i = ofPhase (s.calls i)
  waitSet : ∀ i, i ∈ v.waitSet ↔ i ∈ s.waitSet ∨ leaving (s.calls i) = true
  matched : v.matched = s.handler.message?
  invocations : v.invocations = s.invocations

/-- One call goes on, and the others stay as they are. -/
theorem Abstracts.moved (hv : Abstracts s v) {v' : State L} (hclient : v'.client = t.client)
    (hcalls : t.calls = Function.update s.calls i phase)
    (hcalls' : v'.calls = Function.update v.calls i (ofPhase phase))
    (hothers : ∀ j, j ≠ i → ((j ∈ t.waitSet ↔ j ∈ s.waitSet) ∧ (j ∈ v'.waitSet ↔ j ∈ v.waitSet)))
    (hi : i ∈ v'.waitSet ↔ i ∈ t.waitSet ∨ leaving phase = true)
    (hmatched : v'.matched = t.handler.message?) (hinvocations : v'.invocations = t.invocations) :
    Abstracts t v' := by
  refine ⟨hclient, ?_, ?_, hmatched, hinvocations⟩
  · intro j
    rw [hcalls, hcalls']
    rcases eq_or_ne j i with rfl | hne
    · rw [Function.update_self, Function.update_self]
    · rw [Function.update_of_ne hne, Function.update_of_ne hne]
      exact hv.calls j
  · intro j
    rw [hcalls]
    rcases eq_or_ne j i with rfl | hne
    · rw [Function.update_self]
      exact hi
    · rw [Function.update_of_ne hne, (hothers j hne).1, (hothers j hne).2]
      exact hv.waitSet j

/-- A step that the larger ones do not tell apart. -/
theorem Abstracts.stays (hv : Abstracts s v) (hclient : t.client = s.client)
    (hcalls : t.calls = Function.update s.calls i phase)
    (hphase : ofPhase phase = ofPhase (s.calls i))
    (hothers : ∀ j, j ≠ i → (j ∈ t.waitSet ↔ j ∈ s.waitSet))
    (hi : i ∈ v.waitSet ↔ i ∈ t.waitSet ∨ leaving phase = true)
    (hmatched : t.handler.message? = s.handler.message?)
    (hinvocations : t.invocations = s.invocations) :
    Abstracts t v := by
  refine hv.moved (hv.client.trans hclient.symm) hcalls ?_ (fun j hj => ⟨hothers j hj, Iff.rfl⟩) hi
    (hv.matched.trans hmatched.symm) (hv.invocations.trans hinvocations.symm)
  rw [hphase, ← hv.calls i, Function.update_eq_self]

theorem Abstracts.call_eq (hv : Abstracts s v) (hp : s.calls i = phase) :
    v.calls i = ofPhase phase := by
  rw [hv.calls i, hp]

/-- Away from the sending, the two wait sets agree. -/
theorem Abstracts.mem_waitSet (hv : Abstracts s v) (hp : s.calls i = phase)
    (hl : leaving phase = false) : i ∈ v.waitSet ↔ i ∈ s.waitSet := by
  rw [hv.waitSet i, hp, hl]
  simp

theorem Abstracts.unmatched (hv : Abstracts s v) (idle : s.handler = .idle) : v.matched = none := by
  rw [hv.matched, idle]
  rfl

theorem Abstracts.call (hv : Abstracts s v) (fresh : s.calls i = .notMade) (requestQueue : Bytes)
    (message : Message) (receiveTimeOut : Int) :
    Abstracts (s.call i requestQueue message receiveTimeOut)
      (v.call i requestQueue message receiveTimeOut) := by
  have hw := hv.mem_waitSet fresh rfl
  unfold LockState.call State.call
  rw [hv.client]
  cases requestArm message s.client with
  | ok address client =>
    exact hv.moved rfl rfl rfl (fun j _ => ⟨Iff.rfl, Iff.rfl⟩) (by simpa [leaving] using hw)
      hv.matched hv.invocations
  | error fault client =>
    exact hv.moved rfl rfl rfl (fun j _ => ⟨Iff.rfl, Iff.rfl⟩) (by simpa [leaving] using hw)
      hv.matched hv.invocations

/-- While the listener has the mutex, nobody is between sending and waiting. -/
theorem Exclusive.nobody_leaves (hs : Exclusive s) {message : Message}
    (locked : s.handler = .locked message) (j : ℕ) : leaving (s.calls j) = false := by
  have hout := hs.outside locked j
  cases hp : s.calls j with
  | sending m => simp [hp, Phase.holds] at hout
  | sent m => simp [hp, Phase.holds] at hout
  | _ => rfl

/-- What is a step of the bus with its mutex is none or one of the other bus. -/
theorem lock_fine {a : LockAction L} (hs : Exclusive s) (hv : Abstracts s v)
    (ha : ∀ i, a ≠ .startle i) (h : LockStep s a t) :
    Abstracts t v ∨ ∃ b v', FineStep v b v' ∧ Abstracts t v' := by
  cases h with
  | @call i q m timeOut fresh =>
    right
    exact ⟨.call i q m timeOut, _, .thread (.call (hv.call_eq fresh)), hv.call fresh q m timeOut⟩
  | @lock i q address m timeOut armed available =>
    left
    have hw := hv.mem_waitSet armed rfl
    exact hv.stays rfl rfl (by rw [armed]; rfl) (fun j _ => Iff.rfl) (by simpa [leaving] using hw)
      rfl rfl
  | @send i mlm q address m timeOut locked =>
    right
    refine ⟨.send i mlm, _, .thread (.send (hv.call_eq locked)), ?_⟩
    refine hv.moved ?_ rfl rfl (fun j hj => ⟨Iff.rfl, ?_⟩) ?_ hv.matched hv.invocations
    · rw [← hv.client]
      rfl
    · simp [State.send, hj]
    · simp [State.send, leaving]
  | @sent i m sending =>
    left
    have hw := hv.waitSet i
    rw [sending] at hw
    exact hv.stays rfl rfl (by rw [sending]; rfl) (fun j _ => Iff.rfl) hw rfl rfl
  | @wait i m sent =>
    left
    have hw := hv.waitSet i
    rw [sent] at hw
    refine hv.stays rfl rfl (by rw [sent]; rfl) (fun j hj => by simp [hj]) ?_ rfl rfl
    simpa [leaving] using hw
  | @expire i m waits =>
    right
    refine ⟨.leave i true, _, .thread (.timeOut (hv.call_eq waits)), ?_⟩
    refine hv.moved hv.client rfl rfl (fun j hj => ⟨by simp [hj], ?_⟩) ?_ hv.matched hv.invocations
    · change j ∈ v.waitSet.erase i ↔ j ∈ v.waitSet
      simp [hj]
    · change i ∈ v.waitSet.erase i ↔ _
      simp [leaving]
  | startle asleep => exact absurd rfl (ha _)
  | @ret i m waits woken available =>
    right
    have hw := hv.mem_waitSet waits rfl
    refine ⟨.leave i false, _, .thread (.ret (hv.call_eq waits) (mt hw.mp woken)), ?_⟩
    refine hv.moved hv.client rfl ?_ (fun j hj => ⟨Iff.rfl, ?_⟩) ?_ hv.matched hv.invocations
    · rw [← hv.client]
      rfl
    · change j ∈ v.waitSet.erase i ↔ j ∈ v.waitSet
      simp [hj]
    · change i ∈ v.waitSet.erase i ↔ i ∈ s.waitSet ∨ _
      simp [leaving, woken]
  | @timeOut i m expired available =>
    left
    have hw := hv.mem_waitSet expired rfl
    refine hv.stays rfl rfl (by rw [expired]; rfl) (fun j _ => Iff.rfl) ?_ rfl rfl
    change i ∈ v.waitSet ↔ i ∈ s.waitSet ∨ false = true
    simpa using hw
  | @api mlm call defined =>
    right
    rw [← hv.client] at defined ⊢
    exact ⟨.api mlm call, _, .thread (.api defined), rfl, hv.calls, hv.waitSet, hv.matched,
      hv.invocations⟩
  | stream idle handles =>
    right
    rw [← hv.client] at handles
    exact ⟨_, _, .thread (.stream (hv.unmatched idle) handles), rfl, hv.calls, hv.waitSet,
      hv.matched, congrArg (· ++ _) hv.invocations⟩
  | streamSkipped idle handles =>
    right
    rw [← hv.client] at handles
    exact ⟨_, _, .thread (.streamSkipped (hv.unmatched idle) handles), rfl, hv.calls, hv.waitSet,
      hv.matched, hv.invocations⟩
  | @compare subject content message idle decodes hit =>
    right
    rw [← hv.client] at hit
    exact ⟨.mailbox subject content, _, .compare (hv.unmatched idle) decodes hit, hv.client,
      hv.calls, hv.waitSet, rfl, hv.invocations⟩
  | invoke idle decodes miss dispatches =>
    right
    rw [← hv.client] at miss dispatches
    exact ⟨_, _, .invoke (hv.unmatched idle) decodes miss dispatches, rfl, hv.calls, hv.waitSet,
      hv.matched, congrArg (· ++ _) hv.invocations⟩
  | skipped idle decodes miss dispatches =>
    right
    rw [← hv.client] at miss dispatches
    exact ⟨_, _, .skipped (hv.unmatched idle) decodes miss dispatches, rfl, hv.calls, hv.waitSet,
      hv.matched, hv.invocations⟩
  | lockHandler found available =>
    left
    refine ⟨hv.client, hv.calls, hv.waitSet, ?_, hv.invocations⟩
    rw [hv.matched, found]
    rfl
  | @store message W locked notify =>
    right
    have hnone := hs.nobody_leaves locked
    have hset : v.waitSet = s.waitSet := by
      ext j
      rw [hv.waitSet j, hnone j]
      simp
    rw [← hset] at notify
    have hpending : v.matched = some message := by
      rw [hv.matched, locked]
      rfl
    refine ⟨.store, _, .store hpending notify, ?_, hv.calls, ?_, rfl, hv.invocations⟩
    · rw [hv.client]
    · intro j
      change j ∈ W ↔ j ∈ W ∨ leaving (s.calls j) = true
      simp [hnone j]

/-- The bus with its mutex does what the bus with the handler in two steps does, as
long as no wait ends for no reason. -/
theorem lock_simulates : Simulates (fun s v => Exclusive s ∧ Abstracts s v)
    (restrict (fun _ a => ∀ i, a ≠ .startle i) (LockStep (L := L))) FineStep := by
  intro s a t v hR h
  obtain ⟨hs, hv⟩ := hR
  rcases lock_fine hs hv h.1 h.2 with ht | ⟨b, v', hstep, ht⟩
  · exact ⟨[], v, .nil v, hs.step h.2, ht⟩
  · exact ⟨[b], v', .cons hstep (.nil v'), hs.step h.2, ht⟩

theorem lock_reachable
    (h : Reachable LockState.Start (restrict (fun _ a => ∀ i, a ≠ .startle i) LockStep) s) :
    ∃ v, Reachable Start FineStep v ∧ Abstracts s v := by
  have hstart : ∀ s : LockState L, s.Start → ∃ v, Start v ∧ Exclusive s ∧ Abstracts s v := by
    intro s hs
    obtain ⟨clientName, rfl⟩ := hs
    refine ⟨State.new clientName, ⟨clientName, rfl⟩, ⟨by simp [Phase.holds], by simp⟩,
      rfl, fun _ => rfl, ?_, rfl, rfl⟩
    intro i
    simp [State.new, leaving]
  obtain ⟨v, hv, _, ha⟩ := lock_simulates.reachable hstart h
  exact ⟨v, hv, ha⟩

end Locks

section Net

variable {s t u : State L} {a : Action L}

/-- Calls on malamute are only added. -/
def adds : Footprint (Client L) where
  rel c c' := c.calls <+: c'.calls
  refl _ := List.prefix_rfl
  trans _ _ _ := List.IsPrefix.trans

theorem adds_guards (s : State L) (a : Action L) : Guards adds s a where
  alike c c' he := by
    change c.calls <+: c'.calls
    rw [he.2.2]
  api mlm call _ c := by
    obtain ⟨_, _, _, new, hc, _⟩ := api_sends mlm call c
    exact ⟨new, hc.symm⟩
  send i mlm requestQueue message receiveTimeOut address _ _ c := List.prefix_append _ _

theorem run_adds {as : List (Action L)} (h : Run LooseStep s as t) :
    adds.rel s.client t.client := by
  induction h with
  | nil => exact adds.refl _
  | cons head _ ih => exact adds.trans _ _ _ (loose_keeps head (adds_guards _ _)) ih

theorem posted_trans {c c' c'' : Client L} (h : adds.rel c c') (h' : adds.rel c' c'') :
    posted c c'' = posted c c' ++ posted c' c'' := by
  obtain ⟨new, hc⟩ := h
  obtain ⟨new', hc'⟩ := h'
  have hc'' : c''.calls = c.calls ++ (new ++ new') := by
    rw [← hc', ← hc, List.append_assoc]
  rw [posted_eq hc.symm, posted_eq hc'.symm, posted_eq hc'', List.filterMap_append]

/-- What a callback calls, it calls step by step. -/
theorem script_loose {script : Script L} (h : Run Step s script.actions t) :
    Run LooseStep s script.actions t := by
  induction script generalizing s with
  | nil =>
    cases h
    exact .nil _
  | cons call script ih =>
    cases h with
    | cons head tail => exact .cons (.fine (.thread (own_thread (by simp) head))) (ih tail)

/-- What a bus does at once, with its callback, is a step and more steps of its own. -/
theorem node_loose {script : Script L} (h : NodeStep s a script u) (hs : s.matched = none) :
    u.matched = none ∧ ∃ t as, LooseStep s a t ∧ Run LooseStep t as u ∧
      ∀ b ∈ as, ∀ subject content, b ≠ .mailbox subject content := by
  obtain ⟨t, hstep, hscript, _⟩ := h
  obtain ⟨w, hfirst, hlast⟩ := step_fine hstep hs
  have hsync := (script_keeps (F := .same fun _ => ()) hscript fun _ _ _ => rfl).1
  have hown : ∀ b ∈ script.actions, ∀ subject content, b ≠ .mailbox subject content := by
    intro b hb subject content he
    obtain ⟨call, _, hcall⟩ := List.mem_map.mp hb
    cases hcall.trans he
  refine ⟨(congrArg Sync.matched hsync).trans ((step_matched hstep).trans hs), w, ?_⟩
  rcases hlast with rfl | hstore
  · exact ⟨script.actions, .fine hfirst, script_loose hscript, hown⟩
  · refine ⟨.store :: script.actions, .fine hfirst, .cons (.fine hstore) (script_loose hscript), ?_⟩
    intro b hb
    rcases List.mem_cons.mp hb with rfl | hb
    · simp
    · exact hown b hb

variable [DecidableEq ι] {n : Net ι L} {i : ι}

theorem after_after {mail : List Mail} (h : adds.rel (n.nodes i).client t.client)
    (h' : adds.rel t.client u.client) :
    (n.after i t mail).after i u (n.after i t mail).mail = n.after i u mail := by
  unfold Net.after
  simp only [Function.update_self, Function.update_idem, List.append_assoc, ← posted_trans h h']

theorem bus_run {as : List (Action L)} (h : Run LooseStep s as u) (hn : n.nodes i = s)
    (hown : ∀ b ∈ as, ∀ subject content, b ≠ .mailbox subject content) :
    Run LooseNetStep n (as.map fun b => .act i b []) (n.after i u n.mail) := by
  induction h generalizing n with
  | nil s =>
    subst hn
    have he : n.after i (n.nodes i) n.mail = n := by
      unfold Net.after
      rw [Function.update_eq_self, posted_eq (List.append_nil _).symm]
      simp
    rw [he]
    exact .nil n
  | @cons s t u a as head tail ih =>
    subst hn
    have htail := ih (n := n.after i t n.mail) (Net.after_self n i t n.mail)
      fun b hb => hown b (List.mem_cons_of_mem a hb)
    rw [after_after (loose_keeps head (adds_guards _ _)) (run_adds tail)] at htail
    exact .cons (.act (hown a List.mem_cons_self) head) htail

/-- A net whose buses take large steps does what one with the small steps can do. -/
theorem net_simulates :
    Simulates (fun n n' : Net ι L => n' = n ∧ ∀ i, (n.nodes i).matched = none) NetStep
      LooseNetStep := by
  intro n a n₁ n' hR h
  obtain ⟨rfl, hidle⟩ := hR
  have hafter : ∀ i u mail, u.matched = none →
      ∀ j, ((n'.after i u mail).nodes j).matched = none := by
    intro i u mail hu j
    rcases eq_or_ne j i with rfl | hj
    · rwa [Net.after_self]
    · rw [Net.after_other n' u mail hj]
      exact hidle j
  cases h with
  | @act i a script u own step =>
    obtain ⟨hu, t, as, hfirst, hrest, hown⟩ := node_loose step (hidle i)
    refine ⟨_, _, bus_run (.cons hfirst hrest) rfl ?_, rfl, hafter i u _ hu⟩
    intro b hb
    rcases List.mem_cons.mp hb with rfl | hb
    · exact own
    · exact hown b hb
  | @deliver i x script u flight addressed step =>
    obtain ⟨hu, t, as, hfirst, hrest, hown⟩ := node_loose step (hidle i)
    have hrun := bus_run (n := n'.after i t (n'.mail.erase x)) hrest (Net.after_self _ _ _ _) hown
    rw [after_after (loose_keeps hfirst (adds_guards _ _)) (run_adds hrest)] at hrun
    exact ⟨_, _, .cons (.deliver flight addressed hfirst) hrun, rfl, hafter i u _ hu⟩
  | @post x => exact ⟨[.post x], _, .cons .post (.nil _), rfl, hidle⟩

end Net

end Messagebus.Proofs.Levels
