import Messagebus.Proofs.Correlation
import Messagebus.Proofs.Nodes

namespace Messagebus.Proofs.Responses
open CondVar Frame Runs Proofs.Calls Proofs.Requests
open Proofs.Correlation (ask answer accepting)

variable {L : Type}

/-- What is noted down of a run. A return comes with whether the call has been
notified. -/
inductive Entry where
  | sent (i : ℕ)
  | stored (message : Message)
  | returned (i : ℕ) (response : Message) (notified : Bool)
deriving DecidableEq

def entry (s : State L) : Action L → Option Entry
  | .send i _ => some (.sent i)
  | .mailbox _ content =>
    match fromZmsg content with
    | .ok message => if syncMatch s.client.bus message then some (.stored message) else none
    | .error _ => none
  | .leave i false => some (.returned i s.client.bus.syncResponse (decide (i ∉ s.waitSet)))
  | _ => none

/-- The last response stored was stored after the call had sent, and no call has
returned it yet. -/
def Answered (history : List Entry) (i : ℕ) (response : Message) : Prop :=
  ∃ before between after,
    history = before ++ .sent i :: (between ++ .stored response :: after) ∧
      (∀ message, .stored message ∉ after) ∧ ∀ j r notified, .returned j r notified ∉ after

/-- Each return has a store of its own between the sending of the call and itself,
and returns what was stored there. -/
def Paired (history : List Entry) : Prop :=
  AtEach (fun before e => ∀ i r notified, e = .returned i r notified → Answered before i r) history

/-- Nothing was stored since the call has sent. -/
def Unanswered (history : List Entry) (i : ℕ) : Prop :=
  ∃ before after, history = before ++ .sent i :: after ∧ .sent i ∉ before ∧ .sent i ∉ after ∧
    ∀ message, .stored message ∉ after

theorem Unanswered.not_answered {history : List Entry} {i : ℕ} {r : Message}
    (h : Unanswered history i) : ¬ Answered history i r := by
  intro ha
  obtain ⟨before, after, he, hb, haf, hno⟩ := h
  obtain ⟨before', between, after', he', _, _⟩ := ha
  obtain ⟨_, _, htail⟩ := (List.append_cons_inj_of_notMem hb haf).mp (he.symm.trans he')
  exact hno r (by simp [htail])

theorem Unanswered.store {history : List Entry} {i : ℕ} (h : Unanswered history i)
    (message : Message) : Answered (history ++ [.stored message]) i message := by
  obtain ⟨before, after, he, _, _, _⟩ := h
  exact ⟨before, after, [], by simp [he], by simp, by simp⟩

theorem Answered.store {history : List Entry} {i : ℕ} {r : Message} (h : Answered history i r)
    (message : Message) : Answered (history ++ [.stored message]) i message := by
  obtain ⟨before, between, after, he, _, _⟩ := h
  exact ⟨before, between ++ .stored r :: after, [], by simp [he], by simp, by simp⟩

/-- A call that has not sent its message, and may still do so. -/
def toSend : Call → Bool
  | .notMade | .armed _ _ _ _ => true
  | _ => false

/-- How the history of requests made one at a time goes with the state. -/
structure Books (v : Sync) (history : List Entry) : Prop where
  alone : ∀ i j, (v.calls i).underway = true → (v.calls j).underway = true → i = j
  sleeping : ∀ i ∈ v.waitSet, (v.calls i).underway = true
  unsent : ∀ i, toSend (v.calls i) = true → .sent i ∉ history
  asleep : ∀ i ∈ v.waitSet, Unanswered history i
  woken : ∀ i message, v.calls i = .waiting message → i ∉ v.waitSet →
    Answered history i v.response
  paired : Paired history ↔ ∀ i r, .returned i r false ∉ history

theorem new_books : Books .new [] where
  alone i _ hi := by simp [Sync.new, Call.underway] at hi
  sleeping i hi := by simp [Sync.new] at hi
  unsent i _ := by simp
  asleep i hi := by simp [Sync.new] at hi
  woken i message hi := by simp [Sync.new] at hi
  paired := iff_of_true (atEach_nil _) (by simp)

/-- An entry that is no return is none of the pairing's concern. -/
theorem paired_snoc {history : List Entry} {e : Entry} (he : ∀ i r n, e ≠ .returned i r n)
    (h : Paired history ↔ ∀ i r, .returned i r false ∉ history) :
    Paired (history ++ [e]) ↔ ∀ i r, .returned i r false ∉ history ++ [e] := by
  unfold Paired at h ⊢
  rw [atEach_snoc, h]
  constructor
  · intro hp i r hmem
    rcases List.mem_append.mp hmem with hmem | hmem
    · exact hp.1 i r hmem
    · exact he i r false (List.mem_singleton.mp hmem).symm
  · intro hp
    refine ⟨fun i r hmem => hp i r (List.mem_append_left _ hmem), ?_⟩
    intro i r n heq
    exact absurd heq (he i r n)

section Step

variable {v : Sync} {history : List Entry} {i : ℕ}

/-- Nobody else is under way beside a call that is. -/
theorem Books.other (hv : Books v history) (hi : (v.calls i).underway = true) {j : ℕ}
    (hj : j ≠ i) : (v.calls j).underway = false := by
  rw [← Bool.not_eq_true]
  intro h
  exact hj (hv.alone j i h hi)

/-- A call that comes while none is under way, and gets as far as it may. -/
theorem Books.made (hv : Books v history) (hq : ∀ j, (v.calls j).underway = false)
    (fresh : v.calls i = .notMade) (uuid : Bytes) {call : Call}
    (hc : ∀ message, call ≠ .waiting message) :
    Books { v with uuid := uuid, calls := Function.update v.calls i call } history := by
  have honly : ∀ j, (Function.update v.calls i call j).underway = true → j = i := by
    intro j hj
    by_contra hne
    rw [Function.update_of_ne hne, hq j] at hj
    cases hj
  have hw : ∀ j, j ∉ v.waitSet := by
    intro j hj
    have hu := hv.sleeping j hj
    rw [hq j] at hu
    cases hu
  refine ⟨?_, fun j hj => absurd hj (hw j), ?_, hv.asleep, ?_, hv.paired⟩
  · intro j k hj hk
    rw [honly j hj, honly k hk]
  · intro j hj
    rcases eq_or_ne j i with rfl | hne
    · exact hv.unsent j (by simp [fresh, toSend])
    · exact hv.unsent j (by simpa [hne] using hj)
  · intro j message hj
    have he := honly j (congrArg Call.underway hj)
    subst he
    exact absurd (by simpa using hj) (hc message)

/-- The call under way goes on to a state that is its own. -/
theorem Books.moved (hv : Books v history) (hi : (v.calls i).underway = true) {call : Call} {j : ℕ}
    (hj : (Function.update v.calls i call j).underway = true) : j = i := by
  by_contra hne
  rw [Function.update_of_ne hne, hv.other hi hne] at hj
  cases hj

theorem Books.sent (hv : Books v history) {requestQueue address : Bytes} {message : Message}
    {receiveTimeOut : Int}
    (armed : v.calls i = .armed requestQueue message receiveTimeOut address) :
    Books { v with calls := Function.update v.calls i (.waiting message)
                   waitSet := insert i v.waitSet } (history ++ [.sent i]) := by
  have hi : (v.calls i).underway = true := by simp [armed, Call.underway]
  have hnew : .sent i ∉ history := hv.unsent i (by simp [armed, toSend])
  have hw : v.waitSet = ∅ := by
    apply Finset.eq_empty_of_forall_notMem
    intro j hj
    have he := hv.alone j i (hv.sleeping j hj) hi
    subst he
    obtain ⟨before, after, hb, _, _, _⟩ := hv.asleep j hj
    exact hnew (by simp [hb])
  refine ⟨?_, ?_, ?_, ?_, ?_, paired_snoc (by simp) hv.paired⟩
  · intro j k hj hk
    rw [hv.moved hi hj, hv.moved hi hk]
  · intro j hj
    have he : j = i := by simpa [hw] using hj
    subst he
    simp [Call.underway]
  · intro j hj
    have hne : j ≠ i := by
      intro he
      subst he
      simp [toSend] at hj
    have hold := hv.unsent j (by simpa [hne] using hj)
    simp [hold, hne]
  · intro j hj
    have he : j = i := by simpa [hw] using hj
    subst he
    exact ⟨history, [], rfl, hnew, by simp, by simp⟩
  · intro j m hj hnot
    have he := hv.moved hi (congrArg Call.underway hj)
    subst he
    simp at hnot

/-- A call that leaves the wait, whatever is noted down of it. -/
theorem Books.left (hv : Books v history) (hi : (v.calls i).underway = true) {call : Call}
    (hc : call.underway = false) (hs : toSend call = false) {new : List Entry}
    (hnew : ∀ j, .sent j ∉ new)
    (hp : Paired (history ++ new) ↔ ∀ i r, .returned i r false ∉ history ++ new) :
    Books { v with calls := Function.update v.calls i call, waitSet := v.waitSet.erase i }
      (history ++ new) := by
  have hnone : ∀ j, (Function.update v.calls i call j).underway = false := by
    intro j
    rw [← Bool.not_eq_true]
    intro hj
    have he := hv.moved hi hj
    subst he
    rw [Function.update_self, hc] at hj
    cases hj
  have hw : ∀ j, j ∉ v.waitSet.erase i := by
    intro j hj
    obtain ⟨hne, hj⟩ := Finset.mem_erase.mp hj
    exact hne (hv.alone j i (hv.sleeping j hj) hi)
  refine ⟨?_, fun j hj => absurd hj (hw j), ?_, fun j hj => absurd hj (hw j), ?_, hp⟩
  · intro j k hj
    rw [hnone j] at hj
    cases hj
  · intro j hj
    have hne : j ≠ i := by
      intro he
      subst he
      simp [hs] at hj
    have hold := hv.unsent j (by simpa [hne] using hj)
    simp [hold, hnew]
  · intro j m hj
    have hu := (congrArg Call.underway hj).symm.trans (hnone j)
    cases hu

/-- A return is paired exactly if the call was notified. -/
theorem Books.returned (hv : Books v history) {message : Message}
    (waits : v.calls i = .waiting message) :
    Books { v with calls := Function.update v.calls i (.returned message v.response)
                   waitSet := v.waitSet.erase i }
      (history ++ [.returned i v.response (decide (i ∉ v.waitSet))]) := by
  refine hv.left (by simp [waits, Call.underway]) rfl rfl (by simp) ?_
  have hlast : Answered history i v.response ↔ i ∉ v.waitSet := by
    constructor
    · intro ha hi
      exact (hv.asleep i hi).not_answered ha
    · intro hi
      exact hv.woken i message waits hi
  have hp := hv.paired
  unfold Paired at hp ⊢
  rw [atEach_snoc, hp]
  simp only [Entry.returned.injEq, List.mem_append, List.mem_singleton, not_or]
  constructor
  · intro h j r
    refine ⟨h.1 j r, ?_⟩
    intro he
    obtain ⟨rfl, rfl, hd⟩ := he
    have ha := hlast.mp (h.2 _ _ _ ⟨rfl, rfl, rfl⟩)
    simp [ha] at hd
  · intro h
    refine ⟨fun j r => (h j r).1, ?_⟩
    intro j r n he
    obtain ⟨rfl, rfl, _⟩ := he
    refine hlast.mpr ?_
    intro hi
    exact (h i v.response).2 ⟨rfl, rfl, by simp [hi]⟩

theorem Books.stored (hv : Books v history) {message : Message} {W : Finset ℕ}
    (notify : NotifyOne v.waitSet W) :
    Books { v with response := message, uuid := [], waitSet := W }
      (history ++ [.stored message]) := by
  have hw : ∀ j, j ∉ W := by
    intro j hj
    rcases notify with ⟨_, rfl⟩ | ⟨w, hw, rfl⟩
    · simp at hj
    · obtain ⟨hne, hj⟩ := Finset.mem_erase.mp hj
      exact hne (hv.alone j w (hv.sleeping j hj) (hv.sleeping w hw))
  refine ⟨hv.alone, fun j hj => absurd hj (hw j), ?_, fun j hj => absurd hj (hw j), ?_,
    paired_snoc (by simp) hv.paired⟩
  · intro j hj
    simpa using hv.unsent j hj
  · intro j m hj _
    by_cases hold : j ∈ v.waitSet
    · exact (hv.asleep j hold).store message
    · exact (hv.woken j m hj hold).store message

end Step

theorem call_books {s : State L} {history : List Entry} {i : ℕ} {message : Message}
    (requestQueue : Bytes) (receiveTimeOut : Int) (hv : Books (sync s) history)
    (hq : ∀ j, (s.calls j).underway = false) (fresh : s.calls i = .notMade) :
    Books (sync (s.call i requestQueue message receiveTimeOut)) history := by
  unfold State.call
  rcases requestArm_cases message s.client with
    ⟨_, he⟩ | ⟨uuid, _, _, ⟨_, he⟩ | ⟨address, _, _, he⟩⟩
  · rw [he]
    exact hv.made hq fresh s.client.bus.syncUuid (by simp)
  · rw [he]
    exact hv.made hq fresh uuid (by simp)
  · rw [he]
    exact hv.made hq fresh uuid (by simp)

/-- The other steps of the bus, which leave the protocol alone. -/
theorem quiet_books {s t : State L} {a : Action L} {history : List Entry}
    (hv : Books (sync s) history) (hs : sync t = sync s) (he : entry s a = none) :
    Books (sync t) (history ++ (entry s a).toList) := by
  rw [hs, he, Option.toList_none, List.append_nil]
  exact hv

theorem mailbox_books {s t : State L} {subject : Bytes} {content : Zmsg} {history : List Entry}
    (hv : Books (sync s) history) (h : Step s (.mailbox subject content) t) :
    Books (sync t) (history ++ (entry s (.mailbox subject content)).toList) := by
  obtain ⟨message, hd⟩ := mailbox_decodes h
  cases hm : syncMatch s.client.bus message with
  | true =>
    obtain ⟨W, hW, rfl⟩ := (match_step hd hm).mp h
    have he : entry s (.mailbox subject content) = some (.stored message) := by
      simp [entry, hd, hm]
    rw [he]
    exact hv.stored hW
  | false => exact quiet_books hv ((miss_step subject hd hm).2 t h) (by simp [entry, hd, hm])

theorem step_books {s t : State L} {a : Action L} {history : List Entry}
    (hv : Books (sync s) history) (hq : OneAtATime s a) (h : WaitStep s a t) :
    Books (sync t) (history ++ (entry s a).toList) := by
  cases h with
  | spurious waits asleep => exact hv.returned waits
  | step h =>
    cases a with
    | mailbox subject content => exact mailbox_books hv h
    | call i requestQueue message receiveTimeOut =>
      cases Nodes.own_thread (by simp) h with
      | call fresh =>
        rw [show entry s (.call i requestQueue message receiveTimeOut) = none from rfl,
          Option.toList_none, List.append_nil]
        exact call_books _ _ hv hq fresh
    | send i mlm =>
      cases Nodes.own_thread (by simp) h with
      | send armed => exact hv.sent armed
    | leave i timeout =>
      cases Nodes.own_thread (by simp) h with
      | ret waits notified => exact hv.returned waits
      | timeOut waits =>
        have hu : ((sync s).calls i).underway = true := by simp [sync, waits, Call.underway]
        have hp : Paired (history ++ []) ↔ ∀ i r, .returned i r false ∉ history ++ [] := by
          simpa using hv.paired
        exact hv.left hu rfl rfl (by simp [entry]) hp
    | api mlm call =>
      cases Nodes.own_thread (by simp) h with
      | api defined => exact quiet_books hv (api_sync s mlm call) rfl
    | stream subject content =>
      cases Nodes.own_thread (by simp) h with
      | stream idle handles =>
        cases stream_sync handles
        exact quiet_books hv rfl rfl
      | streamSkipped idle handles =>
        cases stream_sync handles
        exact quiet_books hv rfl rfl
    | store => cases Nodes.own_thread (by simp) h

/-- Requests made one at a time return each a response of their own, stored after
they have sent, exactly if none returns without having been notified. -/
theorem paired_iff {x : State L × List Entry}
    (h : Reachable (unrecorded Start) (record entry (restrict OneAtATime WaitStep)) x) :
    Paired x.2 ↔ ∀ i r, .returned i r false ∉ x.2 := by
  have hv : Books (sync x.1) x.2 := by
    refine h.invariant (I := fun x => Books (sync x.1) x.2) ?_ ?_
    · intro y hy
      rw [sync_new hy.1, hy.2]
      exact new_books
    · intro y a z hy hs
      rw [hs.2]
      exact step_books hy hs.1.1 hs.1.2
  exact hv.paired

/-- A bus on which a request waits. -/
def asking : State Unit :=
  ((State.new (lit "bus")).call 0 (lit "queue") (ask (lit "a")) 1).send accepting 0 (lit "queue")
    (ask (lit "a")) 1 (lit "peer")

theorem asking_run : Run (record entry (restrict OneAtATime WaitStep)) (State.new (lit "bus"), [])
    [.call 0 (lit "queue") (ask (lit "a")) 1, .send 0 accepting] (asking, [.sent 0]) := by
  let armed : State Unit := (State.new (lit "bus")).call 0 (lit "queue") (ask (lit "a")) 1
  refine .cons (t := (armed, [])) ⟨⟨fun _ => rfl, .step (.thread (.call rfl))⟩, rfl⟩ ?_
  exact .cons ⟨⟨trivial, .step (.thread (.send rfl))⟩, rfl⟩ (.nil _)

theorem notified_return_paired :
    Paired [.sent 0, .stored (answer (lit "a")), .returned 0 (answer (lit "a")) true] := by
  let answered : State Unit :=
    { asking with
      client := final (storeResponse (answer (lit "a")) asking.client)
      waitSet := asking.waitSet.erase 0 }
  let returned := answered.leave 0 (ask (lit "a")) false
  have hrun : Run (record entry (restrict OneAtATime WaitStep)) (asking, [.sent 0])
      [.mailbox (lit "queue") (toZmsg (answer (lit "a"))), .leave 0 false]
      (returned, [.sent 0, .stored (answer (lit "a")), .returned 0 (answer (lit "a")) true]) := by
    refine .cons (t := (answered, [.sent 0, .stored (answer (lit "a"))]))
      ⟨⟨trivial, .step (.response rfl (Or.inr ⟨0, by decide, rfl⟩))⟩, rfl⟩ ?_
    exact .cons ⟨⟨trivial, .step (.thread (.ret rfl (by decide)))⟩, rfl⟩ (.nil _)
  refine (paired_iff ⟨_, _, ⟨⟨_, rfl⟩, rfl⟩, asking_run.append hrun⟩).mpr ?_
  simp

/-- A wait that ends for no reason returns the Message that the bus was made with. -/
theorem spurious_return_unpaired :
    ¬ ∀ x : State Unit × List Entry,
      Reachable (unrecorded Start) (record entry (restrict OneAtATime WaitStep)) x →
        Paired x.2 := by
  intro h
  have hrun : Run (record entry (restrict OneAtATime WaitStep)) (asking, [.sent 0])
      [.leave 0 false] (asking.leave 0 (ask (lit "a")) false,
        [.sent 0, .returned 0 .empty false]) :=
    .cons ⟨⟨trivial, .spurious rfl (by decide)⟩, rfl⟩ (.nil _)
  have hp := h _ ⟨_, _, ⟨⟨_, rfl⟩, rfl⟩, asking_run.append hrun⟩
  obtain ⟨before, between, after, he, _, _⟩ := hp [.sent 0] _ [] rfl 0 .empty false rfl
  have hlen := congrArg List.length he
  simp at hlen
  omega

end Messagebus.Proofs.Responses
