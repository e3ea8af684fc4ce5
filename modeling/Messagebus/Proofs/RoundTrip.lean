import Messagebus.Proofs.Stages

namespace Messagebus.Proofs.RoundTrip
open CondVar Frame Runs Proofs.Calls Proofs.Requests Proofs.Nodes Proofs.Stages

variable {ι L : Type} {names : ι → Bytes} (e : Exchange ι L names)

structure Inv (n : Net ι L) : Prop where
  named : ∀ i, (n.nodes i).client.bus.clientName = names i
  others : ∀ i j, ¬ (i = e.asker ∧ j = e.call) → ((n.nodes i).calls j).uuid ≠ some e.id
  foreign : ∀ i, i ≠ e.asker → (n.nodes i).client.bus.syncUuid ≠ e.id
  asking : Asking e (sync (n.nodes e.asker))
  bound : (n.nodes e.asker).calls e.call ≠ .notMade →
    (n.nodes e.replier).client.bus.subscriptions.find e.queue = some e.listener
  stage : Stage e ((n.nodes e.asker).calls e.call) (withId e.id n.mail)
    (invokedWith e.id (n.nodes e.replier))

theorem start_inv {n : Net ι L} (h : n.Start names) : Inv e n := by
  cases h
  refine ⟨fun _ => rfl, fun _ _ _ => nofun, fun _ _ he => e.id_set he.symm, ?_, ?_, .notMade⟩
  · exact ⟨fun i hi => absurd hi (Finset.notMem_empty i), nofun, nofun, nofun⟩
  · exact fun hne => absurd rfl hne

section Net

variable {e} [DecidableEq ι] {n : Net ι L} {i : ι} {s t u : State L} {a : Action L}
  {script : Script L} {mail : List Mail}

/-- A step at one bus: what is left to show is how far the exchange gets. -/
theorem Inv.after (hi : Inv e n) (hstep : Step (n.nodes i) a t)
    (hscript : Run Step t script.actions u)
    (hcall : ∀ j q m timeOut, a = .call j q m timeOut → ¬ (i = e.asker ∧ j = e.call) →
      m.correlationId ≠ some e.id)
    (hasking : i = e.asker → Asking e (sync u))
    (hbound : ((n.after i u mail).nodes e.asker).calls e.call ≠ .notMade →
      ((n.after i u mail).nodes e.replier).client.bus.subscriptions.find e.queue =
        some e.listener)
    (hstage : Stage e (((n.after i u mail).nodes e.asker).calls e.call)
      (withId e.id (n.after i u mail).mail)
      (invokedWith e.id ((n.after i u mail).nodes e.replier))) :
    Inv e (n.after i u mail) := by
  have hsync : sync u = sync t :=
    (script_keeps (F := .same fun _ => ()) hscript fun _ _ _ => rfl).1
  refine ⟨?_, ?_, ?_, ?_, hbound, hstage⟩
  · intro j
    rcases eq_or_ne j i with rfl | hj
    · rw [Net.after_self, script_name hscript, step_name hstep]
      exact hi.named j
    · rw [Net.after_other n u mail hj]
      exact hi.named j
  · intro j
    rcases eq_or_ne j i with rfl | hj
    · rw [Net.after_self]
      have ht := others_turn (P := fun k => ¬ (j = e.asker ∧ k = e.call)) (hi.others j)
        (step_turn hstep hcall)
      rw [← hsync] at ht
      exact ht
    · rw [Net.after_other n u mail hj]
      exact hi.others j
  · intro j hj'
    rcases eq_or_ne j i with rfl | hj
    · rw [Net.after_self]
      have ht := foreign_turn e.id_set (hi.foreign j hj') (step_turn hstep
        fun k q m timeOut hk => hcall k q m timeOut hk fun h => hj' h.1)
      rw [← hsync] at ht
      exact ht
    · rw [Net.after_other n u mail hj]
      exact hi.foreign j hj'
  · rcases eq_or_ne i e.asker with rfl | hia
    · rw [Net.after_self]
      exact hasking rfl
    · rw [Net.after_other n u mail (Ne.symm hia)]
      exact hi.asking

/-- A step at one bus that hands nothing over with the id: the mail with the id is
what is left of it, and the exchange is where it was, but for the two parties. -/
theorem Inv.quiet (hi : Inv e n) (hstep : Step (n.nodes i) a t)
    (hscript : Run Step t script.actions u)
    (hcall : ∀ j q m timeOut, a = .call j q m timeOut → ¬ (i = e.asker ∧ j = e.call) →
      m.correlationId ≠ some e.id)
    (hspares : Spares e.id (n.nodes i) a) (hother : ∀ call ∈ script, e.Other n i call.2)
    (hun : ∀ mlm call, a = .api mlm call → e.Other n i call)
    (hasker : i = e.asker → Asking e (sync t) ∧
      Stage e (t.calls e.call) (withId e.id mail) (invokedWith e.id (n.nodes e.replier)) ∧
      (t.calls e.call ≠ .notMade → (n.nodes e.replier).client.bus.subscriptions.find e.queue =
        some e.listener))
    (hstage : i ≠ e.asker → Stage e ((n.nodes e.asker).calls e.call) (withId e.id mail)
      (invokedWith e.id (if i = e.replier then t else n.nodes e.replier))) :
    Inv e (n.after i u mail) := by
  obtain ⟨hsync, hinv, hsilent⟩ := script_keeps (F := silent e.id) hscript
    fun call hc c => sends_silent (api_sends call.1 call.2 c) (hother call hc).1
  have hmail : withId e.id (n.after i u mail).mail = withId e.id mail := by
    have hs := (silent e.id).trans _ _ _ (step_silent hstep hspares) hsilent
    change withId e.id (mail ++ posted (n.nodes i).client u.client) = _
    rw [withId_append, silent_posted hs, List.append_nil]
  have hcalls : u.calls = t.calls := congrArg Sync.calls hsync
  have hinvoked : invokedWith e.id u = invokedWith e.id t := by
    rw [invokedWith, hinv, invokedWith]
  rcases eq_or_ne i e.asker with rfl | hia
  · obtain ⟨hask, hst, hb⟩ := hasker rfl
    have hr := Net.after_other n u mail (asker_ne_replier e).symm
    refine hi.after hstep hscript hcall (fun _ => hsync ▸ hask) ?_ ?_
    · rw [Net.after_self, hr, hcalls]
      exact hb
    · rw [Net.after_self, hr, hcalls, hmail]
      exact hst
  · have ha := Net.after_other n u mail hia.symm
    refine hi.after hstep hscript hcall (fun he => absurd he hia) ?_ ?_
    · rw [ha]
      intro hmade
      rcases eq_or_ne e.replier i with rfl | hir
      · rw [Net.after_self]
        refine script_holds hscript ?_ (step_holds hstep ?_ (hi.bound hmade))
        · exact fun call hc he => hmade ((hother call hc).2 rfl he)
        · exact fun mlm he => hmade ((hun mlm _ he).2 rfl rfl)
      · rw [Net.after_other n u mail hir]
        exact hi.bound hmade
    · rw [ha, hmail]
      have hst := hstage hia
      rcases eq_or_ne e.replier i with rfl | hir
      · rw [Net.after_self, hinvoked]
        rwa [if_pos rfl] at hst
      · rw [Net.after_other n u mail hir]
        rwa [if_neg hir.symm] at hst

/-- The request is sent. -/
theorem Inv.send (hi : Inv e n) {mlm : Mlm}
    (h : NodeStep (n.nodes e.asker) (.send e.call mlm) script u) :
    Inv e (n.after e.asker u n.mail) := by
  obtain ⟨t, hstep, hscript, hsilent⟩ := h
  have hnil : script = [] := act_script (by simp) (by simp) hstep hsilent
  subst hnil
  have hend : u = t := by
    cases hscript
    rfl
  subst hend
  cases own_thread (by simp) hstep with
  | @send _ _ q m timeOut address armed =>
    have hst := hi.stage
    rw [armed] at hst
    obtain ⟨⟨rfl, rfl, rfl, rfl⟩, hmail, hinvoked⟩ := hst.ready
    have hk : ((n.nodes e.asker).calls e.call).underway = true := by
      rw [armed]
      rfl
    have huuid : (n.nodes e.asker).client.bus.syncUuid = e.id := by
      refine hi.asking.pending hk fun message hw => ?_
      cases armed.symm.trans hw
    have hout : Outcome e (.waiting e.request) := Or.inl rfl
    have hcalls : ((n.nodes e.asker).send mlm e.call e.queue e.request e.receiveTimeOut
          (names e.replier)).client.calls = (n.nodes e.asker).client.calls ++
        [.sendto (cStr (names e.replier)) (cStr e.queue) (toZmsg e.sent) mlm.send] := by
      rw [Exchange.sent, ← hi.named e.asker]
      rfl
    have hne := (asker_ne_replier e).symm
    refine hi.after hstep hscript (by simp) (fun _ => ?_) ?_ ?_
    · have hp := asking_proceed (e := e) (W := insert e.call (n.nodes e.asker).waitSet)
        (sync (n.nodes e.asker)) (.waiting e.request) (hi.asking.alone hk) rfl ?_
        (fun _ _ => Finset.mem_insert_self ..)
      · rw [← huuid] at hp
        exact hp
      · intro i hm
        rcases Finset.mem_insert.mp hm with rfl | hm
        · rfl
        · exact hi.asking.alone hk i (hi.asking.inWait i hm)
    · rw [Net.after_other n _ _ hne]
      intro _
      exact hi.bound (by rw [armed]; nofun)
    · rw [Net.after_other n _ _ hne, hinvoked, Net.after_self]
      change Stage e (Function.update (n.nodes e.asker).calls e.call (.waiting e.request) e.call)
        (withId e.id (n.mail ++ posted (n.nodes e.asker).client _)) []
      rw [Function.update_self, withId_append, hmail, List.nil_append, posted_eq hcalls,
        cStr_eq_self e.plain.2.1, cStr_eq_self e.plain.2.2]
      cases mlm.send with
      | false => exact .lost hout
      | true =>
        have hc := requestMail_carries e
        change Stage e _ (List.filter _ [requestMail e]) []
        rw [List.filter_singleton, hc]
        exact .asked hout

theorem Inv.act (hi : Inv e n) (own : ∀ subject content, a ≠ .mailbox subject content)
    (h : NodeStep (n.nodes i) a script u) (hallows : e.Allows n (.act i a script)) :
    Inv e (n.after i u n.mail) := by
  by_cases hsend : i = e.asker ∧ ∃ mlm, a = .send e.call mlm
  · obtain ⟨rfl, mlm, rfl⟩ := hsend
    exact hi.send h
  obtain ⟨t, hstep, hscript, hsilent⟩ := h
  have hthread := own_thread own hstep
  have hother : ∀ call ∈ script, e.Other n i call.2 := by
    by_cases hst : ∃ subject content, a = .stream subject content
    · obtain ⟨subject, content, rfl⟩ := hst
      exact hallows.2
    · rw [act_script own (fun q z he => hst ⟨q, z, he⟩) hstep hsilent]
      nofun
  refine hi.quiet hstep hscript ?_ ?_ hother ?_ ?_ ?_
  · intro j q m timeOut he hne
    subst he
    rcases hallows with ⟨rfl, rfl, _⟩ | ⟨_, hid, _⟩
    · exact absurd ⟨rfl, rfl⟩ hne
    · exact hid
  · cases a with
    | api mlm call => exact hallows.1
    | send j mlm => exact hi.others i j fun he => hsend ⟨he.1, mlm, he.2 ▸ rfl⟩
    | _ => trivial
  · intro mlm call he
    subst he
    exact hallows
  · rintro rfl
    obtain ⟨hask, hst⟩ := thread_asking rfl hi.asking hi.stage hthread
      (fun mlm he => hsend ⟨rfl, mlm, he⟩) hallows
    refine ⟨hask, hst, fun hmade => ?_⟩
    by_cases hfresh : (n.nodes e.asker).calls e.call = .notMade
    · obtain ⟨q, m, timeOut, rfl⟩ := made_by_call hthread hfresh hmade
      rcases hallows with ⟨_, _, _, _, _, _, hb⟩ | ⟨hne, _⟩
      · exact hb
      · exact absurd ⟨rfl, rfl⟩ hne
    · exact hi.bound hfresh
  · intro _
    split
    · rename_i hir
      subst hir
      rw [step_invokedWith hstep ?_]
      · exact hi.stage
      · rintro subject content (rfl | rfl)
        · exact absurd rfl (own _ _)
        · exact hallows.1
    · exact hi.stage

/-- A message with another id is delivered. -/
theorem Inv.deliver_other (hi : Inv e n) {x : Mail} (hc : carries e.id x.content = false)
    (hstep : Step (n.nodes i) (.mailbox x.subject x.content) t)
    (hscript : Run Step t script.actions u) (hother : ∀ call ∈ script, e.Other n i call.2) :
    Inv e (n.after i u (n.mail.erase x)) := by
  obtain ⟨message, hd⟩ := mailbox_decodes hstep
  have hmail : withId e.id (n.mail.erase x) = withId e.id n.mail := by
    rw [withId_erase, List.erase_of_not_mem]
    intro hx
    have hc' := (List.mem_filter.mp hx).2
    rw [hc] at hc'
    cases hc'
  refine hi.quiet hstep hscript (by simp) trivial hother (by simp) ?_ ?_
  · rintro rfl
    obtain ⟨hask, hcalls⟩ := mailbox_asking hi.asking hd hstep fun hid _ => by
      rw [(carries_iff hd).mpr hid] at hc
      cases hc
    rw [hcalls, hmail]
    exact ⟨hask, hi.stage, hi.bound⟩
  · intro _
    rw [hmail]
    split
    · rename_i hir
      subst hir
      rw [step_invokedWith hstep ?_]
      · exact hi.stage
      · rintro q z (he | he)
        · cases he
          exact hc
        · cases he
    · exact hi.stage

/-- The response is delivered: the request returns it, or came to its end before. -/
theorem Inv.deliver_response (hi : Inv e n) {subject : Bytes}
    (hout : Outcome e ((n.nodes e.asker).calls e.call))
    (hone : withId e.id n.mail = [responseMail e subject])
    (hinvoked : invokedWith e.id (n.nodes e.replier) = [(e.listener, e.sent)])
    (hir : i ≠ e.replier)
    (hstep : Step (n.nodes i)
      (.mailbox (responseMail e subject).subject (responseMail e subject).content) t)
    (hscript : Run Step t script.actions u) (hother : ∀ call ∈ script, e.Other n i call.2) :
    Inv e (n.after i u (n.mail.erase (responseMail e subject))) := by
  have hmail : withId e.id (n.mail.erase (responseMail e subject)) = [] := by
    rw [withId_erase, hone, List.erase_cons_head]
  refine hi.quiet hstep hscript (by simp) trivial hother (by simp) ?_ ?_
  · rintro rfl
    obtain ⟨hask, hcalls⟩ := mailbox_asking hi.asking (response_decodes e) hstep fun _ hk => by
      refine ⟨rfl, ?_⟩
      rcases hout with hw | hr | ⟨fault, hf, _⟩
      · exact ⟨_, hw⟩
      · rw [hr] at hk
        cases hk
      · rw [hf] at hk
        cases hk
    rw [hcalls, hmail, hinvoked]
    exact ⟨hask, .ended hout, hi.bound⟩
  · intro _
    rw [hmail, if_neg hir, hinvoked]
    exact .ended hout

/-- The request is delivered to a namesake of the replier. -/
theorem Inv.deliver_lost (hi : Inv e n) (hout : Outcome e ((n.nodes e.asker).calls e.call))
    (hone : withId e.id n.mail = [requestMail e])
    (hinvoked : invokedWith e.id (n.nodes e.replier) = []) (hia : i ≠ e.asker)
    (hir : i ≠ e.replier)
    (hstep : Step (n.nodes i) (.mailbox (requestMail e).subject (requestMail e).content) t)
    (hscript : Run Step t script.actions u) (hother : ∀ call ∈ script, e.Other n i call.2) :
    Inv e (n.after i u (n.mail.erase (requestMail e))) := by
  refine hi.quiet hstep hscript (by simp) trivial hother (by simp) (fun he => absurd he hia) ?_
  intro _
  rw [withId_erase, hone, List.erase_cons_head, if_neg hir, hinvoked]
  exact .lost hout

/-- The request is delivered to the replier, and its listener answers or not. -/
theorem Inv.deliver_request (hi : Inv e n) (hout : Outcome e ((n.nodes e.asker).calls e.call))
    (hone : withId e.id n.mail = [requestMail e])
    (hinvoked : invokedWith e.id (n.nodes e.replier) = [])
    (hstep : Step (n.nodes e.replier) (.mailbox (requestMail e).subject (requestMail e).content) t)
    (hscript : Run Step t script.actions u)
    (hanswer : (∀ call ∈ script, e.Other n e.replier call.2) ∨ e.Answer e.sent script) :
    Inv e (n.after e.replier u (n.mail.erase (requestMail e))) := by
  have hne := asker_ne_replier e
  have hbound := hi.bound hout.made
  have hmiss : syncMatch (n.nodes e.replier).client.bus e.sent = false := by
    rw [← Bool.not_eq_true, syncMatch_iff]
    intro hm
    obtain ⟨_, hid⟩ := hm
    exact hi.foreign e.replier hne.symm (Option.some.inj (hid.symm.trans (sent_id e)))
  have ht := (dispatch_step (sent_decodes e) hmiss hbound).mp hstep
  have hmail : withId e.id (n.mail.erase (requestMail e)) = [] := by
    rw [withId_erase, hone, List.erase_cons_head]
  have hnow : invokedWith e.id t = [(e.listener, e.sent)] := by
    have hid := sent_id e
    rw [ht, invokedWith, State.invoke, List.filter_append, List.filter_singleton]
    rw [invokedWith] at hinvoked
    simp [hinvoked, hid]
  rcases hanswer with hother | ⟨mlm, replyTo, rfl, _, hto, hid⟩
  · refine hi.quiet hstep hscript (by simp) trivial hother (by simp)
      (fun he => absurd he.symm hne) ?_
    intro _
    rw [hmail, if_pos rfl, hnow]
    exact .ended hout
  · rw [sent_find e (by decide) (by decide), e.signed] at hto
    rw [sent_id] at hid
    have hu := reply_calls hid e.id_set hto hscript
    rw [show t.client.calls = (n.nodes e.replier).client.calls from ht ▸ rfl] at hu
    refine hi.after hstep hscript (by simp) (fun he => absurd he.symm hne) ?_ ?_
    · intro _
      rw [Net.after_self]
      refine script_holds hscript ?_ (step_holds hstep (by simp) hbound)
      intro call hcall he
      cases List.mem_singleton.mp hcall
      cases he
    · have hcalls := (script_keeps (F := .same fun _ => ()) hscript fun _ _ _ => rfl).2.1
      rw [Net.after_other n _ _ hne, Net.after_self, invokedWith, hcalls, ← invokedWith, hnow]
      change Stage e _ (withId e.id (_ ++ posted (n.nodes e.replier).client u.client)) _
      rw [withId_append, hmail, List.nil_append, posted_eq hu, cStr_eq_self e.plain.1]
      cases mlm.send with
      | false => exact .ended hout
      | true =>
        have hc : carries e.id (toZmsg e.response) = true :=
          (carries_iff (response_decodes e)).mpr hid
        change Stage e _ (List.filter _ [responseMail e (cStr replyTo)]) _
        rw [List.filter_singleton]
        simp only [responseMail, hc]
        exact .answered hout

theorem Inv.deliver (hi : Inv e n) {x : Mail} (hx : x ∈ n.mail)
    (haddr : x.address = (n.nodes i).client.bus.clientName)
    (h : NodeStep (n.nodes i) (.mailbox x.subject x.content) script u)
    (hallows : e.Allows n (.deliver i x script)) : Inv e (n.after i u (n.mail.erase x)) := by
  obtain ⟨t, hstep, hscript, _⟩ := h
  obtain ⟨message, hd⟩ := mailbox_decodes hstep
  rw [hi.named i] at haddr
  cases hc : carries e.id x.content with
  | false =>
    refine hi.deliver_other hc hstep hscript ?_
    rcases hallows with hother | ⟨_, hm⟩
    · exact hother
    · rw [(carries_iff hd).mpr (hm message hd).1] at hc
      cases hc
  | true =>
    obtain ⟨hout, hone, ⟨rfl, hinvoked⟩ | ⟨subject, rfl, hinvoked⟩⟩ :=
      hi.stage.mail (List.mem_filter.mpr ⟨hx, hc⟩)
    · have hia : i ≠ e.asker := fun he => e.different (he ▸ haddr.symm)
      rcases eq_or_ne i e.replier with rfl | hir
      · refine hi.deliver_request hout hone hinvoked hstep hscript ?_
        rcases hallows with hother | ⟨_, hm⟩
        · exact Or.inl hother
        · exact Or.inr (hm _ (sent_decodes e)).2
      · refine hi.deliver_lost hout hone hinvoked hia hir hstep hscript ?_
        rcases hallows with hother | ⟨he, _⟩
        · exact hother
        · exact absurd he hir
    · have hir : i ≠ e.replier := fun he => e.different (he ▸ haddr)
      refine hi.deliver_response hout hone hinvoked hir hstep hscript ?_
      rcases hallows with hother | ⟨he, _⟩
      · exact hother
      · exact absurd he hir

theorem Inv.step {n' : Net ι L} {b : NetAction ι L} (hi : Inv e n) (hallows : e.Allows n b)
    (h : NetStep n b n') : Inv e n' := by
  cases h with
  | act own step => exact hi.act own step hallows
  | deliver flight addressed step => exact hi.deliver flight addressed step hallows
  | @post x =>
    refine ⟨hi.named, hi.others, hi.foreign, hi.asking, hi.bound, ?_⟩
    have hx : withId e.id [x] = [] := by
      rw [withId, List.filter_singleton, show carries e.id x.content = false from hallows]
      rfl
    change Stage e _ (withId e.id (n.mail ++ [x])) _
    rw [withId_append, hx, List.append_nil]
    exact hi.stage

theorem reachable_inv (h : Reachable (Net.Start names) (restrict e.Allows NetStep) n) : Inv e n :=
  h.invariant (fun _ hs => start_inv e hs) (fun _ _ _ hi hs => hi.step hs.1 hs.2)

/-- The response wakes the request, which can then return it. -/
theorem Inv.response_wakes (hi : Inv e n) {n' : Net ι L} {x : Mail} {m : Message}
    (hallows : e.Allows n (.deliver e.asker x script))
    (h : NetStep n (.deliver e.asker x script) n') (hc : carries e.id x.content = true)
    (hw : (n.nodes e.asker).calls e.call = .waiting m)
    (hin : e.call ∈ (n.nodes e.asker).waitSet) :
    ∃ t, Step (n'.nodes e.asker) (.leave e.call false) t ∧
      t.calls e.call = .returned e.request e.response := by
  have hi' := hi.step hallows h
  have hk : ((n.nodes e.asker).calls e.call).underway = true := by
    rw [hw]
    rfl
  cases h with
  | @deliver _ _ _ u flight addressed step =>
    obtain ⟨t, hstep, hscript, _⟩ := step
    obtain ⟨message, hd⟩ := mailbox_decodes hstep
    have huuid : (n.nodes e.asker).client.bus.syncUuid = e.id := hi.asking.pending hk fun _ _ => hin
    have hm : syncMatch (n.nodes e.asker).client.bus message = true := by
      rw [syncMatch_iff, huuid]
      exact ⟨e.id_set, (carries_iff hd).mp hc⟩
    obtain ⟨W, hW, ht⟩ := (match_step hd hm).mp hstep
    have hone : (n.nodes e.asker).waitSet = {e.call} := hi.asking.waits_alone hk hin
    have hsync := (script_keeps (F := .same fun _ => ()) hscript fun _ _ _ => rfl).1
    have hcalls : u.calls = (n.nodes e.asker).calls := by
      rw [show u.calls = t.calls from congrArg Sync.calls hsync, ht]
    have hout : e.call ∉ u.waitSet := by
      rw [show u.waitSet = t.waitSet from congrArg Sync.waitSet hsync, ht]
      rw [show W = _ from (NotifyOne.sure_iff hin).mpr hone W hW]
      exact Finset.notMem_erase e.call _
    rw [Net.after_self]
    have hwait : u.calls e.call = .waiting m := by rw [hcalls, hw]
    have hresponse : u.client.bus.syncResponse = e.response := by
      have ha := hi'.asking
      rw [Net.after_self] at ha
      exact (ha.woken m hwait hout).2
    refine ⟨_, .thread (.ret hwait hout), ?_⟩
    rw [leave_ret, hresponse]
    have hst := hi.stage
    rw [hw] at hst
    rw [hst.waits]
    exact Function.update_self ..

/-- The message that the caller means: its own, with the two fields that `request`
fills in where they are missing. -/
def Completed (request message : Message) (clientName : Bytes) (receiveTimeOut : Int) : Prop :=
  message.userData = request.userData ∧ ∀ key, message.metaData.find key =
    (request.metaData.find key).or
      (if key = Message.TIMEOUT then some (lit (toString receiveTimeOut))
      else if key = Message.REPLY_TO then some clientName else none)

omit [DecidableEq ι] in
theorem sent_completed (e : Exchange ι L names) :
    Completed e.request e.sent (names e.asker) e.receiveTimeOut := by
  refine ⟨rfl, ?_⟩
  intro key
  have hne : Message.TIMEOUT ≠ Message.REPLY_TO := by decide
  unfold Exchange.sent requestMessage
  by_cases hr : key = Message.REPLY_TO
  · subst hr
    rw [SortedMap.find_emplace_self, SortedMap.find_emplace_other _ _ hne.symm, if_neg hne.symm,
      if_pos rfl]
    cases e.request.metaData.find Message.REPLY_TO with
    | none => rfl
    | some value => rfl
  · rw [SortedMap.find_emplace_other _ _ hr, if_neg hr]
    by_cases ht : key = Message.TIMEOUT
    · subst ht
      rw [SortedMap.find_emplace_self, if_pos rfl]
      cases e.request.metaData.find Message.TIMEOUT with
      | none => rfl
      | some value => rfl
    · rw [SortedMap.find_emplace_other _ _ ht, if_neg ht, Option.or_none]

/-- Whatever else happens, the listener is invoked at most once for the request,
with the request as completed; what the call returns is what the listener
answered, and it returns that once the answer has come in time; what it throws
is that it timed out, if the receiver has a name. -/
theorem exchange_correct
    (h : Reachable (Net.Start names) (restrict e.Allows NetStep) n) :
    (∃ message, Completed e.request message (names e.asker) e.receiveTimeOut ∧
      invokedWith e.id (n.nodes e.replier) <+: [(e.listener, message)]) ∧
    (∀ m r, (n.nodes e.asker).calls e.call = .returned m r → m = e.request ∧ r = e.response) ∧
    (∀ m fault, (n.nodes e.asker).calls e.call = .threw m fault → Failed e fault) ∧
    ∀ x script n' m, e.Allows n (.deliver e.asker x script) →
      NetStep n (.deliver e.asker x script) n' → carries e.id x.content = true →
      (n.nodes e.asker).calls e.call = .waiting m → e.call ∈ (n.nodes e.asker).waitSet →
      ∃ t, Step (n'.nodes e.asker) (.leave e.call false) t ∧
        t.calls e.call = .returned e.request e.response := by
  have hi := reachable_inv h
  have hst := hi.stage
  refine ⟨⟨e.sent, sent_completed e, hst.invoked_once⟩, ?_, ?_, ?_⟩
  · intro m r hr
    rw [hr] at hst
    exact hst.returned
  · intro m fault hf
    rw [hf] at hst
    exact hst.threw
  · intro x script n' m hallows hstep hc hw hin
    exact hi.response_wakes hallows hstep hc hw hin

/-- Two buses, a request without `_replyTo` and its response. -/
def clientNames : Bool → Bytes
  | false => lit "client"
  | true => lit "server"

def question : Message :=
  ⟨((SortedMap.empty.emplace Message.CORRELATION_ID (lit "id")).emplace Message.TO
    (lit "server")).emplace Message.FROM (lit "client"), [lit "?"]⟩

def reply : Message :=
  ⟨(SortedMap.empty.emplace Message.CORRELATION_ID (lit "id")).emplace Message.TO (lit "client"),
    [lit "!"]⟩

theorem names_plain : 0 ∉ clientNames false ∧ 0 ∉ clientNames true ∧ 0 ∉ lit "queue" := by
  decide

def questioning : Exchange Bool Unit clientNames where
  asker := false
  replier := true
  queue := lit "queue"
  listener := ()
  call := 0
  request := question
  receiveTimeOut := 5
  response := reply
  id := lit "id"
  different := by decide
  plain := names_plain
  id_set := by decide
  correlated := by decide
  addressed := by decide
  signed := by decide
  request_plain := by decide
  response_plain := by decide

theorem question_answered :
    ∃ n : Net Bool Unit, (n.nodes false).calls 0 = .returned question reply ∧
      ∃ message, Completed question message (lit "client") 5 ∧
        invokedWith (lit "id") (n.nodes true) <+: [((), message)] := by
  let mlm : Mlm := ⟨true, true, true⟩
  let queue := lit "queue"
  let n₀ : Net Bool Unit := ⟨fun i => State.new (clientNames i), []⟩
  let registered : State Unit := { n₀.nodes true with
    client := final ((ApiCall.receive queue ()).run mlm (n₀.nodes true).client) }
  let n₁ := n₀.after true registered []
  let n₂ := n₁.after false ((n₁.nodes false).call 0 queue question 5) []
  let n₃ := n₂.after false ((n₂.nodes false).send mlm 0 queue question 5 (lit "server")) []
  let invoked := (n₃.nodes true).invoke (n₃.nodes true).client () questioning.sent
  let answered : State Unit := { invoked with
    client := final ((ApiCall.sendReply (lit "client") reply).run mlm invoked.client) }
  let n₄ := n₃.after true answered []
  let stored : State Unit := { n₄.nodes false with
    client := final (storeResponse reply (n₄.nodes false).client)
    waitSet := (n₄.nodes false).waitSet.erase 0 }
  let n₅ := n₄.after false stored []
  let n₆ := n₅.after false ((n₅.nodes false).leave 0 question false) []
  have hrun : Run (restrict questioning.Allows NetStep) n₀
      [.act true (.api mlm (.receive queue ())) [], .act false (.call 0 queue question 5) [],
        .act false (.send 0 mlm) [],
        .deliver true (requestMail questioning) [(mlm, .sendReply (lit "client") reply)],
        .deliver false (responseMail questioning (lit "client")) [],
        .act false (.leave 0 false) []] n₆ := by
    refine .cons (t := n₁) ⟨⟨nofun, nofun⟩,
      .act nofun ⟨registered, .thread (.api nofun), .nil _, fun _ => rfl⟩⟩ ?_
    refine .cons (t := n₂) ⟨Or.inl ⟨rfl, rfl, rfl, rfl, rfl, fun _ => rfl, rfl⟩,
      .act nofun ⟨_, .thread (.call rfl), .nil _, fun _ => rfl⟩⟩ ?_
    refine .cons (t := n₃) ⟨trivial,
      .act nofun ⟨_, .thread (.send rfl), .nil _, fun _ => rfl⟩⟩ ?_
    refine .cons (t := n₄) ⟨Or.inr ⟨rfl, ?_⟩, .deliver (x := requestMail questioning)
      List.mem_cons_self rfl ⟨invoked, .invoke rfl, .cons (.thread (.api nofun)) (.nil _), ?_⟩⟩ ?_
    · intro message hm
      cases (sent_decodes questioning).symm.trans hm
      exact ⟨rfl, mlm, lit "client", rfl, rfl, rfl, rfl⟩
    · nofun
    refine .cons (t := n₅) ⟨Or.inl nofun, .deliver (x := responseMail questioning (lit "client"))
      List.mem_cons_self rfl ⟨stored, .response rfl (Or.inr ⟨0, by decide, rfl⟩), .nil _,
        fun _ => rfl⟩⟩ ?_
    exact .cons (t := n₆) ⟨trivial,
      .act nofun ⟨_, .thread (.ret rfl (by decide)), .nil _, fun _ => rfl⟩⟩ (.nil _)
  exact ⟨n₆, rfl, (exchange_correct ⟨_, _, rfl, hrun⟩).1⟩

end Net

end Messagebus.Proofs.RoundTrip
