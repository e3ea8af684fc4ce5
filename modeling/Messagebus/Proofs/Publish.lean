import Messagebus.Proofs.Calls

namespace Messagebus.Proofs.Publish
open Frame

variable {L : Type}

structure Publication where
  topic : Bytes
  message : Message
  mlm : Mlm

/-- One thread publishing over and over, whatever is thrown at it. -/
def publishAll (c : Client L) (ps : List Publication) : Client L :=
  ps.foldl (fun c p => final (publish p.mlm p.topic p.message c)) c

def Sent (calls : List MlmCall) (topic : Bytes) : Prop :=
  ∃ content ok, .send topic content ok ∈ calls

/-- `mlm_client_set_producer` has succeeded for the topic. -/
def Ready (calls : List MlmCall) (topic : Bytes) : Prop := .setProducer topic true ∈ calls

theorem sent_send (calls : List MlmCall) (t topic : Bytes) (content : Zmsg) (ok : Bool) :
    Sent (calls ++ [.send topic content ok]) t ↔ Sent calls t ∨ t = topic := by
  constructor
  · intro h
    obtain ⟨z, b, hm⟩ := h
    rcases List.mem_append.mp hm with hm | hm
    · exact Or.inl ⟨z, b, hm⟩
    · cases List.mem_singleton.mp hm
      exact Or.inr rfl
  · rintro (⟨z, b, hm⟩ | rfl)
    · exact ⟨z, b, List.mem_append_left _ hm⟩
    · exact ⟨content, ok, List.mem_append_right _ List.mem_cons_self⟩

theorem sent_setProducer (calls : List MlmCall) (t topic : Bytes) (ok : Bool) :
    Sent (calls ++ [.setProducer topic ok]) t ↔ Sent calls t := by
  simp [Sent]

theorem ready_send (calls : List MlmCall) (t topic : Bytes) (content : Zmsg) (ok : Bool) :
    Ready (calls ++ [.send topic content ok]) t ↔ Ready calls t := by
  simp [Ready]

theorem ready_setProducer (calls : List MlmCall) (t topic : Bytes) (ok : Bool) :
    Ready (calls ++ [.setProducer topic ok]) t ↔ Ready calls t ∨ (t = topic ∧ ok = true) := by
  simp [Ready, eq_comm]

/-- Every message was handed over after its topic was declared with success. -/
def Declared (calls : List MlmCall) : Prop :=
  ∀ before topic content ok after, calls = before ++ .send topic content ok :: after →
    Ready before topic

theorem split_snoc {calls before after : List MlmCall} {call last : MlmCall}
    (h : calls ++ [last] = before ++ call :: after) :
    (calls = before ∧ last = call) ∨ ∃ rest, calls = before ++ call :: rest := by
  rcases List.eq_nil_or_concat after with rfl | ⟨rest, x, rfl⟩
  · have hinj := List.append_inj' h rfl
    exact Or.inl ⟨hinj.1, List.singleton_inj.mp hinj.2⟩
  · have h' : calls ++ [last] = (before ++ call :: rest) ++ [x] := by simpa using h
    exact Or.inr ⟨rest, (List.append_inj' h' rfl).1⟩

theorem Declared.init {calls : List MlmCall} {last : MlmCall} (h : Declared (calls ++ [last])) :
    Declared calls := by
  intro before topic content ok after he
  exact h before topic content ok (after ++ [last]) (by simp [he])

theorem declared_send (calls : List MlmCall) (topic : Bytes) (content : Zmsg) (ok : Bool) :
    Declared (calls ++ [.send topic content ok]) ↔ Declared calls ∧ Ready calls topic := by
  refine ⟨fun h => ⟨h.init, h calls topic content ok [] rfl⟩, ?_⟩
  intro h before t z b after he
  obtain ⟨hd, hm⟩ := h
  rcases split_snoc he with ⟨hb, hlast⟩ | ⟨rest, hc⟩
  · cases hlast
    exact hb ▸ hm
  · exact hd before t z b rest hc

theorem declared_setProducer (calls : List MlmCall) (topic : Bytes) (ok : Bool) :
    Declared (calls ++ [.setProducer topic ok]) ↔ Declared calls := by
  refine ⟨Declared.init, ?_⟩
  intro hd before t z b after he
  rcases split_snoc he with ⟨_, hlast⟩ | ⟨rest, hc⟩
  · cases hlast
  · exact hd before t z b rest hc

/-- What is claimed of the messages that one bus hands over. A publication to
another topic than theirs throws and adds none. -/
structure SingleTopic (clientName : Bytes) (ps : List Publication) : Prop where
  declared : Declared (publishAll (.new clientName : Client L) ps).calls
  one : ∀ t t', Sent (publishAll (.new clientName : Client L) ps).calls t →
    Sent (publishAll (.new clientName : Client L) ps).calls t' → t = t'
  others : ∀ qs p rs t, ps = qs ++ p :: rs →
    Sent (publishAll (.new clientName : Client L) ps).calls t → cStr p.topic ≠ t →
    ∃ what c', publish p.mlm p.topic p.message (publishAll (.new clientName : Client L) qs) =
        .error (.thrown what) c' ∧
      ∀ u z b, .send u z b ∈ c'.calls →
        .send u z b ∈ (publishAll (.new clientName : Client L) qs).calls

/-- The histories that go well. They turn on the first publication with a topic
that is not empty. Once something is sent under that topic, its declaration
must have succeeded; or, where the empty topic was declared before it, it must
be empty to malamute too. -/
def Clean (ps : List Publication) : Prop :=
  ∀ p rest, ps.dropWhile (fun q => q.topic = []) = p :: rest →
    (p.mlm.setProducer = true ∨ ∃ q ∈ rest, q.topic = p.topic) →
    ((∃ q ∈ ps.takeWhile (fun q => q.topic = []), q.mlm.setProducer = true) →
      cStr p.topic = []) ∧
    ((∀ q ∈ ps.takeWhile (fun q => q.topic = []), q.mlm.setProducer = false) →
      p.mlm.setProducer = true)

/-- While only the empty topic has been published, no topic is on record.
`e` says whether the empty topic has been declared. -/
structure Unset (c : Client L) (e : Prop) : Prop where
  topic : c.bus.publishTopic = []
  declared : Declared c.calls
  ready : ∀ t, Ready c.calls t ↔ t = [] ∧ e
  sent : ∀ t, Sent c.calls t ↔ t = [] ∧ e

theorem unset_new (clientName : Bytes) : Unset (.new clientName : Client L) False := by
  refine ⟨rfl, ?_, ?_, ?_⟩
  · intro before t z b after h
    exact absurd h (by simp [Client.new])
  · simp [Ready, Client.new]
  · simp [Sent, Client.new]

theorem Unset.step {c : Client L} {e : Prop} (h : Unset c e) (p : Publication)
    (hp : p.topic = []) :
    Unset (final (publish p.mlm p.topic p.message c)) (e ∨ p.mlm.setProducer = true) := by
  have hnil : cStr p.topic = [] := by rw [hp]; rfl
  rw [Calls.publish_first p.mlm p.topic p.message h.topic, hnil]
  cases hok : p.mlm.setProducer with
  | false =>
    simp only [Bool.false_eq_true, if_false, or_false, final]
    refine ⟨hp, (declared_setProducer _ _ _).mpr h.declared, ?_, ?_⟩
    · simp [ready_setProducer, h.ready]
    · simp [sent_setProducer, h.sent]
  | true =>
    simp only [if_true, or_true, final]
    have hready : ∀ t, Ready (c.calls ++ [.setProducer [] true]) t ↔ t = [] := by
      intro t
      rw [ready_setProducer, h.ready]
      tauto
    refine ⟨hp, ?_, ?_, ?_⟩
    · exact (declared_send _ _ _ _).mpr
        ⟨(declared_setProducer _ _ _).mpr h.declared, (hready []).mpr rfl⟩
    · simp only [ready_send, hready, and_true, implies_true]
    · intro t
      rw [sent_send, sent_setProducer, h.sent]
      tauto

/-- Once the topic `t` is on record. `e` and `d` say whether the empty topic and
`t` have been declared, `s` whether anything was sent under `t`. -/
structure Recorded (c : Client L) (t : Bytes) (e d s : Prop) : Prop where
  topic : c.bus.publishTopic = t
  nonempty : t ≠ []
  declared : Declared c.calls ↔ (s → Ready c.calls (cStr t))
  ready : ∀ u, Ready c.calls u ↔ (u = [] ∧ e) ∨ (u = cStr t ∧ d)
  sent : ∀ u, Sent c.calls u ↔ (u = [] ∧ e) ∨ (u = cStr t ∧ s)

theorem Unset.record {c : Client L} {e : Prop} (h : Unset c e) (p : Publication)
    (hp : p.topic ≠ []) :
    Recorded (final (publish p.mlm p.topic p.message c)) p.topic e
      (p.mlm.setProducer = true) (p.mlm.setProducer = true) := by
  rw [Calls.publish_first p.mlm p.topic p.message h.topic]
  cases hok : p.mlm.setProducer with
  | false =>
    simp only [Bool.false_eq_true, if_false, final]
    refine ⟨rfl, hp, ?_, ?_, ?_⟩
    · simp [declared_setProducer, h.declared]
    · simp [ready_setProducer, h.ready]
    · simp [sent_setProducer, h.sent]
  | true =>
    simp only [if_true, final]
    refine ⟨rfl, hp, ?_, ?_, ?_⟩
    · simp only [declared_send, declared_setProducer, h.declared, ready_send, true_and,
        forall_const]
    · simp only [ready_send, ready_setProducer, h.ready, implies_true]
    · simp only [sent_send, sent_setProducer, h.sent, and_true, implies_true]

theorem Recorded.step {c : Client L} {t : Bytes} {e d s : Prop} (h : Recorded c t e d s)
    (p : Publication) :
    Recorded (final (publish p.mlm p.topic p.message c)) t e d (s ∨ p.topic = t) := by
  rw [Calls.publish_later p.mlm p.topic p.message (h.topic ▸ h.nonempty), h.topic]
  by_cases ht : p.topic = t
  · rw [if_pos ht]
    refine ⟨h.topic, h.nonempty, ?_, ?_, ?_⟩
    · simp only [final, declared_send, ready_send, h.declared, ht]
      tauto
    · simp [final, ready_send, h.ready]
    · intro u
      simp only [final, sent_send, h.sent, ht]
      tauto
  · rw [if_neg ht]
    simpa [ht, final] using h

theorem Unset.run {c : Client L} {e : Prop} (h : Unset c e) (ps : List Publication)
    (hp : ∀ p ∈ ps, p.topic = []) :
    Unset (publishAll c ps) (e ∨ ∃ p ∈ ps, p.mlm.setProducer = true) := by
  induction ps generalizing c e with
  | nil => simpa [publishAll] using h
  | cons p ps ih =>
    have htail := ih (h.step p (hp p List.mem_cons_self))
      (fun q hq => hp q (List.mem_cons_of_mem p hq))
    simpa [publishAll, or_assoc] using htail

theorem Recorded.run {c : Client L} {t : Bytes} {e d s : Prop} (h : Recorded c t e d s)
    (ps : List Publication) :
    Recorded (publishAll c ps) t e d (s ∨ ∃ p ∈ ps, p.topic = t) := by
  induction ps generalizing c s with
  | nil => simpa [publishAll] using h
  | cons p ps ih =>
    have htail := ih (h.step p)
    simpa [publishAll, or_assoc] using htail

theorem publishAll_unset (clientName : Bytes) {es : List Publication}
    (he : ∀ q ∈ es, q.topic = []) :
    Unset (publishAll (.new clientName : Client L) es)
      (∃ q ∈ es, q.mlm.setProducer = true) := by
  simpa using (unset_new (L := L) clientName).run es he

theorem publishAll_recorded (clientName : Bytes) {es : List Publication} {p : Publication}
    (rest : List Publication) (he : ∀ q ∈ es, q.topic = []) (hp : p.topic ≠ []) :
    Recorded (publishAll (.new clientName : Client L) (es ++ p :: rest)) p.topic
      (∃ q ∈ es, q.mlm.setProducer = true) (p.mlm.setProducer = true)
      (p.mlm.setProducer = true ∨ ∃ q ∈ rest, q.topic = p.topic) := by
  have hrecord := ((publishAll_unset (L := L) clientName he).record p hp).run rest
  simpa [publishAll] using hrecord

/-- A publication hands its message over or throws without handing anything over. -/
theorem publish_sends_or_throws (p : Publication) (c : Client L) :
    (∃ c', publish p.mlm p.topic p.message c = .ok () c' ∧ Sent c'.calls (cStr p.topic)) ∨
    ∃ what c', publish p.mlm p.topic p.message c = .error (.thrown what) c' ∧
      ∀ u z b, .send u z b ∈ c'.calls → .send u z b ∈ c.calls := by
  by_cases hc : c.bus.publishTopic = []
  · rw [Calls.publish_first p.mlm p.topic p.message hc]
    cases hok : p.mlm.setProducer with
    | false => exact Or.inr ⟨_, _, rfl, by simp⟩
    | true => exact Or.inl ⟨_, rfl, (sent_send _ _ _ _ _).mpr (Or.inr rfl)⟩
  · rw [Calls.publish_later p.mlm p.topic p.message hc]
    by_cases ht : p.topic = c.bus.publishTopic
    · rw [if_pos ht]
      exact Or.inl ⟨_, rfl, (sent_send _ _ _ _ _).mpr (Or.inr rfl)⟩
    · rw [if_neg ht]
      exact Or.inr ⟨_, _, rfl, fun _ _ _ h => h⟩

/-- What was sent stays sent. -/
theorem sent_publishAll {c : Client L} {t : Bytes} (h : Sent c.calls t) (ps : List Publication) :
    Sent (publishAll c ps).calls t := by
  induction ps generalizing c with
  | nil => exact h
  | cons p ps ih =>
    apply ih
    obtain ⟨_, _, _, new, hnew, _⟩ := Calls.api_sends p.mlm (.publish p.topic p.message) c
    obtain ⟨z, b, hm⟩ := h
    exact ⟨z, b, hnew ▸ List.mem_append_left new hm⟩

/-- With one topic on all messages, publications to others are refused. -/
theorem others_refused {clientName : Bytes} {ps : List Publication}
    (one : ∀ t t', Sent (publishAll (.new clientName : Client L) ps).calls t →
      Sent (publishAll (.new clientName : Client L) ps).calls t' → t = t')
    {qs rs : List Publication} {p : Publication} {t : Bytes} (hps : ps = qs ++ p :: rs)
    (hsent : Sent (publishAll (.new clientName : Client L) ps).calls t) (hne : cStr p.topic ≠ t) :
    ∃ what c', publish p.mlm p.topic p.message (publishAll (.new clientName : Client L) qs) =
        .error (.thrown what) c' ∧
      ∀ u z b, .send u z b ∈ c'.calls →
        .send u z b ∈ (publishAll (.new clientName : Client L) qs).calls := by
  rcases publish_sends_or_throws p (publishAll (.new clientName : Client L) qs) with
    ⟨c', hok, hs⟩ | hthrow
  · have hrun : publishAll (.new clientName : Client L) ps = publishAll c' rs := by
      rw [hps]
      unfold publishAll at hok ⊢
      rw [List.foldl_append, List.foldl_cons, hok]
      rfl
    exact absurd (one _ _ (hrun ▸ sent_publishAll hs rs) hsent) hne
  · exact hthrow

/-- With `t` on record, all goes well unless something was sent under `t`. -/
theorem Recorded.single_iff {c : Client L} {t : Bytes} {e d s : Prop} (h : Recorded c t e d s) :
    (Declared c.calls ∧ ∀ u u', Sent c.calls u → Sent c.calls u' → u = u') ↔
      (s → (e → cStr t = []) ∧ (¬ e → d)) := by
  constructor
  · intro h' hs
    obtain ⟨hd, hone⟩ := h'
    have hsent : Sent c.calls (cStr t) := (h.sent _).mpr (Or.inr ⟨rfl, hs⟩)
    refine ⟨?_, ?_⟩
    · intro he
      exact hone _ _ hsent ((h.sent []).mpr (Or.inl ⟨rfl, he⟩))
    · intro he
      rcases (h.ready _).mp (h.declared.mp hd hs) with hr | hr
      · exact absurd hr.2 he
      · exact hr.2
  · intro hclean
    refine ⟨h.declared.mpr ?_, ?_⟩
    · intro hs
      obtain ⟨hnil, hd⟩ := hclean hs
      apply (h.ready _).mpr
      by_cases he : e
      · exact Or.inl ⟨hnil he, he⟩
      · exact Or.inr ⟨rfl, hd he⟩
    · intro u u' hu hu'
      rcases (h.sent u).mp hu with ⟨rfl, he⟩ | ⟨rfl, hs⟩ <;>
        rcases (h.sent u').mp hu' with ⟨rfl, he'⟩ | ⟨rfl, hs'⟩
      · rfl
      · exact ((hclean hs').1 he).symm
      · exact (hclean hs).1 he'
      · rfl

theorem clean_iff {ps : List Publication} {p : Publication} {rest : List Publication}
    (hd : ps.dropWhile (fun q => q.topic = []) = p :: rest) :
    Clean ps ↔ ((p.mlm.setProducer = true ∨ ∃ q ∈ rest, q.topic = p.topic) →
      ((∃ q ∈ ps.takeWhile (fun q => q.topic = []), q.mlm.setProducer = true) →
        cStr p.topic = []) ∧
      (¬ (∃ q ∈ ps.takeWhile (fun q => q.topic = []), q.mlm.setProducer = true) →
        p.mlm.setProducer = true)) := by
  unfold Clean
  rw [hd]
  simp only [List.cons.injEq, not_exists, not_and, Bool.not_eq_true]
  constructor
  · intro h
    exact h p rest ⟨rfl, rfl⟩
  · rintro h p' rest' ⟨rfl, rfl⟩
    exact h

/-- A history keeps to one declared topic exactly if it is a clean one. -/
theorem singleTopic_iff (clientName : Bytes) (ps : List Publication) :
    SingleTopic (L := L) clientName ps ↔ Clean ps := by
  have hsplit :=
    List.takeWhile_append_dropWhile (p := fun q : Publication => q.topic = []) (l := ps)
  have hes : ∀ q ∈ ps.takeWhile (fun q => q.topic = []), q.topic = [] :=
    fun q hq => by simpa using List.mem_takeWhile_imp hq
  have hparts : SingleTopic (L := L) clientName ps ↔
      (Declared (publishAll (.new clientName : Client L) ps).calls ∧
        ∀ u u', Sent (publishAll (.new clientName : Client L) ps).calls u →
          Sent (publishAll (.new clientName : Client L) ps).calls u' → u = u') :=
    ⟨fun h => ⟨h.declared, h.one⟩,
      fun h => ⟨h.1, h.2, fun _ _ _ _ => others_refused h.2⟩⟩
  rw [hparts]
  cases hd : ps.dropWhile (fun q => q.topic = []) with
  | nil =>
    have hunset := publishAll_unset (L := L) clientName hes
    rw [hd, List.append_nil] at hsplit
    rw [hsplit] at hunset
    refine iff_of_true ⟨hunset.declared, ?_⟩ ?_
    · intro u u' hu hu'
      rw [((hunset.sent u).mp hu).1, ((hunset.sent u').mp hu').1]
    · intro p rest he
      rw [hd] at he
      cases he
  | cons p rest =>
    have hp : p.topic ≠ [] := by
      have := List.head?_dropWhile_not (fun q : Publication => q.topic = []) ps
      simpa [hd] using this
    have hrec := publishAll_recorded (L := L) clientName rest hes hp
    rw [← hd, hsplit] at hrec
    rw [hrec.single_iff, clean_iff hd]

/-- A topic whose declaration failed is on record all the same: the second
publication goes out under it. -/
theorem undeclared_topic_sent :
    ¬ ∀ (clientName : Bytes) (ps : List Publication), SingleTopic (L := Unit) clientName ps := by
  intro h
  have hd := (h (lit "bus") [⟨lit "topic", .empty, ⟨false, true, true⟩⟩,
    ⟨lit "topic", .empty, ⟨true, true, true⟩⟩]).declared
  have hready := hd [.setProducer (lit "topic") false] (lit "topic") (toZmsg .empty) true [] rfl
  simp [Ready] at hready

end Messagebus.Proofs.Publish
