import Mathlib.Data.List.Basic
import Messagebus.Interrupt

namespace Messagebus.Proofs.Interrupt
open Runs Messagebus.Cli

variable {s t : Waiter} {a : WaitAction} {as : List WaitAction} {n : ℕ}

/-- The steps of the main thread on its own. -/
def OwnStep : Waiter → WaitAction → Waiter → Prop :=
  restrict (fun _ a => a.own = true) Waiter.Step

def signals (n : ℕ) : List WaitAction := List.replicate (n + 1) .signal

/-- The signals came between a look at `g_exit` and the wait set, and nothing has
happened since but that the main thread went to sleep. -/
def Missed (as : List WaitAction) (s : Waiter) : Prop :=
  ∃ before n after t, as = before ++ (signals n ++ after) ∧ Run Waiter.Step .start before t ∧
    t.place = .checked ∧ Run Waiter.Step t (signals n ++ after) s ∧ (after = [] ∨ after = [.sleep])

theorem signal_checked (hs : s.place = .checked) (h : Waiter.Step s .signal t) :
    t.place = .checked ∧ t.g_exit = true := by
  cases h with
  | kill starting => cases hs.symm.trans starting
  | wake asleep => cases hs.symm.trans asleep
  | signal installed awake alive => exact ⟨hs, rfl⟩

theorem signals_checked (hs : s.place = .checked) (h : Run Waiter.Step s (signals n) t) :
    t.place = .checked ∧ t.g_exit = true := by
  induction n generalizing s with
  | zero =>
    cases h with
    | cons head tail =>
      cases tail
      exact signal_checked hs head
  | succ n ih =>
    cases h with
    | cons head tail => exact ih (signal_checked hs head).1 tail

theorem Missed.place (hm : Missed as s) : s.place = .checked ∨ s.place = .asleep := by
  obtain ⟨before, n, after, t, _, _, ht, hrun, hafter⟩ := hm
  obtain ⟨u, hu, hlast⟩ := hrun.split
  have hplace := (signals_checked ht hu).1
  rcases hafter with rfl | rfl
  · cases hlast
    exact Or.inl hplace
  · cases hlast with
    | cons head tail =>
      cases head
      cases tail
      exact Or.inr rfl

/-- One more signal in the same gap. -/
theorem Missed.more (hm : Missed as s) (hs : s.place = .checked) (h : Waiter.Step s .signal t) :
    Missed (as ++ [.signal]) t := by
  obtain ⟨before, n, after, u, rfl, hbefore, hu, hrun, hafter⟩ := hm
  rcases hafter with rfl | rfl
  · have he : signals (n + 1) = signals n ++ [.signal] := List.replicate_succ'
    refine ⟨before, n + 1, [], u, ?_, hbefore, hu, ?_, Or.inl rfl⟩
    · rw [he, List.append_nil, List.append_nil, List.append_assoc]
    · rw [List.append_nil] at hrun ⊢
      rw [he]
      exact hrun.append (.cons h (.nil t))
  · obtain ⟨w, _, hlast⟩ := hrun.split
    cases hlast with
    | cons head tail =>
      cases head
      cases tail
      cases hs

/-- What is known of the signals that have been handled. -/
structure Inv (as : List WaitAction) (s : Waiter) : Prop where
  run : Run Waiter.Step .start as s
  unhandled : s.place = .starting ∨ s.place = .killed → s.g_exit = false
  signalled : s.g_exit = true → .signal ∈ as
  returned : s.place = .returned → s.g_exit = true
  missed : s.place = .checked ∨ s.place = .asleep → s.g_exit = true → Missed as s

theorem Inv.step (hi : Inv as s) (h : Waiter.Step s a t) : Inv (as ++ [a]) t := by
  have hrun : Run Waiter.Step .start (as ++ [a]) t := hi.run.append (.cons h (.nil t))
  cases h with
  | setSignalHandler starting =>
    refine ⟨hrun, by simp, ?_, nofun, ?_⟩
    · intro hexit
      exact List.mem_append_left _ (hi.signalled hexit)
    · rintro (hp | hp) <;> cases hp
  | check awake =>
    refine ⟨hrun, ?_, ?_, ?_, ?_⟩
    · intro hp
      cases hexit : s.g_exit <;> simp [hexit] at hp
    · intro hexit
      exact List.mem_append_left _ (hi.signalled hexit)
    · intro hp
      cases hexit : s.g_exit with
      | true => rfl
      | false => simp [hexit] at hp
    · intro hp hexit
      have hexit : s.g_exit = true := hexit
      simp [hexit] at hp
  | sleep checked =>
    refine ⟨hrun, by simp, ?_, nofun, ?_⟩
    · intro hexit
      exact List.mem_append_left _ (hi.signalled hexit)
    · intro _ hexit
      obtain ⟨before, n, after, u, rfl, hbefore, hu, hr, hafter⟩ := hi.missed (Or.inl checked) hexit
      rcases hafter with rfl | rfl
      · refine ⟨before, n, [.sleep], u, ?_, hbefore, hu, ?_, Or.inr rfl⟩
        · rw [List.append_nil, List.append_assoc]
        · rw [List.append_nil] at hr
          exact hr.append (.cons (.sleep checked) (.nil _))
      · obtain ⟨w, _, hlast⟩ := hr.split
        cases hlast with
        | cons head tail =>
          cases head
          cases tail
          cases checked
  | spurious asleep =>
    refine ⟨hrun, by simp, ?_, nofun, ?_⟩
    · intro hexit
      exact List.mem_append_left _ (hi.signalled hexit)
    · rintro (hp | hp) <;> cases hp
  | kill starting =>
    refine ⟨hrun, fun _ => hi.unhandled (Or.inl starting), fun _ => by simp, nofun, ?_⟩
    rintro (hp | hp) <;> cases hp
  | wake asleep =>
    refine ⟨hrun, by simp, fun _ => by simp, nofun, ?_⟩
    rintro (hp | hp) <;> cases hp
  | signal installed awake alive =>
    refine ⟨hrun, fun hp => absurd hp (not_or_intro installed alive), fun _ => by simp,
      fun _ => rfl, ?_⟩
    intro hp _
    have hchecked : s.place = .checked := hp.resolve_right awake
    cases hexit : s.g_exit with
    | true =>
      exact (hi.missed (Or.inl hchecked) hexit).more hchecked (.signal installed awake alive)
    | false =>
      exact ⟨as, 0, [], s, by simp [signals], hi.run, hchecked,
        .cons (.signal installed awake alive) (.nil _), Or.inl rfl⟩

theorem start_inv : Inv [] .start := by
  refine ⟨.nil _, fun _ => rfl, nofun, nofun, ?_⟩
  rintro (hp | hp) <;> cases hp

/-- Past its look at `g_exit` the main thread goes to sleep and does not wake by itself. -/
theorem own_asleep (h : OwnStep s a t) (hs : s.place = .checked ∨ s.place = .asleep) :
    t.place = .checked ∨ t.place = .asleep := by
  obtain ⟨ha, hstep⟩ := h
  cases hstep with
  | check awake =>
    rcases hs with hs | hs
    · rcases awake with ha | ha <;> cases hs.symm.trans ha
    · rcases awake with ha | ha <;> cases hs.symm.trans ha
  | sleep checked => exact Or.inr rfl
  | _ => cases ha

/-- The tool does not return before it is interrupted. Once it has been, it returns by
itself, unless the signals came after it had looked at `g_exit` and before it was in the
wait set: then it sleeps until there is another one. -/
theorem interrupt_missed_iff (h : Run Waiter.Step .start as s) :
    (s.place = .returned → .signal ∈ as) ∧
      (s.g_exit = true →
        ((∀ bs t, Run OwnStep s bs t → t.place ≠ .returned) ↔ Missed as s)) := by
  have hi : Inv as s := h.history start_inv fun _ _ _ _ hi hstep => hi.step hstep
  refine ⟨fun hp => hi.signalled (hi.returned hp), ?_⟩
  intro hexit
  constructor
  · intro hnever
    have hcheck : s.place = .installed ∨ s.place = .woken → False := by
      intro hp
      refine hnever [.check] _ (.cons ⟨rfl, .check hp⟩ (.nil _)) ?_
      rw [hexit]
      rfl
    cases hp : s.place with
    | starting => cases (hi.unhandled (Or.inl hp)).symm.trans hexit
    | installed => exact (hcheck (Or.inl hp)).elim
    | woken => exact (hcheck (Or.inr hp)).elim
    | returned => exact absurd hp (hnever [] s (.nil s))
    | killed => cases (hi.unhandled (Or.inr hp)).symm.trans hexit
    | checked => exact hi.missed (Or.inl hp) hexit
    | asleep => exact hi.missed (Or.inr hp) hexit
  · intro hm bs t hrun hp
    have ht := hrun.invariant (I := fun t => t.place = .checked ∨ t.place = .asleep) hm.place
      fun _ _ _ hi hstep => own_asleep hstep hi
    rcases ht with ht | ht <;> cases ht.symm.trans hp

/-- An interrupt between the look at `g_exit` and the sleep. -/
theorem interrupt_missed : ∃ s : Waiter, s.place = .asleep ∧ s.g_exit = true ∧
    ∀ bs t, Run OwnStep s bs t → t.place ≠ .returned := by
  let s₁ : Waiter := ⟨.installed, false⟩
  let s₂ : Waiter := ⟨.checked, false⟩
  let s₃ : Waiter := ⟨.checked, true⟩
  let s₄ : Waiter := ⟨.asleep, true⟩
  have hbefore : Run Waiter.Step .start [.setSignalHandler, .check] s₂ :=
    .cons (t := s₁) (.setSignalHandler rfl) (.cons (t := s₂) (.check (Or.inl rfl)) (.nil _))
  have hafter : Run Waiter.Step s₂ (signals 0 ++ [.sleep]) s₄ :=
    .cons (t := s₃) (.signal nofun nofun nofun) (.cons (.sleep rfl) (.nil _))
  exact ⟨s₄, rfl, rfl, ((interrupt_missed_iff (hbefore.append hafter)).2 rfl).mpr
    ⟨_, 0, [.sleep], s₂, rfl, hbefore, rfl, hafter, Or.inr rfl⟩⟩

end Messagebus.Proofs.Interrupt
