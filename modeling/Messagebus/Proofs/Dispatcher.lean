import Messagebus.Message
import Messagebus.Dispatcher

namespace Messagebus.Proofs.Dispatcher
open Messagebus

variable {κ σ μ α ρ ε : Type} [LinearOrder κ]

/-- Whose call it is: that of an entry of the map, or of the default handler. -/
def owner (d : Dispatcher κ σ μ α ρ ε) (c : κ × α) : Option κ :=
  if (d.map.find c.1).isSome then some c.1 else none

abbrev Held (κ σ μ α ρ ε : Type) : Option κ → Type
  | some _ => Option (StdFunction σ α ρ ε)
  | none => StdFunction μ (κ × α) ρ ε

def held : (k : Option κ) → Dispatcher κ σ μ α ρ ε → Held κ σ μ α ρ ε k
  | some k, t => t.map.find k
  | none, t => t.defaultHandler

/-- A call of the callable alone. There is none to call where there is no entry. -/
def callHeld : (k : Option κ) → Held κ σ μ α ρ ε k → κ × α →
    Except (Thrown ε) ρ × Held κ σ μ α ρ ε k
  | some _, some f, c => ((f.call c.2).1, some (f.call c.2).2)
  | some _, none, _ => (.error .badFunctionCall, none)
  | none, f, c => f.call c

/-- The entries of the map stay for the same keys. -/
def SameKeys (d t : Dispatcher κ σ μ α ρ ε) : Prop :=
  ∀ k, (t.map.find k).isSome = (d.map.find k).isSome

theorem call_some {t : Dispatcher κ σ μ α ρ ε} {c : κ × α} {f : StdFunction σ α ρ ε}
    (h : t.map.find c.1 = some f) :
    t.call c = ((f.call c.2).1, { t with map := t.map.assign c.1 (f.call c.2).2 }) := by
  simp only [Dispatcher.call, h]

theorem call_none {t : Dispatcher κ σ μ α ρ ε} {c : κ × α} (h : t.map.find c.1 = none) :
    t.call c = ((t.defaultHandler.call c).1,
      { t with defaultHandler := (t.defaultHandler.call c).2 }) := by
  simp only [Dispatcher.call, h]

theorem owner_some {d t : Dispatcher κ σ μ α ρ ε} (h : SameKeys d t) {c : κ × α}
    {f : StdFunction σ α ρ ε} (hf : t.map.find c.1 = some f) : owner d c = some c.1 := by
  have hd := h c.1
  rw [hf] at hd
  exact if_pos hd.symm

theorem owner_none {d t : Dispatcher κ σ μ α ρ ε} (h : SameKeys d t) {c : κ × α}
    (hf : t.map.find c.1 = none) : owner d c = none := by
  have hd := h c.1
  rw [hf] at hd
  exact if_neg fun hs => Bool.noConfusion (hd.trans hs)

theorem call_sameKeys {d t : Dispatcher κ σ μ α ρ ε} (h : SameKeys d t) (c : κ × α) :
    SameKeys d (t.call c).2 := by
  intro k
  cases hf : t.map.find c.1 with
  | some f => rw [call_some hf, SortedMap.find_assign, Option.isSome_map, h k]
  | none => rw [call_none hf, h k]

/-- The entries and the default handler are the parts of a dispatcher. -/
theorem apart (d : Dispatcher κ σ μ α ρ ε) :
    Parts.Apart (SameKeys d) Dispatcher.call (owner d) held callHeld where
  keeps t c h := call_sameKeys h c
  own t c h := by
    cases hf : t.map.find c.1 with
    | some f =>
      rw [owner_some h hf, call_some hf]
      simp [held, callHeld, SortedMap.find_assign, hf]
    | none =>
      rw [owner_none h hf, call_none hf]
      rfl
  others t c k h hk := by
    cases hf : t.map.find c.1 with
    | some f =>
      rw [owner_some h hf] at hk
      rw [call_some hf]
      cases k with
      | none => rfl
      | some k =>
        have hne : k ≠ c.1 := fun he => hk (he ▸ rfl)
        simp [held, SortedMap.find_assign, hne]
    | none =>
      rw [owner_none h hf] at hk
      rw [call_none hf]
      cases k with
      | none => exact absurd rfl hk
      | some k => rfl

/-- Only an empty callable throws `std::bad_function_call` of its own. -/
theorem call_bad (f : StdFunction σ α ρ ε) (a : α) :
    (f.call a).1 = .error .badFunctionCall ↔ f = none := by
  cases f with
  | none => simp [StdFunction.call]
  | some f =>
    cases h : (f.body f.kept a).1 <;> simp [StdFunction.call, Except.mapError, h]

theorem call_empty (f : StdFunction σ α ρ ε) (a : α) : (f.call a).2 = none ↔ f = none := by
  cases f <;> simp [StdFunction.call]

/-- There is nothing to call for the key. -/
def Unanswerable (d : Dispatcher κ σ μ α ρ ε) (k : κ) : Prop :=
  d.map.find k = some none ∨ d.map.find k = none ∧ d.defaultHandler = none

theorem dispatch_bad (d : Dispatcher κ σ μ α ρ ε) (c : κ × α) :
    (d.call c).1 = .error .badFunctionCall ↔ Unanswerable d c.1 := by
  unfold Unanswerable
  cases hf : d.map.find c.1 with
  | some f =>
    rw [call_some hf, call_bad]
    simp
  | none =>
    rw [call_none hf, call_bad]
    simp

/-- A call leaves no callable empty that was not, and fills none. -/
theorem dispatch_unanswerable (d : Dispatcher κ σ μ α ρ ε) (c : κ × α) (k : κ) :
    Unanswerable (d.call c).2 k ↔ Unanswerable d k := by
  unfold Unanswerable
  cases hf : d.map.find c.1 with
  | some f =>
    rw [call_some hf, SortedMap.find_assign]
    by_cases hk : k = c.1
    · subst hk
      simp [hf, call_empty]
    · simp [hk]
  | none =>
    rw [call_none hf]
    exact or_congr_right (and_congr_right fun _ => call_empty d.defaultHandler c)

theorem run_bad (d : Dispatcher κ σ μ α ρ ε) (calls : List (κ × α)) :
    ∀ r ∈ (d.run calls).1, r.2 = .error .badFunctionCall ↔ Unanswerable d r.1.1 :=
  Parts.run_outputs
    (I := fun t : Dispatcher κ σ μ α ρ ε => ∀ k, Unanswerable t k ↔ Unanswerable d k)
    (P := fun (c : κ × α) (r : Except (Thrown ε) ρ) =>
      r = .error .badFunctionCall ↔ Unanswerable d c.1)
    (fun t c h k => (dispatch_unanswerable t c k).trans (h k))
    (fun t c h => (dispatch_bad t c).trans (h c.1)) (fun _ => Iff.rfl) calls

theorem call_defaultHandler {d : Dispatcher κ σ μ α ρ ε} (h : d.defaultHandler = none)
    (c : κ × α) : (d.call c).2.defaultHandler = none := by
  cases hf : d.map.find c.1 with
  | some f =>
    rw [call_some hf]
    exact h
  | none =>
    rw [call_none hf]
    exact (call_empty d.defaultHandler c).mpr h

/-- A dispatcher that is made without a default handler stays without one, and throws
`std::bad_function_call` of itself exactly where the map has no callable for the key. -/
theorem ofMap_run (map : SortedMap κ (StdFunction σ α ρ ε)) (calls : List (κ × α)) :
    ((.ofMap map : Dispatcher κ σ μ α ρ ε).run calls).2.defaultHandler = none ∧
      ∀ r ∈ ((.ofMap map : Dispatcher κ σ μ α ρ ε).run calls).1,
        r.2 = .error .badFunctionCall ↔ (map.find r.1.1).getD none = none := by
  refine ⟨Parts.run_invariant
    (I := fun t : Dispatcher κ σ μ α ρ ε => t.defaultHandler = none)
    (fun _ c h => call_defaultHandler h c) rfl calls, ?_⟩
  intro r hr
  rw [run_bad _ calls r hr]
  unfold Unanswerable Dispatcher.ofMap
  cases map.find r.1.1 <;> simp

end Messagebus.Proofs.Dispatcher
