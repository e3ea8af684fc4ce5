import Mathlib.Data.Finset.Card

namespace CondVar

variable {ι : Type} [DecidableEq ι]

/-- Notifying one thread takes an arbitrary member out of a non-empty wait set. A waiting
thread that has left the set is woken: it goes on as soon as it gets the mutex back. -/
def NotifyOne (W W' : Finset ι) : Prop :=
  (W = ∅ ∧ W' = ∅) ∨ ∃ w ∈ W, W' = W.erase w

theorem NotifyOne.subset {W W' : Finset ι} (h : NotifyOne W W') : W' ⊆ W := by
  rcases h with ⟨rfl, rfl⟩ | ⟨w, _, rfl⟩
  · exact Finset.Subset.refl ∅
  · exact Finset.erase_subset w W

theorem NotifyOne.possible (W : Finset ι) : ∃ W', NotifyOne W W' := by
  rcases W.eq_empty_or_nonempty with rfl | ⟨w, hw⟩
  · exact ⟨∅, Or.inl ⟨rfl, rfl⟩⟩
  · exact ⟨W.erase w, Or.inr ⟨w, hw, rfl⟩⟩

/-- At most one thread is woken. -/
theorem NotifyOne.card_sdiff_le {W W' : Finset ι} (h : NotifyOne W W') :
    (W \ W').card ≤ 1 := by
  rcases h with ⟨rfl, rfl⟩ | ⟨w, hw, rfl⟩
  · rw [Finset.sdiff_self, Finset.card_empty]
    exact Nat.zero_le 1
  · rw [Finset.sdiff_erase hw, Finset.sdiff_self]
    exact Finset.card_le_one_iff.mpr (by simp)

/-- A thread is sure to be the one woken only while it waits alone. -/
theorem NotifyOne.sure_iff {W : Finset ι} {i : ι} (hi : i ∈ W) :
    (∀ W', NotifyOne W W' → W' = W.erase i) ↔ W = {i} := by
  constructor
  · intro h
    refine Finset.eq_singleton_iff_unique_mem.mpr ⟨hi, ?_⟩
    intro j hj
    by_contra hne
    have he : W.erase j = W.erase i := h _ (Or.inr ⟨j, hj, rfl⟩)
    have hm : i ∈ W.erase j := Finset.mem_erase.mpr ⟨Ne.symm hne, hi⟩
    rw [he] at hm
    exact Finset.notMem_erase i W hm
  · rintro rfl W' (⟨he, _⟩ | ⟨w, hw, rfl⟩)
    · exact absurd he (Finset.singleton_ne_empty i)
    · rw [Finset.mem_singleton.mp hw]

end CondVar
