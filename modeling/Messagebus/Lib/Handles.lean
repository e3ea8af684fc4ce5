import Mathlib.Data.List.Perm.Basic
import Mathlib.Data.List.Range

/-- Handles that are handed out one after another and given back in any order. Those handed
out so far are `0` up to `issued`; each of them is still owned or has been released, and
that once. -/
structure Handles where
  issued : ℕ
  owned : List ℕ
  released : List ℕ
  balance : (released ++ owned).Perm (List.range issued)

namespace Handles

def empty : Handles := ⟨0, [], [], .nil⟩

/-- Hands out the next handle. -/
def issue (h : Handles) : Handles where
  issued := h.issued + 1
  owned := h.owned ++ [h.issued]
  released := h.released
  balance := by
    rw [List.range_succ, ← List.append_assoc]
    exact h.balance.append_right [h.issued]

def release (h : Handles) (i : ℕ) (hi : i ∈ h.owned) : Handles where
  issued := h.issued
  owned := h.owned.erase i
  released := h.released ++ [i]
  balance := by
    rw [List.append_assoc, List.singleton_append]
    exact ((List.perm_cons_erase hi).symm.append_left h.released).trans h.balance

theorem mem_issue (h : Handles) : h.issued ∈ h.issue.owned := by
  simp [issue]

/-- A handle that has not been handed out is nobody's. -/
theorem issued_notMem (h : Handles) : h.issued ∉ h.owned := by
  intro hm
  have hr := h.balance.mem_iff.mp (List.mem_append_right h.released hm)
  simp at hr

/-- A handle that is handed out and released right away. -/
def pass (h : Handles) : Handles := h.issue.release h.issued h.mem_issue

@[simp] theorem pass_owned (h : Handles) : h.pass.owned = h.owned := by
  simp [pass, release, issue, List.erase_append_right _ h.issued_notMem]

@[simp] theorem pass_issued (h : Handles) : h.pass.issued = h.issued + 1 := rfl

@[simp] theorem issue_owned (h : Handles) : h.issue.owned = h.owned ++ [h.issued] := rfl

@[simp] theorem issue_issued (h : Handles) : h.issue.issued = h.issued + 1 := rfl

theorem count_balance (h : Handles) {i : ℕ} (hi : i < h.issued) :
    h.released.count i + h.owned.count i = 1 := by
  rw [← List.count_append, h.balance.count_eq]
  simp [List.count_range, hi]

/-- Nothing is owned any more exactly if every handle has been released exactly once. -/
theorem owned_eq_nil_iff (h : Handles) :
    h.owned = [] ↔ ∀ i < h.issued, h.released.count i = 1 := by
  constructor
  · intro hn i hi
    have hc := h.count_balance hi
    rwa [hn, List.count_nil, Nat.add_zero] at hc
  · intro hall
    apply List.eq_nil_iff_forall_not_mem.mpr
    intro i hm
    have hi : i < h.issued :=
      List.mem_range.mp (h.balance.mem_iff.mp (List.mem_append_right h.released hm))
    have hc := h.count_balance hi
    rw [hall i hi] at hc
    have hpos := List.count_pos_iff.mpr hm
    omega

end Handles
