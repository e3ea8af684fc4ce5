import Mathlib.Algebra.BigOperators.Group.Finset.Piecewise
import Mathlib.Algebra.Order.Group.Multiset

/-- The books of an executor: items are accepted into a queue, started in the order of the
queue and finished in any order. The two equations are what makes the books balance:
nothing that was accepted is lost or started out of turn, and what was started is either
finished or still running. -/
structure Ledger (α : Type) where
  accepted : List α
  pending : List α
  started : List α
  running : Multiset α
  finished : List α
  order : started ++ pending = accepted
  flight : (started : Multiset α) = finished + running

namespace Ledger

variable {α : Type}

def empty : Ledger α := ⟨[], [], [], 0, [], rfl, rfl⟩

def accept (l : Ledger α) (a : α) : Ledger α :=
  { l with
    accepted := l.accepted ++ [a]
    pending := l.pending ++ [a]
    order := by rw [← List.append_assoc, l.order] }

def start (l : Ledger α) (a : α) (rest : List α) (h : l.pending = a :: rest) : Ledger α :=
  { l with
    pending := rest
    started := l.started ++ [a]
    running := l.running + {a}
    order := by rw [← l.order, h, List.append_assoc, List.singleton_append]
    flight := by
      rw [← Multiset.coe_add, l.flight, Multiset.coe_singleton, Multiset.add_assoc] }

def finish (l : Ledger α) (a : α) (others : Multiset α) (h : l.running = others + {a}) :
    Ledger α :=
  { l with
    running := others
    finished := l.finished ++ [a]
    flight := by
      rw [l.flight, h, ← Multiset.coe_add, Multiset.coe_singleton,
        Multiset.add_assoc, Multiset.add_comm others] }

/-- Items are started in the order in which they were accepted. -/
theorem started_prefix (l : Ledger α) : l.started <+: l.accepted := ⟨l.pending, l.order⟩

/-- Once nothing is pending or running, every accepted item is finished,
exactly as often as it was accepted. -/
theorem settled (l : Ledger α) (hp : l.pending = []) (hr : l.running = 0) :
    l.finished.Perm l.accepted := by
  have hs : l.started = l.accepted := by simpa [hp] using l.order
  have hf : (l.started : Multiset α) = l.finished := by simpa [hr] using l.flight
  exact Multiset.coe_eq_coe.mp (hs ▸ hf).symm

/-- A thread that goes on takes what it has in hand off the total and puts what
it has next on it. -/
theorem sum_update {ι σ : Type} [Fintype ι] [DecidableEq ι] (hand : σ → Multiset α)
    (f : ι → σ) (i : ι) (s : σ) :
    (∑ j, hand (Function.update f i s j)) + hand (f i) = (∑ j, hand (f j)) + hand s := by
  have hu : (fun j => hand (Function.update f i s j)) =
      Function.update (fun j => hand (f j)) i (hand s) := by
    funext j
    exact Function.apply_update (fun _ => hand) f i s j
  rw [hu, Finset.sum_update_of_mem (Finset.mem_univ i), Finset.sdiff_singleton_eq_erase,
    ← Finset.sum_erase_add Finset.univ (fun j => hand (f j)) (Finset.mem_univ i), add_assoc]
  exact add_comm _ _

end Ledger
