import Mathlib.Data.List.Basic

namespace Framing

variable {α : Type} [DecidableEq α]

/-- In-band framing of key/value pairs: a flat list of symbols. -/
def writePairs : List (α × α) → List α
  | [] => []
  | p :: ps => p.1 :: p.2 :: writePairs ps

/-- The symbols are read two at a time until the terminator turns up where a key is
expected: the pairs before it and the symbols after it. There is no result when the
symbols end on a key without a value. -/
def readPairs (stop : α) : List α → Option (List (α × α) × List α)
  | [] => some ([], [])
  | [k] => if k = stop then some ([], []) else none
  | k :: v :: rest =>
    if k = stop then some ([], v :: rest)
    else (readPairs stop rest).map (fun r => ((k, v) :: r.1, r.2))

theorem readPairs_stop (stop : α) (rest : List α) :
    readPairs stop (stop :: rest) = some ([], rest) := by
  cases rest <;> simp [readPairs]

theorem readPairs_pair {stop k : α} (v : α) (rest : List α) (h : k ≠ stop) :
    readPairs stop (k :: v :: rest) =
      (readPairs stop rest).map (fun r => ((k, v) :: r.1, r.2)) := by
  simp [readPairs, h]

/-- Terminated pairs are read back up to the first key that looks like the
terminator; what follows the written pairs has no say in that. -/
theorem readPairs_written (stop : α) (ps : List (α × α)) (rest : List α) :
    ∃ tail, readPairs stop (writePairs ps ++ stop :: rest) =
      some (ps.takeWhile (fun p => p.1 ≠ stop), tail) := by
  induction ps with
  | nil => exact ⟨rest, readPairs_stop stop rest⟩
  | cons p ps ih =>
    by_cases hp : p.1 = stop
    · refine ⟨p.2 :: (writePairs ps ++ stop :: rest), ?_⟩
      simpa [writePairs, hp] using readPairs_stop stop (p.2 :: (writePairs ps ++ stop :: rest))
    · obtain ⟨tail, ht⟩ := ih
      refine ⟨tail, ?_⟩
      change readPairs stop (p.1 :: p.2 :: (writePairs ps ++ stop :: rest)) = _
      rw [readPairs_pair _ _ hp, ht]
      simp [hp]

/-- Without a look-alike among the keys the round trip is exact. -/
theorem readPairs_writePairs {stop : α} {ps : List (α × α)} (rest : List α)
    (h : ∀ p ∈ ps, p.1 ≠ stop) :
    readPairs stop (writePairs ps ++ stop :: rest) = some (ps, rest) := by
  induction ps with
  | nil => exact readPairs_stop stop rest
  | cons p ps ih =>
    change readPairs stop (p.1 :: p.2 :: (writePairs ps ++ stop :: rest)) = _
    rw [readPairs_pair _ _ (h p List.mem_cons_self),
      ih (fun q hq => h q (List.mem_cons_of_mem p hq))]
    rfl

/-- Pairs without a terminator are read up to the end. -/
theorem readPairs_unterminated {stop : α} {ps : List (α × α)} (h : ∀ p ∈ ps, p.1 ≠ stop) :
    readPairs stop (writePairs ps) = some (ps, []) := by
  induction ps with
  | nil => rfl
  | cons p ps ih =>
    change readPairs stop (p.1 :: p.2 :: writePairs ps) = _
    rw [readPairs_pair _ _ (h p List.mem_cons_self),
      ih (fun q hq => h q (List.mem_cons_of_mem p hq))]
    rfl

/-- What it is to read pairs: they are there in order, none of their keys is the
terminator, and the rest is what follows the terminator, or nothing if there is
no terminator in the place of a key. -/
def Reads (stop : α) (xs : List α) (ps : List (α × α)) (rest : List α) : Prop :=
  (∀ p ∈ ps, p.1 ≠ stop) ∧
    (xs = writePairs ps ++ stop :: rest ∨ xs = writePairs ps ∧ rest = [])

omit [DecidableEq α] in
theorem Reads.pair {stop k : α} {xs : List α} {ps : List (α × α)} {rest : List α} (v : α)
    (hk : k ≠ stop) (h : Reads stop xs ps rest) :
    Reads stop (k :: v :: xs) ((k, v) :: ps) rest := by
  obtain ⟨hps, hxs⟩ := h
  refine ⟨List.forall_mem_cons.mpr ⟨hk, hps⟩, ?_⟩
  rcases hxs with he | ⟨he, hr⟩
  · exact Or.inl (by simp [writePairs, he])
  · exact Or.inr ⟨by simp [writePairs, he], hr⟩

/-- The pairs that are read are the ones that are there. -/
theorem readPairs_iff {stop : α} {xs : List α} {ps : List (α × α)} {rest : List α} :
    readPairs stop xs = some (ps, rest) ↔ Reads stop xs ps rest := by
  constructor
  · intro h
    induction xs using readPairs.induct stop generalizing ps rest with
    | case1 =>
      simp only [readPairs, Option.some.injEq, Prod.mk.injEq] at h
      obtain ⟨rfl, rfl⟩ := h
      exact ⟨by simp, Or.inr ⟨rfl, rfl⟩⟩
    | case2 =>
      simp only [readPairs, if_true, Option.some.injEq, Prod.mk.injEq] at h
      obtain ⟨rfl, rfl⟩ := h
      exact ⟨by simp, Or.inl rfl⟩
    | case3 k hk => simp [readPairs, hk] at h
    | case4 v xs =>
      rw [readPairs_stop, Option.some.injEq, Prod.mk.injEq] at h
      obtain ⟨rfl, rfl⟩ := h
      exact ⟨by simp, Or.inl rfl⟩
    | case5 k v xs hk ih =>
      rw [readPairs_pair v xs hk] at h
      obtain ⟨r, hr, he⟩ := Option.map_eq_some_iff.mp h
      obtain ⟨rfl, rfl⟩ := Prod.mk.inj he
      exact (ih hr).pair v hk
  · intro h
    obtain ⟨hps, rfl | ⟨rfl, rfl⟩⟩ := h
    · exact readPairs_writePairs rest hps
    · exact readPairs_unterminated hps

/-- The terminator is never handed out as a key. -/
theorem readPairs_keys {stop : α} {xs : List α} {ps : List (α × α)} {rest : List α}
    (h : readPairs stop xs = some (ps, rest)) : ∀ p ∈ ps, p.1 ≠ stop :=
  (readPairs_iff.mp h).1

omit [DecidableEq α] in
theorem keys_shift {stop k : α} (v : α) (rest : List α) (hk : k ≠ stop) :
    (∀ i, (k :: v :: rest)[2 * i]? ≠ some stop) ↔ ∀ i, rest[2 * i]? ≠ some stop := by
  constructor
  · intro h i
    exact h (i + 1)
  · intro h i
    cases i with
    | zero => simpa using hk
    | succ i => exact h i

/-- Reading fails exactly on an odd number of symbols without a terminator at
any key position. -/
theorem readPairs_none_iff (stop : α) (xs : List α) :
    readPairs stop xs = none ↔ xs.length % 2 = 1 ∧ ∀ i, xs[2 * i]? ≠ some stop := by
  induction xs using readPairs.induct stop with
  | case1 => simp [readPairs]
  | case2 =>
    simp only [readPairs, if_true, reduceCtorEq, false_iff, not_and]
    exact fun _ h => h 0 rfl
  | case3 k hk =>
    simp only [readPairs, hk, if_false, List.length_singleton, true_iff]
    refine ⟨trivial, ?_⟩
    intro i
    cases i with
    | zero => simpa using hk
    | succ i => simp [Nat.mul_succ]
  | case4 v rest =>
    simp only [readPairs, if_true, reduceCtorEq, false_iff, not_and]
    exact fun _ h => h 0 rfl
  | case5 k v rest hk ih =>
    rw [readPairs_pair v rest hk, Option.map_eq_none_iff, ih, keys_shift v rest hk]
    simp only [List.length_cons, Nat.add_assoc, Nat.reduceAdd, Nat.add_mod_right]

end Framing
