import Mathlib.Order.Lattice
import Mathlib.Data.List.Pairwise
import Mathlib.Data.List.TakeWhile

/-- A finite map stored as its entries in strictly increasing key order, so
that two maps with the same entries are the same value. -/
structure SortedMap (κ ν : Type) [LinearOrder κ] where
  entries : List (κ × ν)
  sorted : entries.Pairwise (fun a b => a.1 < b.1)

namespace SortedMap

variable {κ ν : Type} [LinearOrder κ]

theorem ext_entries {m m' : SortedMap κ ν} (h : m.entries = m'.entries) : m = m' := by
  cases m
  cases m'
  cases h
  rfl

instance [DecidableEq ν] : DecidableEq (SortedMap κ ν) := fun m m' =>
  decidable_of_iff (m.entries = m'.entries) ⟨ext_entries, fun h => h ▸ rfl⟩

/-- Insertion which keeps an entry that is already there. -/
def place (k : κ) (v : ν) : List (κ × ν) → List (κ × ν)
  | [] => [(k, v)]
  | e :: es =>
    if k < e.1 then (k, v) :: e :: es
    else if e.1 = k then e :: es
    else e :: place k v es

theorem mem_place {k : κ} {v : ν} {es : List (κ × ν)} {e : κ × ν} (h : e ∈ place k v es) :
    e = (k, v) ∨ e ∈ es := by
  induction es with
  | nil => exact Or.inl (List.mem_singleton.mp h)
  | cons d ds ih =>
    unfold place at h
    split at h
    · exact List.mem_cons.mp h
    · split at h
      · exact Or.inr h
      · rcases List.mem_cons.mp h with he | ht
        · exact Or.inr (he ▸ List.mem_cons_self)
        · exact (ih ht).imp id (List.mem_cons_of_mem d)

theorem place_sorted (k : κ) (v : ν) {es : List (κ × ν)}
    (h : es.Pairwise (fun a b => a.1 < b.1)) :
    (place k v es).Pairwise (fun a b => a.1 < b.1) := by
  induction es with
  | nil => simp [place]
  | cons d ds ih =>
    obtain ⟨hd, ht⟩ := List.pairwise_cons.mp h
    unfold place
    split
    · rename_i hlt
      refine List.pairwise_cons.mpr ⟨?_, h⟩
      intro e he
      rcases List.mem_cons.mp he with rfl | he
      · exact hlt
      · exact lt_trans hlt (hd e he)
    · rename_i hge
      split
      · exact h
      · rename_i hne
        refine List.pairwise_cons.mpr ⟨?_, ih ht⟩
        intro e he
        rcases mem_place he with rfl | he
        · exact lt_of_le_of_ne (not_lt.mp hge) hne
        · exact hd e he

/-- Past the last key, insertion is an append. -/
theorem place_last {k : κ} {v : ν} {es : List (κ × ν)} (h : ∀ e ∈ es, e.1 < k) :
    place k v es = es ++ [(k, v)] := by
  induction es with
  | nil => rfl
  | cons d ds ih =>
    have hd : d.1 < k := h d List.mem_cons_self
    have ht := ih (fun e he => h e (List.mem_cons_of_mem d he))
    simp [place, not_lt_of_gt hd, ne_of_lt hd, ht]

theorem lookup_below {k : κ} {es : List (κ × ν)} (h : ∀ e ∈ es, k < e.1) :
    es.lookup k = none := by
  apply List.lookup_eq_none_iff.mpr
  intro e he
  simpa using ne_of_lt (h e he)

theorem lookup_place_self (k : κ) (v : ν) {es : List (κ × ν)}
    (h : es.Pairwise (fun a b => a.1 < b.1)) :
    (place k v es).lookup k = some ((es.lookup k).getD v) := by
  induction es with
  | nil => simp [place]
  | cons d ds ih =>
    obtain ⟨hd, ht⟩ := List.pairwise_cons.mp h
    obtain ⟨j, w⟩ := d
    unfold place
    split
    · rename_i hlt
      have hnone : ((j, w) :: ds).lookup k = none := by
        apply lookup_below
        intro e he
        rcases List.mem_cons.mp he with rfl | he
        · exact hlt
        · exact lt_trans hlt (hd e he)
      simp [hnone]
    · split
      · rename_i he
        simp [show j = k from he]
      · rename_i hne
        have hk : (k == j) = false := beq_false_of_ne (Ne.symm hne)
        simpa [List.lookup_cons, hk] using ih ht

theorem lookup_place_other {j k : κ} (v : ν) (es : List (κ × ν)) (h : j ≠ k) :
    (place k v es).lookup j = es.lookup j := by
  induction es with
  | nil => simp [place, h]
  | cons d ds ih =>
    obtain ⟨i, w⟩ := d
    unfold place
    split
    · simp [List.lookup_cons, beq_false_of_ne h]
    · split
      · rfl
      · simp [List.lookup_cons, ih]

def empty : SortedMap κ ν := ⟨[], List.Pairwise.nil⟩

def find (m : SortedMap κ ν) (k : κ) : Option ν := m.entries.lookup k

def emplace (m : SortedMap κ ν) (k : κ) (v : ν) : SortedMap κ ν :=
  ⟨place k v m.entries, place_sorted k v m.sorted⟩

def erase (m : SortedMap κ ν) (k : κ) : SortedMap κ ν :=
  ⟨m.entries.filter (fun e => e.1 ≠ k), m.sorted.filter _⟩

@[simp] theorem find_empty (k : κ) : (empty : SortedMap κ ν).find k = none := rfl

/-- An entry already present wins over the one being emplaced. -/
@[simp] theorem find_emplace_self (m : SortedMap κ ν) (k : κ) (v : ν) :
    (m.emplace k v).find k = some ((m.find k).getD v) :=
  lookup_place_self k v m.sorted

theorem find_emplace_other {j k : κ} (m : SortedMap κ ν) (v : ν) (h : j ≠ k) :
    (m.emplace k v).find j = m.find j :=
  lookup_place_other v m.entries h

@[simp] theorem find_erase_self (m : SortedMap κ ν) (k : κ) : (m.erase k).find k = none := by
  apply List.lookup_eq_none_iff.mpr
  intro e he
  have hne : e.1 ≠ k := of_decide_eq_true (List.mem_filter.mp he).2
  exact bne_iff_ne.mpr hne.symm

theorem find_erase_other {j k : κ} (m : SortedMap κ ν) (h : j ≠ k) :
    (m.erase k).find j = m.find j := by
  change (m.entries.filter _).lookup j = m.entries.lookup j
  induction m.entries with
  | nil => rfl
  | cons e es ih =>
    obtain ⟨i, w⟩ := e
    simp only [ne_eq, decide_not] at ih ⊢
    by_cases hi : i = k
    · subst hi
      simpa [List.lookup_cons, beq_false_of_ne h] using ih
    · simp [List.lookup_cons, hi, ih]

theorem mem_of_find {m : SortedMap κ ν} {k : κ} {v : ν} (h : m.find k = some v) :
    (k, v) ∈ m.entries := by
  obtain ⟨before, after, he, _⟩ := List.lookup_eq_some_iff.mp h
  exact he ▸ List.mem_append_right _ List.mem_cons_self

theorem find_of_mem {m : SortedMap κ ν} {k : κ} {v : ν} (h : (k, v) ∈ m.entries) :
    m.find k = some v := by
  obtain ⟨before, after, he⟩ := List.append_of_mem h
  refine List.lookup_eq_some_iff.mpr ⟨before, after, he, ?_⟩
  intro e hm
  have hs := m.sorted
  rw [he] at hs
  simpa using ne_of_gt ((List.pairwise_append.mp hs).2.2 e hm (k, v) List.mem_cons_self)

theorem find_eq_none_iff (m : SortedMap κ ν) (k : κ) :
    m.find k = none ↔ ∀ e ∈ m.entries, e.1 ≠ k := by
  unfold find
  rw [List.lookup_eq_none_iff]
  constructor
  · intro h e he
    exact (bne_iff_ne.mp (h e he)).symm
  · intro h e he
    exact bne_iff_ne.mpr (h e he).symm

def mapValues {μ : Type} (m : SortedMap κ ν) (f : ν → μ) : SortedMap κ μ :=
  ⟨m.entries.map fun e => (e.1, f e.2), m.sorted.map _ fun _ _ h => h⟩

@[simp] theorem find_mapValues {μ : Type} (m : SortedMap κ ν) (f : ν → μ) (k : κ) :
    (m.mapValues f).find k = (m.find k).map f := by
  change (m.entries.map _).lookup k = (m.entries.lookup k).map f
  induction m.entries with
  | nil => rfl
  | cons e es ih =>
    rw [List.map_cons, List.lookup_cons, List.lookup_cons, ih]
    cases k == e.1 with
    | true => rfl
    | false => rfl

/-- What comes before the first entry that fails a test comes before every one that does. -/
theorem lt_of_mem_takeWhile {m : SortedMap κ ν} {p : κ × ν → Bool} {e d : κ × ν}
    (he : e ∈ m.entries.takeWhile p) (hd : d ∈ m.entries) (hp : p d = false) : e.1 < d.1 := by
  have hs := m.sorted
  rw [← List.takeWhile_append_dropWhile (p := p) (l := m.entries)] at hs hd
  rcases List.mem_append.mp hd with hd | hd
  · rw [List.mem_takeWhile_imp hd] at hp
    cases hp
  · exact (List.pairwise_append.mp hs).2.2 e he d hd

/-- Emplacing a list of entries one after the other. -/
def emplaceAll (m : SortedMap κ ν) (es : List (κ × ν)) : SortedMap κ ν :=
  es.foldl (fun m e => m.emplace e.1 e.2) m

@[simp] theorem emplaceAll_nil (m : SortedMap κ ν) : m.emplaceAll [] = m := rfl

@[simp] theorem emplaceAll_cons (m : SortedMap κ ν) (e : κ × ν) (es : List (κ × ν)) :
    m.emplaceAll (e :: es) = (m.emplace e.1 e.2).emplaceAll es := rfl

/-- Entries arriving in increasing order after those of the map are appended. -/
theorem emplaceAll_increasing (m : SortedMap κ ν) (es : List (κ × ν))
    (h : (m.entries ++ es).Pairwise (fun a b => a.1 < b.1)) :
    (m.emplaceAll es).entries = m.entries ++ es := by
  induction es generalizing m with
  | nil => simp
  | cons e es ih =>
    have hlast : (m.emplace e.1 e.2).entries = m.entries ++ [e] := by
      apply place_last
      intro d hd
      exact (List.pairwise_append.mp h).2.2 d hd e List.mem_cons_self
    have hnext := ih (m.emplace e.1 e.2) (by simpa [hlast] using h)
    simpa [hlast] using hnext

/-- A map is rebuilt from its own entries. -/
theorem emplaceAll_entries (m : SortedMap κ ν) : empty.emplaceAll m.entries = m :=
  ext_entries (emplaceAll_increasing empty m.entries (by simpa [empty] using m.sorted))

theorem find_emplace (m : SortedMap κ ν) (k : κ) (v : ν) (j : κ) :
    (m.emplace k v).find j = if j = k then some ((m.find k).getD v) else m.find j := by
  split
  · rename_i h
    rw [h, find_emplace_self]
  · rename_i h
    exact find_emplace_other m v h

/-- Of the entries for a key the map's own wins, and then the first to arrive. -/
theorem find_emplaceAll (m : SortedMap κ ν) (es : List (κ × ν)) (k : κ)
    [DecidablePred fun e : κ × ν => e.1 = k] :
    (m.emplaceAll es).find k =
      (m.find k).or ((es.find? (fun e => e.1 = k)).map Prod.snd) := by
  induction es generalizing m with
  | nil => simp
  | cons e es ih =>
    obtain ⟨j, v⟩ := e
    rw [emplaceAll_cons, ih, find_emplace]
    by_cases hk : k = j
    · subst hk
      cases m.find k <;> simp
    · simp [hk, Ne.symm hk]

/-- Maps that agree on every key are the same. -/
theorem ext_find {m m' : SortedMap κ ν} (h : ∀ k, m.find k = m'.find k) : m = m' := by
  have hmem : ∀ e, e ∈ m.entries ↔ e ∈ m'.entries := by
    intro e
    obtain ⟨k, v⟩ := e
    constructor
    · intro he
      exact mem_of_find (h k ▸ find_of_mem he)
    · intro he
      exact mem_of_find (h k ▸ find_of_mem he)
  have hnodup : ∀ m : SortedMap κ ν, m.entries.Nodup := fun m =>
    m.sorted.imp fun hlt he => ne_of_lt hlt (congrArg Prod.fst he)
  have hperm := (List.perm_ext_iff_of_nodup (hnodup m) (hnodup m')).mpr hmem
  apply ext_entries
  exact hperm.eq_of_pairwise (fun a b _ _ hab hba => absurd hab (not_lt_of_gt hba))
    m.sorted m'.sorted

/-- Nothing is changed by an entry for a key that is there. -/
theorem emplace_present {m : SortedMap κ ν} {k : κ} {v : ν} (h : m.find k = some v) (v' : ν) :
    m.emplace k v' = m := by
  apply ext_find
  intro j
  rw [find_emplace]
  split
  · rename_i hj
    rw [hj, h]
    rfl
  · rfl

theorem mapValues_emplace {μ : Type} (m : SortedMap κ ν) (f : ν → μ) (k : κ) (v : ν) :
    (m.emplace k v).mapValues f = (m.mapValues f).emplace k (f v) := by
  apply ext_find
  intro j
  rw [find_mapValues, find_emplace, find_emplace, find_mapValues, find_mapValues]
  split
  · cases m.find k with
    | none => rfl
    | some w => rfl
  · rfl

theorem mapValues_erase {μ : Type} (m : SortedMap κ ν) (f : ν → μ) (k : κ) :
    (m.erase k).mapValues f = (m.mapValues f).erase k := by
  apply ext_find
  intro j
  by_cases hj : j = k
  · subst hj
    simp
  · rw [find_mapValues, find_erase_other _ hj, find_erase_other _ hj, find_mapValues]

theorem mapValues_leftInverse {μ : Type} (m : SortedMap κ ν) {f : ν → μ} {g : μ → ν}
    (h : Function.LeftInverse g f) : (m.mapValues f).mapValues g = m := by
  apply ext_find
  intro k
  rw [find_mapValues, find_mapValues, Option.map_map, h.comp_eq_id, Option.map_id]
  rfl

/-- Assignment to the value of an entry where it is. -/
def assign (m : SortedMap κ ν) (k : κ) (v : ν) : SortedMap κ ν where
  entries := m.entries.map fun e => (e.1, if e.1 = k then v else e.2)
  sorted := m.sorted.map _ fun _ _ h => h

theorem find_assign (m : SortedMap κ ν) (k : κ) (v : ν) (j : κ) :
    (m.assign k v).find j = (m.find j).map fun w => if j = k then v else w := by
  change (m.entries.map _).lookup j = (m.entries.lookup j).map _
  induction m.entries with
  | nil => rfl
  | cons e es ih =>
    rw [List.map_cons, List.lookup_cons, List.lookup_cons, ih]
    cases hj : j == e.1 with
    | true => rw [eq_of_beq hj, Option.map_some]
    | false => rfl

end SortedMap
