import Mathlib.Data.List.Basic

namespace Tagged

variable {κ α : Type} [DecidableEq κ]

/-- The entries of a record that have a tag. -/
def select (tag : κ) (xs : List (κ × α)) : List α := (xs.filter (fun x => x.1 = tag)).map Prod.snd

@[simp] theorem select_nil (tag : κ) : select tag ([] : List (κ × α)) = [] := rfl

@[simp] theorem select_append (tag : κ) (xs ys : List (κ × α)) :
    select tag (xs ++ ys) = select tag xs ++ select tag ys := by
  simp [select]

@[simp] theorem select_map_self (tag : κ) (xs : List α) :
    select tag (xs.map fun x => (tag, x)) = xs := by
  simp [select, List.filter_map, Function.comp_def]

@[simp] theorem select_singleton (tag : κ) (x : α) : select tag [(tag, x)] = [x] := by
  simp [select]

theorem select_map_other {tag other : κ} (h : other ≠ tag) (xs : List α) :
    select tag (xs.map fun x => (other, x)) = [] := by
  simp [select, List.filter_map, Function.comp_def, h]

end Tagged
