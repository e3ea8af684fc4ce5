import Mathlib.Data.List.Basic

namespace Format

variable {β : Type}

/-- A text with `%s` directives, expanded as `printf` does: `none` if it asks for one more
argument than there are (reading that is undefined). Arguments that are left over are
ignored. -/
def expand (byte : Char → β) : List Char → List (List β) → Option (List β)
  | [], _ => some []
  | '%' :: 's' :: _, [] => none
  | '%' :: 's' :: text, argument :: arguments =>
    (expand byte text arguments).map fun rest => argument ++ rest
  | c :: text, arguments => (expand byte text arguments).map fun rest => byte c :: rest

/-- The number of arguments that a text asks for. -/
def directives : List Char → ℕ
  | [] => 0
  | '%' :: 's' :: text => directives text + 1
  | _ :: text => directives text

/-- The expansion is defined exactly if there are enough arguments. -/
theorem expand_isSome_iff (byte : Char → β) (text : List Char) (arguments : List (List β)) :
    (expand byte text arguments).isSome = true ↔ directives text ≤ arguments.length := by
  fun_induction expand byte text arguments with
  | case1 => simp [directives]
  | case2 => simp [directives]
  | case3 text argument arguments ih => simp [directives, ih]
  | case4 c text arguments hnone hsome ih =>
    have hplain : ∀ tail, c = '%' → text ≠ 's' :: tail := by
      intro tail hc ht
      cases arguments with
      | nil => exact hnone tail rfl hc ht
      | cons argument arguments => exact hsome tail argument arguments rfl hc ht
    rw [Option.isSome_map, ih, directives]
    exact hplain

end Format
