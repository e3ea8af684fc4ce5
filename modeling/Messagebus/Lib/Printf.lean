import Mathlib.Data.Fin.Basic
import Mathlib.Data.List.Basic

namespace Printf

abbrev Byte := Fin 256

def percent : Byte := ⟨37, by decide⟩

/-- Why an expansion is not defined: a directive reads an argument that was not
passed, or there is no such directive. -/
inductive Undefined where
  | missingArgument
  | noDirective
deriving DecidableEq

/-- How far a directive has been read. -/
inductive Place where
  | start
  | flags
  | width
  | dot
  | precision
  | length

/-- What the next character of a directive is. -/
inductive Part where
  | literal
  | within (place : Place)
  | argument
  | unknown

def flagCharacters : List Char := ['-', '+', ' ', '#', '0']

def digits : List Char := ['0', '1', '2', '3', '4', '5', '6', '7', '8', '9']

def lengthModifiers : List Char := ['h', 'l', 'j', 'z', 't', 'L']

def conversions : List Char :=
  ['d', 'i', 'o', 'u', 'x', 'X', 'f', 'F', 'e', 'E', 'g', 'G', 'a', 'A', 'c', 's', 'p', 'n']

/-- A directive ends with its conversion, which reads an argument, as `*` does before
it. Only a second percent sign right behind the first stands for itself. -/
def Place.ending (c : Char) : Part :=
  if c ∈ conversions then .argument
  else if c ∈ lengthModifiers then .within .length
  else .unknown

def Place.read : Place → Char → Part
  | .start, c =>
    if c = '%' then .literal
    else if c ∈ flagCharacters then .within .flags
    else if c ∈ digits then .within .width
    else if c = '*' then .argument
    else if c = '.' then .within .dot
    else ending c
  | .flags, c =>
    if c ∈ flagCharacters then .within .flags
    else if c ∈ digits then .within .width
    else if c = '*' then .argument
    else if c = '.' then .within .dot
    else ending c
  | .width, c =>
    if c ∈ digits then .within .width
    else if c = '.' then .within .dot
    else ending c
  | .dot, c =>
    if c ∈ digits then .within .precision
    else if c = '*' then .argument
    else ending c
  | .precision, c => if c ∈ digits then .within .precision else ending c
  | .length, c => ending c

/-- The expansion of the rest of a text, from within a directive or outside of any. -/
def expandFrom : Option Place → List Byte → Except Undefined (List Byte)
  | none, [] => .ok []
  | none, b :: text =>
    if b = percent then expandFrom (some .start) text
    else (expandFrom none text).map fun rest => b :: rest
  | some _, [] => .error .noDirective
  | some place, b :: text =>
    match place.read (Char.ofNat b.val) with
    | .literal => (expandFrom none text).map fun rest => b :: rest
    | .within next => expandFrom (some next) text
    | .argument => .error .missingArgument
    | .unknown => .error .noDirective

def expand (text : List Byte) : Except Undefined (List Byte) := expandFrom none text

theorem expandFrom_plain (b : Byte) (text : List Byte) (h : b ≠ percent) :
    expandFrom none (b :: text) = (expandFrom none text).map fun rest => b :: rest := by
  simp [expandFrom, h]

theorem expandFrom_percent (text : List Byte) :
    expandFrom none (percent :: text) = expandFrom (some .start) text := by
  simp [expandFrom]

/-- What comes before the first percent sign goes out as it is. -/
theorem expandFrom_append (plain text : List Byte) (h : percent ∉ plain) :
    expandFrom none (plain ++ text) = (expandFrom none text).map fun rest => plain ++ rest := by
  induction plain with
  | nil =>
    rw [List.nil_append]
    cases expandFrom none text <;> rfl
  | cons b plain ih =>
    rw [List.mem_cons, not_or] at h
    rw [List.cons_append, expandFrom_plain b _ (Ne.symm h.1), ih h.2]
    cases expandFrom none text <;> rfl

/-- No expansion is longer than its text. -/
theorem expandFrom_length_le {place : Option Place} {text out : List Byte}
    (h : expandFrom place text = .ok out) : out.length ≤ text.length := by
  induction text generalizing place out with
  | nil =>
    cases place with
    | none =>
      cases h
      exact le_refl _
    | some place => cases h
  | cons b text ih =>
    have hmap : ∀ {next : Option Place},
        (expandFrom next text).map (fun rest => b :: rest) = .ok out →
        out.length ≤ (b :: text).length := by
      intro next h
      cases hr : expandFrom next text with
      | error fault => simp [hr, Except.map] at h
      | ok rest =>
        rw [hr] at h
        cases h
        exact Nat.succ_le_succ (ih hr)
    cases place with
    | none =>
      by_cases hb : b = percent
      · subst hb
        rw [expandFrom_percent] at h
        exact Nat.le_succ_of_le (ih h)
      · rw [expandFrom_plain b text hb] at h
        exact hmap h
    | some place =>
      simp only [expandFrom] at h
      split at h
      · exact hmap h
      · exact Nat.le_succ_of_le (ih h)
      · cases h
      · cases h

/-- A text is its own expansion exactly if there is no percent sign in it. -/
theorem expand_eq_self_iff (text : List Byte) : expand text = .ok text ↔ percent ∉ text := by
  unfold expand
  induction text with
  | nil => exact iff_of_true rfl (List.not_mem_nil)
  | cons b text ih =>
    by_cases hb : b = percent
    · subst hb
      refine iff_of_false ?_ (by simp)
      intro h
      rw [expandFrom_percent] at h
      exact absurd (expandFrom_length_le h) (Nat.not_succ_le_self _)
    · rw [expandFrom_plain b text hb, List.mem_cons, not_or]
      constructor
      · intro h
        refine ⟨Ne.symm hb, ih.mp ?_⟩
        cases hr : expandFrom none text with
        | error fault => simp [hr, Except.map] at h
        | ok rest =>
          rw [hr] at h
          cases h
          rfl
      · intro h
        rw [ih.mpr h.2]
        rfl

end Printf
