import Mathlib.Data.List.Basic

namespace GetOpt

variable {α : Type}

/-- `takes` says which letters are options and which of these have an argument. -/
structure Syntax (α : Type) where
  dash : α
  takes : α → Option Bool
  dash_free : takes dash = none

/-- What one call has found. -/
inductive Found (α : Type) where
  | flag (letter : α)
  | valued (letter : α) (argument : List α)
  | missing (letter : α)
  | unknown (letter : α)
deriving DecidableEq

def Found.correct : Found α → Bool
  | .flag _ | .valued _ _ => true
  | .missing _ | .unknown _ => false

/-- The letter is of the kind that the call has found. -/
def Found.Fits (s : Syntax α) : Found α → Prop
  | .flag c => s.takes c = some false
  | .valued c _ | .missing c => s.takes c = some true
  | .unknown c => s.takes c = none

/-- The letters of one word, and the one whose argument is the next word. -/
def letters (s : Syntax α) : List α → List (Found α) × Option α
  | [] => ([], none)
  | c :: cs =>
    match s.takes c with
    | none => (.unknown c :: (letters s cs).1, (letters s cs).2)
    | some false => (.flag c :: (letters s cs).1, (letters s cs).2)
    | some true => if cs.isEmpty then ([], some c) else ([.valued c cs], none)

section Letters

variable {s : Syntax α}

theorem letters_fits (s : Syntax α) (word : List α) :
    (∀ f ∈ (letters s word).1, f.Fits s) ∧ ∀ c ∈ (letters s word).2, s.takes c = some true := by
  induction word with
  | nil => simp [letters]
  | cons c cs ih =>
    cases hc : s.takes c with
    | none => simpa [letters, hc, Found.Fits] using ih
    | some takes =>
      cases takes with
      | false => simpa [letters, hc, Found.Fits] using ih
      | true =>
        cases cs with
        | nil => simp [letters, hc]
        | cons d ds => simp [letters, hc, Found.Fits]

end Letters

/-- A command line by the conventions. -/
inductive Line (α : Type) where
  | done
  | dashes (operands : List (List α))
  | stop (word : List α) (operands : List (List α))
  | flags (c : α) (cs : List α) (line : Line α)
  | attached (cs : List α) (c : α) (argument : List α) (line : Line α)
  | separate (cs : List α) (c : α) (argument : List α) (line : Line α)
  | operand (word : List α) (line : Line α)

namespace Line

def found : Line α → List (Found α)
  | done | dashes _ | stop _ _ => []
  | flags c cs line => (c :: cs).map .flag ++ line.found
  | attached cs c argument line | separate cs c argument line =>
    cs.map .flag ++ .valued c argument :: line.found
  | operand _ line => line.found

def operands : Line α → List (List α)
  | done => []
  | dashes operands => operands
  | stop word operands => word :: operands
  | flags _ _ line | attached _ _ _ line | separate _ _ _ line => line.operands
  | operand word line => word :: line.operands

end Line

variable [DecidableEq α]

/-- A dash alone is no option. -/
def Syntax.isOption (s : Syntax α) : List α → Bool
  | c :: _ :: _ => c = s.dash
  | _ => false

/-- Words that are no options are skipped if they may be permuted, and else end the
options. -/
def scan (s : Syntax α) (permute : Bool) :
    List (List α) → Option α → List (Found α) × List (List α)
  | [], none => ([], [])
  | [], some c => ([.missing c], [])
  | w :: ws, some c => (.valued c w :: (scan s permute ws none).1, (scan s permute ws none).2)
  | w :: ws, none =>
    if w = [s.dash, s.dash] then ([], ws)
    else if s.isOption w then
      ((letters s w.tail).1 ++ (scan s permute ws (letters s w.tail).2).1,
        (scan s permute ws (letters s w.tail).2).2)
    else if permute then ((scan s permute ws none).1, w :: (scan s permute ws none).2)
    else ([], w :: ws)

variable {s : Syntax α} {permute : Bool}

theorem scan_fits (words : List (List α)) {pending : Option α}
    (h : ∀ c ∈ pending, s.takes c = some true) :
    ∀ f ∈ (scan s permute words pending).1, f.Fits s := by
  induction words generalizing pending with
  | nil =>
    cases pending with
    | none => simp [scan]
    | some c => simpa [scan, Found.Fits] using h
  | cons w ws ih =>
    have hnone : ∀ f ∈ (scan s permute ws none).1, f.Fits s := ih (by simp)
    cases pending with
    | some c =>
      intro f hf
      rcases List.mem_cons.mp hf with rfl | hf
      · exact h c rfl
      · exact hnone f hf
    | none =>
      rw [scan]
      split_ifs with hdashes hoption hpermute
      · simp
      · intro f hf
        rcases List.mem_append.mp hf with hf | hf
        · exact (letters_fits s w.tail).1 f hf
        · exact ih (letters_fits s w.tail).2 f hf
      · exact hnone
      · simp

end GetOpt
