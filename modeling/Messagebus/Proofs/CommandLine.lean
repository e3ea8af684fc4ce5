import Messagebus.Tool
import Messagebus.Proofs.Dump

namespace Messagebus.Proofs.CommandLine
open Frame GetOpt Messagebus.Cli

variable {permute : Bool} {args operands : List Bytes} {s : Settings} {w w' : World}
  {f : Found (Fin 256)}

/-- What an option sets. -/
def apply (s : Settings) : Found (Fin 256) → Settings
  | .valued c argument =>
    if c = letter 'e' then { s with endpoint := argument }
    else if c = letter 's' then { s with subject := argument }
    else if c = letter 't' then { s with topic := argument }
    else if c = letter 'T' then { s with timeout := argument }
    else if c = letter 'q' then { s with queue := argument }
    else if c = letter 'd' then { s with destination := argument }
    else { s with type := argument }
  | _ => { s with doMetadata := false }

/-- What the tool says before it shows its usage. -/
def complaint : Found (Fin 256) → List Bytes
  | .missing c | .unknown c => [lit "Unrecognized option: -" ++ [c]]
  | _ => []

/-- The loop over the options goes on. -/
def accepted (f : Found (Fin 256)) : Bool := f.correct ∧ f ≠ .flag (letter 'h')

theorem flags_are :
    ∀ c, optionTakes optstring c = some false → c = letter 'h' ∨ c = letter 'x' := by
  decide +kernel

theorem valued_are : ∀ c, optionTakes optstring c = some true →
    c = letter 'e' ∨ c = letter 's' ∨ c = letter 't' ∨ c = letter 'T' ∨ c = letter 'q' ∨
      c = letter 'd' ∨ c = letter 'i' := by
  decide +kernel

theorem option_accepted (hf : f.Fits optionSyntax) (ha : accepted f = true) (s : Settings)
    (w : World) : option s f w = .ok (apply s f) w := by
  obtain ⟨hcorrect, hhelp⟩ := of_decide_eq_true ha
  cases f with
  | flag c =>
    rcases flags_are c hf with rfl | rfl
    · exact absurd rfl hhelp
    · rfl
  | valued c argument =>
    rcases valued_are c hf with rfl | rfl | rfl | rfl | rfl | rfl | rfl <;> rfl
  | missing c => cases hcorrect
  | unknown c => cases hcorrect

theorem option_refused (hf : f.Fits optionSyntax) (ha : accepted f = false) (s : Settings)
    (w : World) :
    option s f w = .error .exitFailure { w with err := w.err ++ complaint f ++ usageLines } := by
  cases f with
  | flag c =>
    rcases flags_are c hf with rfl | rfl
    · change EStateM.Result.error Stop.exitFailure { w with err := w.err ++ usageLines } = _
      simp [complaint]
    · cases ha
  | valued c argument => simp [accepted, Found.correct] at ha
  | missing c => rfl
  | unknown c => rfl

theorem options_accepted {found : List (Found (Fin 256))}
    (hf : ∀ f ∈ found, f.Fits optionSyntax) (ha : ∀ f ∈ found, accepted f = true) (s : Settings)
    (w : World) : options found s w = .ok (found.foldl apply s) w := by
  induction found generalizing s with
  | nil => rfl
  | cons f found ih =>
    rw [options,
      bind_of_ok (option_accepted (hf f List.mem_cons_self) (ha f List.mem_cons_self) s w)]
    exact ih (fun g hg => hf g (List.mem_cons_of_mem f hg))
      (fun g hg => ha g (List.mem_cons_of_mem f hg)) _

/-- The first option that is refused ends the loop. -/
theorem options_refused {before after : List (Found (Fin 256))}
    (hf : ∀ g ∈ before ++ f :: after, g.Fits optionSyntax)
    (hbefore : ∀ g ∈ before, accepted g = true) (ha : accepted f = false) (s : Settings)
    (w : World) : options (before ++ f :: after) s w =
      .error .exitFailure { w with err := w.err ++ complaint f ++ usageLines } := by
  induction before generalizing s with
  | nil =>
    exact bind_of_error (option_refused (hf f List.mem_cons_self) ha s w)
  | cons g before ih =>
    rw [List.cons_append, options, bind_of_ok
      (option_accepted (hf g List.mem_cons_self) (hbefore g List.mem_cons_self) s w)]
    exact ih (fun d hd => hf d (List.mem_cons_of_mem g hd))
      (fun d hd => hbefore d (List.mem_cons_of_mem g hd)) _

theorem all_or_first (found : List (Found (Fin 256))) :
    (∀ f ∈ found, accepted f = true) ∨ ∃ before f after, found = before ++ f :: after ∧
      (∀ g ∈ before, accepted g = true) ∧ accepted f = false := by
  cases h : found.find? (fun f => !accepted f) with
  | none =>
    left
    simpa using List.find?_eq_none.mp h
  | some f =>
    obtain ⟨hf, before, after, he, hbefore⟩ := List.find?_eq_some_iff_append.mp h
    right
    exact ⟨before, f, after, he, by simpa using hbefore, by simpa using hf⟩

theorem found_fits (permute : Bool) (args : List Bytes) :
    ∀ f ∈ (scan optionSyntax permute args none).1, f.Fits optionSyntax :=
  scan_fits args (by simp)

theorem commandLine_accepted
    (h : ∀ f ∈ (scan optionSyntax permute args none).1, accepted f = true) (w : World) :
    commandLine permute args w = .ok ((scan optionSyntax permute args none).1.foldl apply .default,
      (scan optionSyntax permute args none).2) w :=
  bind_of_ok (options_accepted (found_fits permute args) h .default w)

theorem commandLine_refused {before after : List (Found (Fin 256))}
    (he : (scan optionSyntax permute args none).1 = before ++ f :: after)
    (hbefore : ∀ g ∈ before, accepted g = true) (ha : accepted f = false) (w : World) :
    commandLine permute args w =
      .error .exitFailure { w with err := w.err ++ complaint f ++ usageLines } := by
  have hf := found_fits permute args
  rw [he] at hf
  apply bind_of_error
  rw [he]
  exact options_refused hf hbefore ha .default w

/-- Reading the command line does nothing but complain. -/
theorem commandLine_cases (permute : Bool) (args : List Bytes) (w : World) :
    (∃ s operands, commandLine permute args w = .ok (s, operands) w) ∨
      ∃ err, commandLine permute args w = .error .exitFailure { w with err := err } := by
  rcases all_or_first (scan optionSyntax permute args none).1 with
    hall | ⟨before, f, after, he, hb, ha⟩
  · exact Or.inl ⟨_, _, commandLine_accepted hall w⟩
  · exact Or.inr ⟨_, commandLine_refused he hb ha w⟩

end Messagebus.Proofs.CommandLine
