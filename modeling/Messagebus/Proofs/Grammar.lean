import Messagebus.Proofs.Codec

namespace Messagebus.Proofs.Grammar
open Framing

/-- What a list of frames stands for. Without the opening sentinel it is user
data throughout. Behind it there are pairs, of which the first with a key
counts, and behind the closing sentinel the user data; values and user data
may be any frames, the sentinels included. -/
inductive Parses : Zmsg → Message → Prop where
  | plain {frames : Zmsg} (unmarked : frames.head? ≠ some metadataStart) :
      Parses frames ⟨.empty, frames⟩
  | framed {rest : Zmsg} {pairs : List (Frame × Frame)} {message : Message}
      (reads : Reads metadataEnd rest pairs message.userData)
      (first : ∀ key, message.metaData.find key =
        (pairs.find? (fun pair => pair.1 = key)).map Prod.snd) :
      Parses (metadataStart :: rest) message

theorem fromZmsg_unmarked {frames : Zmsg} (h : frames.head? ≠ some metadataStart) :
    fromZmsg frames = .ok ⟨.empty, frames⟩ := by
  cases frames with
  | nil => rfl
  | cons key msg =>
    apply Codec.fromZmsg_plain msg
    simpa using h

/-- What is decoded behind the opening sentinel is what reads there. -/
theorem fromZmsg_framed {rest : Zmsg} {message : Message} :
    fromZmsg (metadataStart :: rest) = .ok message ↔
      ∃ pairs, Reads metadataEnd rest pairs message.userData ∧
        SortedMap.empty.emplaceAll pairs = message.metaData := by
  rw [Codec.fromZmsg_start]
  constructor
  · intro h
    cases hr : readPairs metadataEnd rest with
    | none => simp [hr] at h
    | some r =>
      simp only [hr, Except.ok.injEq] at h
      subst h
      exact ⟨r.1, readPairs_iff.mp hr, rfl⟩
  · intro h
    obtain ⟨pairs, hreads, hm⟩ := h
    simp only [readPairs_iff.mpr hreads, hm]

/-- A message is decoded from frames exactly if the frames stand for it. -/
theorem fromZmsg_iff (frames : Zmsg) (message : Message) :
    fromZmsg frames = .ok message ↔ Parses frames message := by
  constructor
  · intro h
    by_cases hstart : frames.head? = some metadataStart
    · obtain ⟨rest, rfl⟩ := List.head?_eq_some_iff.mp hstart
      obtain ⟨pairs, hreads, hm⟩ := fromZmsg_framed.mp h
      refine .framed hreads ?_
      intro key
      rw [← hm, SortedMap.find_emplaceAll, SortedMap.find_empty, Option.none_or]
    · rw [fromZmsg_unmarked hstart] at h
      cases h
      exact .plain hstart
  · intro h
    cases h with
    | plain unmarked => exact fromZmsg_unmarked unmarked
    | @framed rest pairs message reads first =>
      apply fromZmsg_framed.mpr
      refine ⟨pairs, reads, SortedMap.ext_find ?_⟩
      intro key
      rw [first, SortedMap.find_emplaceAll, SortedMap.find_empty, Option.none_or]

end Messagebus.Proofs.Grammar
