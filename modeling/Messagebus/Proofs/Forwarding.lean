import Messagebus.Proofs.Grammar

namespace Messagebus.Proofs.Forwarding
open Framing

/-- Frames as the encoder writes them: the pairs between the sentinels in the
order of their keys, none of which reads as the closing one. -/
def Canonical (frames : Zmsg) : Prop :=
  ∃ (pairs : List (Frame × Frame)) (userData : UserData),
    frames = metadataStart :: (writePairs pairs ++ metadataEnd :: userData) ∧
      pairs.Pairwise (fun pair pair' => pair.1 < pair'.1) ∧
      ∀ pair ∈ pairs, pair.1 ≠ metadataEnd

/-- What the encoder writes of a message that it can represent is canonical. -/
theorem canonical_toZmsg {message : Message} (h : message.metaData.find metadataEnd = none) :
    Canonical (toZmsg message) :=
  ⟨message.metaData.entries, message.userData, Codec.toZmsg_framed message,
    message.metaData.sorted, (SortedMap.find_eq_none_iff _ _).mp h⟩

/-- Canonical frames are the encoding of a message that can be represented, and of
no other. -/
theorem canonical_iff (frames : Zmsg) :
    Canonical frames ↔
      ∃ message, toZmsg message = frames ∧ message.metaData.find metadataEnd = none := by
  constructor
  · intro h
    obtain ⟨pairs, userData, rfl, hsorted, hkeys⟩ := h
    refine ⟨⟨⟨pairs, hsorted⟩, userData⟩, Codec.toZmsg_framed _, ?_⟩
    exact (SortedMap.find_eq_none_iff _ _).mpr hkeys
  · intro h
    obtain ⟨message, rfl, hend⟩ := h
    exact canonical_toZmsg hend

/-- A received message survives being sent on, and arrives in the very frames that
it came in exactly if those are canonical. -/
theorem forwarded_losslessly {frames : Zmsg} {message : Message}
    (h : fromZmsg frames = .ok message) :
    fromZmsg (toZmsg message) = .ok message ∧
      (toZmsg message = frames ↔ Canonical frames) := by
  have hend := Codec.fromZmsg_no_end h
  refine ⟨Codec.fromZmsg_toZmsg_exact hend, ?_⟩
  constructor
  · intro he
    rw [← he]
    exact canonical_toZmsg hend
  · intro hc
    obtain ⟨origin, rfl, horigin⟩ := (canonical_iff frames).mp hc
    rw [Codec.fromZmsg_toZmsg_exact horigin] at h
    cases h
    rfl

/-- Keys out of order, one of them twice, and no closing sentinel. -/
theorem disorder_forwarded :
    ∃ message, fromZmsg [metadataStart, [2], [7], [1], [8], [2], [9]] = .ok message ∧
      fromZmsg (toZmsg message) = .ok message ∧
      (toZmsg message = [metadataStart, [2], [7], [1], [8], [2], [9]] ↔
        Canonical [metadataStart, [2], [7], [1], [8], [2], [9]]) :=
  ⟨_, rfl, forwarded_losslessly rfl⟩

end Messagebus.Proofs.Forwarding
