import Messagebus.Proofs.Calls
import Messagebus.Proofs.Codec

namespace Messagebus.Proofs.HostileFrames
open Framing

/-- Metadata that breaks off after a key: behind `__METADATA_START` there is an
odd number of frames, and no frame in the place of a key is `__METADATA_END`. -/
def LoneKey (msg : Zmsg) : Prop :=
  ∃ rest, msg = metadataStart :: rest ∧ rest.length % 2 = 1 ∧
    ∀ i, rest[2 * i]? ≠ some metadataEnd

/-- The only way a decoding can go wrong is a null frame. -/
theorem fromZmsg_fault {msg : Zmsg} {fault : Fault} (h : fromZmsg msg = .error fault) :
    fault = .nullFrame ∧ LoneKey msg := by
  cases msg with
  | nil => cases h
  | cons key msg =>
    by_cases hkey : key = metadataStart
    · subst hkey
      rw [Codec.fromZmsg_start] at h
      cases hr : readPairs metadataEnd msg with
      | none =>
        simp only [hr, Except.error.injEq] at h
        exact ⟨h.symm, msg, rfl, (readPairs_none_iff metadataEnd msg).mp hr⟩
      | some r => simp [hr] at h
    · rw [Codec.fromZmsg_plain msg hkey] at h
      cases h

theorem fromZmsg_loneKey {msg : Zmsg} (h : LoneKey msg) : fromZmsg msg = .error .nullFrame := by
  obtain ⟨rest, rfl, hodd, hend⟩ := h
  have hnone := (readPairs_none_iff metadataEnd rest).mpr ⟨hodd, hend⟩
  rw [Codec.fromZmsg_start, hnone]

/-- What the decoder owes to its callers: a message, without touching a null
frame, so that both handlers get through with it. -/
def Survives (msg : Zmsg) : Prop :=
  ∃ message, fromZmsg msg = .ok message ∧
    ∀ (L : Type) (subject : Bytes) (c : Client L),
      (∃ handled c', listenerHandleMailbox subject msg c = .ok handled c') ∧
      (∃ handled c', listenerHandleStream subject msg c = .ok handled c')

theorem survives_of_decodes {msg : Zmsg} {message : Message} (h : fromZmsg msg = .ok message) :
    Survives msg := by
  refine ⟨message, h, ?_⟩
  intro L subject c
  rw [Calls.listenerHandleMailbox_eq subject c h, Calls.listenerHandleStream_eq subject c h,
    Calls.dispatchMailbox_eq]
  refine ⟨?_, ?_⟩
  · split
    · exact ⟨_, _, rfl⟩
    · cases c.bus.subscriptions.find subject with
      | none => exact ⟨_, _, rfl⟩
      | some listener => exact ⟨_, _, rfl⟩
  · cases c.bus.subscriptions.find subject with
    | none => exact ⟨_, _, rfl⟩
    | some listener => exact ⟨_, _, rfl⟩

/-- Received frames are survived unless their metadata breaks off after a key. -/
theorem survives_iff (msg : Zmsg) : Survives msg ↔ ¬ LoneKey msg := by
  constructor
  · intro h hlone
    obtain ⟨message, hm, _⟩ := h
    rw [fromZmsg_loneKey hlone] at hm
    cases hm
  · intro hlone
    cases hr : fromZmsg msg with
    | ok message => exact survives_of_decodes hr
    | error fault => exact absurd (fromZmsg_fault hr).2 hlone

/-- Two frames are enough to take the value of a frame that was never popped. -/
theorem lone_key_not_survived :
    ¬ (∀ msg : Zmsg, Survives msg) ∧
      fromZmsg [metadataStart, lit "_subject"] = .error .nullFrame := by
  refine ⟨?_, rfl⟩
  intro h
  obtain ⟨message, hm, _⟩ := h [metadataStart, lit "_subject"]
  cases hm

end Messagebus.Proofs.HostileFrames
