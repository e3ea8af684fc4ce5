import Messagebus.Bus
import Messagebus.Lib.Framing

namespace Messagebus.Proofs.Codec
open Framing

/-- The encoder writes framed pairs between the two sentinels. -/
theorem toZmsg_framed (message : Message) :
    toZmsg message = metadataStart ::
      (writePairs message.metaData.entries ++ metadataEnd :: message.userData) := by
  have hpairs : ∀ entries : List (Bytes × Bytes),
      entries.flatMap (fun pair => [pair.1, pair.2]) = writePairs entries := by
    intro entries
    induction entries with
    | nil => rfl
    | cons pair entries ih => simp [writePairs, ih]
  simp [toZmsg, hpairs]

theorem userDataLoop_append (msg : Zmsg) (userData : UserData) :
    userDataLoop msg userData = userData ++ msg := by
  induction msg generalizing userData with
  | nil => simp [userDataLoop]
  | cons item msg ih => simp [userDataLoop, ih]

/-- The loop over keys and values reads framed pairs into the map, and meets a
missing value frame exactly where the pairs cannot be read. -/
theorem metaDataLoop_readPairs (msg : Zmsg) (metaData : MetaData) :
    metaDataLoop msg metaData =
      match readPairs metadataEnd msg with
      | some (pairs, rest) => .ok (metaData.emplaceAll pairs, rest)
      | none => .error .nullFrame := by
  induction msg, metaData using metaDataLoop.induct with
  | case1 metaData => rfl
  | case2 metaData => simp [metaDataLoop, readPairs]
  | case3 key metaData hkey => simp [metaDataLoop, readPairs, hkey]
  | case4 value msg metaData => simp [metaDataLoop, readPairs]
  | case5 key value msg metaData hkey ih =>
    rw [readPairs_pair value msg hkey]
    simp only [metaDataLoop, hkey, if_false, ih]
    cases readPairs metadataEnd msg with
    | none => rfl
    | some r => rfl

/-- Decoding behind the opening sentinel, by what the framed pairs read as. -/
theorem fromZmsg_start (msg : Zmsg) :
    fromZmsg (metadataStart :: msg) =
      match readPairs metadataEnd msg with
      | some (pairs, rest) => .ok ⟨SortedMap.empty.emplaceAll pairs, rest⟩
      | none => .error .nullFrame := by
  simp only [fromZmsg, if_true, metaDataLoop_readPairs]
  cases readPairs metadataEnd msg with
  | none => rfl
  | some r => simp [userDataLoop_append, bind, Except.bind, pure, Except.pure]

/-- A message of the old format is user data throughout. -/
theorem fromZmsg_plain {key : Frame} (msg : Zmsg) (h : key ≠ metadataStart) :
    fromZmsg (key :: msg) = .ok ⟨.empty, key :: msg⟩ := by
  simp [fromZmsg, h, userDataLoop_append, pure, Except.pure]

/-- The entries which a decoder sees of an encoded message: those up to the
first key that reads as the closing sentinel. -/
def visible (metaData : MetaData) : List (Bytes × Bytes) :=
  metaData.entries.takeWhile (fun pair => pair.1 ≠ metadataEnd)

/-- Encoded messages always decode, and the metadata that comes back depends
on the metadata that went in only. -/
theorem fromZmsg_toZmsg (message : Message) :
    ∃ rest, fromZmsg (toZmsg message) =
      .ok ⟨SortedMap.empty.emplaceAll (visible message.metaData), rest⟩ := by
  obtain ⟨tail, ht⟩ := readPairs_written metadataEnd message.metaData.entries message.userData
  refine ⟨tail, ?_⟩
  rw [toZmsg_framed, fromZmsg_start, ht]
  rfl

theorem decoded_entries {message decoded : Message}
    (h : fromZmsg (toZmsg message) = .ok decoded) :
    decoded.metaData.entries = visible message.metaData := by
  obtain ⟨rest, hr⟩ := fromZmsg_toZmsg message
  rw [hr] at h
  cases h
  have hsub := List.takeWhile_sublist (l := message.metaData.entries)
    (fun pair => decide (pair.1 ≠ metadataEnd))
  exact SortedMap.emplaceAll_increasing .empty (visible message.metaData)
    (message.metaData.sorted.sublist hsub)

theorem fromZmsg_toZmsg_exact {message : Message}
    (h : message.metaData.find metadataEnd = none) : fromZmsg (toZmsg message) = .ok message := by
  have hkeys := (SortedMap.find_eq_none_iff message.metaData metadataEnd).mp h
  rw [toZmsg_framed, fromZmsg_start, readPairs_writePairs message.userData hkeys]
  simp only [SortedMap.emplaceAll_entries]

/-- No decoder output has the closing sentinel as a key. -/
theorem fromZmsg_no_end {msg : Zmsg} {message : Message} (h : fromZmsg msg = .ok message) :
    message.metaData.find metadataEnd = none := by
  cases msg with
  | nil =>
    cases h
    rfl
  | cons key msg =>
    by_cases hkey : key = metadataStart
    · subst hkey
      rw [fromZmsg_start] at h
      cases hr : readPairs metadataEnd msg with
      | none => simp [hr] at h
      | some r =>
        simp only [hr, Except.ok.injEq] at h
        subst h
        have hnone : r.1.find? (fun pair => pair.1 = metadataEnd) = none := by
          simpa using readPairs_keys hr
        rw [SortedMap.find_emplaceAll, hnone]
        rfl
    · rw [fromZmsg_plain msg hkey] at h
      cases h
      rfl

/-- `__METADATA_END` comes before `_correlationId`, so that a message which is cut off
there has lost its id. -/
theorem decoded_with_id {message decoded : Message} {id : Bytes}
    (hd : fromZmsg (toZmsg message) = .ok decoded) (hid : decoded.correlationId = some id) :
    decoded = message := by
  have hm := SortedMap.mem_of_find hid
  rw [decoded_entries hd] at hm
  have hexact : message.metaData.find metadataEnd = none := by
    cases hf : message.metaData.find metadataEnd with
    | none => rfl
    | some value =>
      have hlt : Message.CORRELATION_ID < metadataEnd :=
        SortedMap.lt_of_mem_takeWhile hm (SortedMap.mem_of_find hf) (by simp)
      exact absurd hlt (by decide)
  rw [fromZmsg_toZmsg_exact hexact] at hd
  cases hd
  rfl

/-- The round trip is exact for the messages without a `__METADATA_END` key and
for no others. The second part is the frame property: whatever the user data,
the same metadata comes back. -/
theorem codec_round_trip (message : Message) (userData : UserData) :
    (fromZmsg (toZmsg message) = .ok message ↔ message.metaData.find metadataEnd = none) ∧
      ∃ metaData rest rest',
        fromZmsg (toZmsg message) = .ok ⟨metaData, rest⟩ ∧
        fromZmsg (toZmsg ⟨message.metaData, userData⟩) = .ok ⟨metaData, rest'⟩ := by
  obtain ⟨rest, hr⟩ := fromZmsg_toZmsg message
  obtain ⟨rest', hr'⟩ := fromZmsg_toZmsg ⟨message.metaData, userData⟩
  exact ⟨⟨fromZmsg_no_end, fromZmsg_toZmsg_exact⟩, _, rest, rest', hr, hr'⟩

end Messagebus.Proofs.Codec
