import Messagebus.Frames
import Messagebus.Lib.Frame
import Messagebus.Proofs.Grammar

namespace Messagebus.Proofs.FrameLedger
open Frame Frames Framing

/-- A frame that is popped, read and destroyed. -/
theorem pop_read_destroy {β : Type} (frame : Frame) (k : Frame → Option Zframe → FrameOp β)
    (h : Handles) :
    (do
      let item ← zmsgPop frame
      let data ← zframeData item
      let item ← zframeDestroy item
      k data item : FrameOp β) h = k frame none h.pass := by
  simp only [bind, EStateM.bind, zmsgPop, zframeData, zframeDestroy, h.mem_issue, if_true, dif_pos]
  rfl

/-- A frame that is popped and only read. -/
theorem pop_read {β : Type} (frame : Frame) (k : Frame → FrameOp β) (h : Handles) :
    (do
      let item ← zmsgPop frame
      let data ← zframeData item
      k data : FrameOp β) h = k frame h.issue := by
  simp only [bind, EStateM.bind, zmsgPop, zframeData, h.mem_issue, if_true]

theorem metaDataLoop_end (msg : Zmsg) (metaData : MetaData) (h : Handles) :
    Frames.metaDataLoop (metadataEnd :: msg) metaData h = .ok (metaData, msg) h.pass := by
  cases msg with
  | nil =>
    unfold Frames.metaDataLoop
    rw [pop_read_destroy metadataEnd fun key _ => if key = metadataEnd then _ else _, if_pos rfl]
    rfl
  | cons value msg =>
    unfold Frames.metaDataLoop
    rw [pop_read_destroy metadataEnd fun key _ => if key = metadataEnd then _ else _, if_pos rfl]
    rfl

/-- The handle of a key is given back, the one of its value is kept. -/
theorem metaDataLoop_pair {key : Frame} (value : Frame) (msg : Zmsg) (metaData : MetaData)
    (h : Handles) (hkey : key ≠ metadataEnd) :
    Frames.metaDataLoop (key :: value :: msg) metaData h =
      Frames.metaDataLoop msg (metaData.emplace key value) h.pass.issue := by
  conv_lhs => unfold Frames.metaDataLoop
  rw [pop_read_destroy key fun key item => if key = metadataEnd then _ else _, if_neg hkey]
  exact pop_read value (fun value => do
    let _ ← zframeDestroy none
    Frames.metaDataLoop msg (metaData.emplace key value)) h.pass

theorem metaDataLoop_lone {key : Frame} (metaData : MetaData) (h : Handles)
    (hkey : key ≠ metadataEnd) :
    Frames.metaDataLoop [key] metaData h = .error .nullFrame h.pass := by
  unfold Frames.metaDataLoop
  rw [pop_read_destroy key fun key _ => if key = metadataEnd then _ else _, if_neg hkey]
  rfl

/-- The handles of the values of `n` pairs that are popped from `first` on. -/
def valueHandles (first n : ℕ) : List ℕ := (List.range n).map fun i => first + 2 * i + 1

theorem valueHandles_succ (first n : ℕ) :
    valueHandles first (n + 1) = (first + 1) :: valueHandles (first + 2) n := by
  unfold valueHandles
  rw [List.range_succ_eq_map, List.map_cons, List.map_map]
  refine congrArg _ (List.map_congr_left ?_)
  intro i _
  simp only [Function.comp_apply, Nat.succ_eq_add_one]
  omega

/-- The loop reads the pairs that are there and keeps the handles of their values. -/
theorem metaDataLoop_reads {msg : Zmsg} {pairs : List (Frame × Frame)} {rest : Zmsg}
    (metaData : MetaData) (h : Handles) (hr : readPairs metadataEnd msg = some (pairs, rest)) :
    ∃ h', Frames.metaDataLoop msg metaData h = .ok (metaData.emplaceAll pairs, rest) h' ∧
      h'.owned = h.owned ++ valueHandles h.issued pairs.length := by
  induction msg using readPairs.induct metadataEnd generalizing metaData h pairs with
  | case1 =>
    cases hr
    exact ⟨h, rfl, by simp [valueHandles]⟩
  | case2 =>
    rw [readPairs_stop] at hr
    cases hr
    exact ⟨h.pass, metaDataLoop_end [] metaData h, by simp [valueHandles]⟩
  | case3 key hkey => simp [readPairs, hkey] at hr
  | case4 value msg =>
    rw [readPairs_stop] at hr
    cases hr
    exact ⟨h.pass, metaDataLoop_end _ metaData h, by simp [valueHandles]⟩
  | case5 key value msg hkey ih =>
    rw [readPairs_pair value msg hkey] at hr
    obtain ⟨r, hrest, he⟩ := Option.map_eq_some_iff.mp hr
    obtain ⟨rfl, rfl⟩ := Prod.mk.inj he
    obtain ⟨h', hloop, howned⟩ := ih (metaData.emplace key value) h.pass.issue hrest
    refine ⟨h', ?_, ?_⟩
    · rw [metaDataLoop_pair value msg metaData h hkey, hloop, SortedMap.emplaceAll_cons]
    · rw [howned, List.length_cons, valueHandles_succ]
      simp

theorem metaDataLoop_fails {msg : Zmsg} (metaData : MetaData) (h : Handles)
    (hr : readPairs metadataEnd msg = none) :
    ∃ h', Frames.metaDataLoop msg metaData h = .error .nullFrame h' := by
  induction msg using readPairs.induct metadataEnd generalizing metaData h with
  | case1 => cases hr
  | case2 => simp [readPairs] at hr
  | case3 key hkey => exact ⟨h.pass, metaDataLoop_lone metaData h hkey⟩
  | case4 value msg => simp [readPairs] at hr
  | case5 key value msg hkey ih =>
    rw [readPairs_pair value msg hkey, Option.map_eq_none_iff] at hr
    rw [metaDataLoop_pair value msg metaData h hkey]
    exact ih _ _ hr

/-- The loop over the user data gives back every frame that it takes. -/
theorem userDataLoop_owned (msg : Zmsg) (userData : UserData) (h : Handles) :
    ∃ h', Frames.userDataLoop msg userData h = .ok (userData ++ msg) h' ∧ h'.owned = h.owned := by
  induction msg generalizing userData h with
  | nil => exact ⟨h, by rw [List.append_nil]; rfl, rfl⟩
  | cons frame msg ih =>
    obtain ⟨h', hloop, howned⟩ := ih (userData ++ [frame]) h.pass
    refine ⟨h', ?_, by rw [howned, Handles.pass_owned]⟩
    unfold Frames.userDataLoop
    rw [pop_read_destroy frame fun data _ => Frames.userDataLoop msg (userData ++ [data]), hloop,
      List.append_assoc, List.singleton_append]

/-- The first frame is given back whichever way the decoder goes. -/
theorem fromZmsg_cons (frame : Frame) (msg : Zmsg) (h : Handles) :
    Frames.fromZmsg (frame :: msg) h =
      (if frame = metadataStart then do
        let (metaData, msg) ← Frames.metaDataLoop msg .empty
        return ⟨metaData, ← Frames.userDataLoop msg []⟩
      else
        return ⟨.empty, ← Frames.userDataLoop msg [frame]⟩ : FrameOp Message) h.pass :=
  pop_read_destroy frame (fun key _ => (if key = metadataStart then do
      let (metaData, msg) ← Frames.metaDataLoop msg .empty
      return ⟨metaData, ← Frames.userDataLoop msg []⟩
    else
      return ⟨.empty, ← Frames.userDataLoop msg [key]⟩ : FrameOp Message)) h

theorem fromZmsg_unmarked {frames : Zmsg} (h : Handles) (hstart : frames.head? ≠ some metadataStart) :
    ∃ h', Frames.fromZmsg frames h = .ok ⟨.empty, frames⟩ h' ∧ h'.owned = h.owned := by
  cases frames with
  | nil => exact ⟨h, rfl, rfl⟩
  | cons frame msg =>
    have hne : frame ≠ metadataStart := by simpa using hstart
    obtain ⟨h', hloop, howned⟩ := userDataLoop_owned msg [frame] h.pass
    refine ⟨h', ?_, by rw [howned, Handles.pass_owned]⟩
    rw [fromZmsg_cons, if_neg hne]
    exact bind_of_ok hloop

/-- Of framed pairs the decoder keeps the values' handles. -/
theorem fromZmsg_reads {msg : Zmsg} {pairs : List (Frame × Frame)} {rest : Zmsg} (h : Handles)
    (hr : readPairs metadataEnd msg = some (pairs, rest)) :
    ∃ h', Frames.fromZmsg (metadataStart :: msg) h =
        .ok ⟨SortedMap.empty.emplaceAll pairs, rest⟩ h' ∧
      h'.owned = h.owned ++ valueHandles (h.issued + 1) pairs.length := by
  obtain ⟨h₁, hloop, howned⟩ := metaDataLoop_reads .empty h.pass hr
  obtain ⟨h₂, hloop', howned'⟩ := userDataLoop_owned rest [] h₁
  refine ⟨h₂, ?_, by rw [howned', howned, Handles.pass_owned, Handles.pass_issued]⟩
  rw [fromZmsg_cons, if_pos rfl]
  rw [bind_of_ok hloop]
  exact bind_of_ok hloop'

theorem fromZmsg_fails {msg : Zmsg} (h : Handles) (hr : readPairs metadataEnd msg = none) :
    ∃ h', Frames.fromZmsg (metadataStart :: msg) h = .error .nullFrame h' := by
  obtain ⟨h', hloop⟩ := metaDataLoop_fails .empty h.pass hr
  refine ⟨h', ?_⟩
  rw [fromZmsg_cons, if_pos rfl]
  exact bind_of_error hloop

/-- Apart from the handles this is the decoder of the bus. It never reads or destroys
a frame that it has destroyed before. -/
theorem fromZmsg_refines (frames : Zmsg) (h : Handles) :
    match Messagebus.fromZmsg frames with
    | .ok message => ∃ h', Frames.fromZmsg frames h = .ok message h'
    | .error _ => ∃ h', Frames.fromZmsg frames h = .error .nullFrame h' := by
  by_cases hstart : frames.head? = some metadataStart
  · obtain ⟨msg, rfl⟩ := List.head?_eq_some_iff.mp hstart
    rw [Codec.fromZmsg_start]
    cases hr : readPairs metadataEnd msg with
    | none => exact fromZmsg_fails h hr
    | some r =>
      obtain ⟨h', hok, _⟩ := fromZmsg_reads h hr
      exact ⟨h', hok⟩
  · rw [Grammar.fromZmsg_unmarked hstart]
    obtain ⟨h', hok, _⟩ := fromZmsg_unmarked h hstart
    exact ⟨h', hok⟩

/-- Every handle that was handed out has been destroyed exactly once, so that none is
owned any more. -/
def Settled (h : Handles) : Prop := h.owned = [] ∧ ∀ i < h.issued, h.released.count i = 1

/-- There is no pair behind the opening sentinel. -/
def Pairless (frames : Zmsg) : Prop :=
  frames.head? = some metadataStart → ∀ key, frames[1]? = some key → key = metadataEnd

theorem pairless_reads {msg : Zmsg} {pairs : List (Frame × Frame)} {rest : Zmsg}
    (hr : readPairs metadataEnd msg = some (pairs, rest)) :
    Pairless (metadataStart :: msg) ↔ pairs = [] := by
  obtain ⟨hkeys, hmsg⟩ := readPairs_iff.mp hr
  cases pairs with
  | nil =>
    refine iff_of_true ?_ rfl
    intro _ key hk
    rcases hmsg with rfl | ⟨rfl, _⟩
    · simpa [writePairs] using hk.symm
    · simp [writePairs] at hk
  | cons pair pairs =>
    refine iff_of_false ?_ (by simp)
    intro hp
    refine hkeys pair List.mem_cons_self (hp rfl pair.1 ?_)
    rcases hmsg with rfl | ⟨rfl, _⟩
    · rfl
    · rfl

/-- A decoder that returns has given back every frame exactly if there was no pair
among them. -/
theorem destroyed_iff {frames : Zmsg} {message : Message} {h : Handles}
    (returns : Frames.fromZmsg frames .empty = .ok message h) : Settled h ↔ Pairless frames := by
  have hsettled : Settled h ↔ h.owned = [] :=
    ⟨And.left, fun hn => ⟨hn, h.owned_eq_nil_iff.mp hn⟩⟩
  rw [hsettled]
  by_cases hstart : frames.head? = some metadataStart
  · obtain ⟨msg, rfl⟩ := List.head?_eq_some_iff.mp hstart
    cases hr : readPairs metadataEnd msg with
    | none =>
      obtain ⟨h', hfail⟩ := fromZmsg_fails .empty hr
      cases returns.symm.trans hfail
    | some r =>
      obtain ⟨h', hok, howned⟩ := fromZmsg_reads .empty hr
      cases returns.symm.trans hok
      rw [pairless_reads hr, howned]
      simp [Handles.empty, valueHandles]
  · obtain ⟨h', hok, howned⟩ := fromZmsg_unmarked .empty hstart
    cases returns.symm.trans hok
    rw [howned]
    exact iff_of_true rfl fun hs => absurd hs hstart

theorem bare_sentinels_settled :
    ∃ (message : Message) (h : Handles),
      Frames.fromZmsg [metadataStart, metadataEnd, [1]] .empty = .ok message h ∧
        (Settled h ↔ Pairless [metadataStart, metadataEnd, [1]]) :=
  ⟨_, _, rfl, destroyed_iff rfl⟩

/-- The value frame of a single pair is never destroyed. -/
theorem value_frame_kept :
    ¬ (∀ (frames : Zmsg) (message : Message) (h : Handles),
        Frames.fromZmsg frames .empty = .ok message h → Settled h) ∧
      ∃ message h, Frames.fromZmsg [metadataStart, [1], [2], metadataEnd] .empty =
        .ok message h ∧ h.owned = [2] := by
  refine ⟨?_, _, _, rfl, rfl⟩
  intro hall
  have hs := hall [metadataStart, [1], [2], metadataEnd] _ _ rfl
  cases hs.1

end Messagebus.Proofs.FrameLedger
