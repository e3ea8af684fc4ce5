import Messagebus.Cli
import Messagebus.Lib.Frame

namespace Messagebus.Proofs.Dump
open Frame Messagebus.Cli Printf

theorem dumpMetaData_eq (entries : List (Bytes × Bytes)) (buffer : Bytes) :
    dumpMetaData entries buffer = buffer ++ entries.flatMap metaDataLine := by
  induction entries generalizing buffer with
  | nil => simp [dumpMetaData]
  | cons pair entries ih => simp [dumpMetaData, ih, metaDataLine]

/-- The counter goes through as long as there are not more items than it can count. -/
theorem dumpUserData_eq (userData : UserData) {cpt : ℕ} (buffer : Bytes) (log : List Bytes)
    (h : cpt ≤ INT_MAX) :
    dumpUserData userData cpt buffer log =
      if cpt + userData.length ≤ INT_MAX then
        .ok (buffer ++ (userData.zipIdx cpt).flatMap fun p => userDataLine p.1 p.2) log
      else .error .overflow log := by
  induction userData generalizing cpt buffer with
  | nil =>
    rw [List.length_nil, Nat.add_zero, if_pos h]
    simp [dumpUserData, pure, EStateM.pure]
  | cons data userData ih =>
    by_cases hc : cpt = INT_MAX
    · have hlong : ¬ cpt + (data :: userData).length ≤ INT_MAX := by
        rw [hc, List.length_cons]
        omega
      rw [if_neg hlong]
      unfold dumpUserData
      rw [if_pos hc]
      rfl
    · have hstep : dumpUserData (data :: userData) cpt buffer log =
          dumpUserData userData (cpt + 1) (buffer ++ userDataLine data cpt) log := by
        simp [dumpUserData, hc, userDataLine]
      have hlength : cpt.succ + userData.length = cpt + (data :: userData).length := by
        rw [List.length_cons]
        omega
      rw [hstep, ih _ (Nat.lt_of_le_of_ne h hc), hlength, List.zipIdx_cons, List.flatMap_cons,
        List.append_assoc]

/-- The message is shown as it is, up to the first NUL, whatever has been logged before. -/
def ShownAsIs (msg : Message) : Prop :=
  ∀ log, dumpMessage msg log = .ok () (log ++ [cStr (shown msg)])

theorem dumpMessage_eq (msg : Message) (log : List Bytes) :
    dumpMessage msg log =
      if msg.userData.length ≤ INT_MAX then logInfo (cStr (shown msg)) log
      else .error .overflow log := by
  have hdata := dumpUserData_eq msg.userData
    (dumpMetaData msg.metaData.entries (separator ++ newline)) log (Nat.zero_le INT_MAX)
  rw [Nat.zero_add, dumpMetaData_eq] at hdata
  rw [dumpMessage, dumpMetaData_eq]
  by_cases hlen : msg.userData.length ≤ INT_MAX
  · rw [if_pos hlen] at hdata ⊢
    exact bind_of_ok hdata
  · rw [if_neg hlen] at hdata ⊢
    exact bind_of_error hdata

theorem logInfo_eq_iff (format : Bytes) (log : List Bytes) :
    logInfo format log = .ok () (log ++ [format]) ↔ percent ∉ format := by
  rw [← expand_eq_self_iff]
  unfold logInfo
  cases expand format with
  | ok text => simp
  | error why => simp

/-- A byte that ends a text or starts a directive. -/
def special (b : Byte) : Bool := b.val = 0 ∨ b = percent

theorem special_eq_nil {text : Bytes} (h : ∀ b ∈ text, special b = false) :
    text.filter special = [] := by
  rw [List.filter_eq_nil_iff]
  intro b hb
  rw [h b hb]
  exact Bool.false_ne_true

theorem number_plain (i : ℕ) : (lit (toString i)).filter special = [] := by
  apply special_eq_nil
  intro b hb
  obtain ⟨c, hc, rfl⟩ := List.mem_map.mp hb
  have hmem : c ∈ Nat.toDigits 10 i := by simpa [toString, Nat.toList_repr] using hc
  have hdigit := Nat.isDigit_of_mem_toDigits (by decide) (by decide) hmem
  have hrange : 48 ≤ c.toNat ∧ c.toNat ≤ 57 := by
    simpa [Char.isDigit, UInt32.le_iff_toNat_le] using hdigit
  have hbyte : (Fin.ofNat 256 c.toNat).val = c.toNat := Nat.mod_eq_of_lt (by omega)
  have hpercent : Fin.ofNat 256 c.toNat ≠ percent := by
    intro he
    have h37 : percent.val = c.toNat := he ▸ hbyte
    change 37 = c.toNat at h37
    omega
  exact decide_eq_false (not_or.mpr ⟨by omega, hpercent⟩)

/-- A text has a percent sign that counts if that is the first special byte. -/
theorem percent_cStr_iff (text : Bytes) :
    percent ∈ cStr text ↔ text.find? special = some percent := by
  unfold cStr
  induction text with
  | nil => simp
  | cons b text ih =>
    by_cases h0 : b = 0
    · simp [h0, special, percent]
    · by_cases hp : b = percent
      · simp [hp, special, percent]
      · have hs : special b = false := by simp [special, h0, hp, Fin.val_eq_zero_iff]
        rw [List.takeWhile_cons_of_pos (by simpa using h0), List.find?_cons_of_neg (by simp [hs]),
          List.mem_cons, or_iff_right (Ne.symm hp)]
        exact ih

theorem metaData_special (entries : List (Bytes × Bytes)) :
    (entries.flatMap metaDataLine).filter special =
      (entries.flatMap fun pair => pair.1 ++ pair.2).filter special := by
  have hstar : (lit "* ").filter special = [] := by decide
  have hcolon : (lit ": ").filter special = [] := by decide
  have hnewline : newline.filter special = [] := by decide
  induction entries with
  | nil => rfl
  | cons pair entries ih =>
    simp only [List.flatMap_cons, List.filter_append, metaDataLine, hstar, hcolon, hnewline, ih,
      List.nil_append, List.append_nil]

theorem userData_special (userData : UserData) (cpt : ℕ) :
    ((userData.zipIdx cpt).flatMap fun p => userDataLine p.1 p.2).filter special =
      userData.flatten.filter special := by
  have hcolon : (lit ": ").filter special = [] := by decide
  have hnewline : newline.filter special = [] := by decide
  induction userData generalizing cpt with
  | nil => rfl
  | cons data userData ih =>
    rw [List.zipIdx_cons, List.flatMap_cons, List.filter_append, ih, List.flatten_cons,
      List.filter_append]
    simp only [userDataLine, List.filter_append, number_plain, hcolon, hnewline, List.nil_append,
      List.append_nil]

/-- What the tool adds to the text of the sender has no part in it. -/
theorem percent_shown_iff (msg : Message) :
    percent ∈ cStr (shown msg) ↔ percent ∈ cStr (content msg) := by
  have hseparator : (separator ++ newline).filter special = [] := by
    apply special_eq_nil
    intro b hb
    rcases List.mem_append.mp hb with hb | hb
    · rw [List.eq_of_mem_replicate hb]
      decide
    · rw [List.mem_singleton.mp hb]
      decide
  have hfilter : (shown msg).filter special = (content msg).filter special := by
    unfold shown content
    rw [List.filter_append, List.filter_append, hseparator,
      metaData_special, userData_special, List.nil_append, List.filter_append]
  rw [percent_cStr_iff, percent_cStr_iff, ← List.head?_filter, ← List.head?_filter, hfilter]

/-- A message is shown as it is exactly if the sender has put no percent sign in it, but
behind a NUL, and its items can be counted by an `int`. -/
theorem shownAsIs_iff (msg : Message) :
    ShownAsIs msg ↔ percent ∉ cStr (content msg) ∧ msg.userData.length ≤ INT_MAX := by
  rw [← percent_shown_iff]
  by_cases hlen : msg.userData.length ≤ INT_MAX
  · have hlog : ∀ log, dumpMessage msg log = logInfo (cStr (shown msg)) log := by
      intro log
      rw [dumpMessage_eq, if_pos hlen]
    constructor
    · intro h
      exact ⟨(logInfo_eq_iff _ []).mp ((hlog []).symm.trans (h [])), hlen⟩
    · intro h log
      rw [hlog]
      exact (logInfo_eq_iff _ log).mpr h.1
  · refine iff_of_false ?_ fun h => hlen h.2
    intro h
    have hok := h []
    rw [dumpMessage_eq, if_neg hlen] at hok
    cases hok

/-- One frame from a peer that the tool takes for a directive. -/
theorem received_directive_expanded :
    ¬ (∀ msg, ShownAsIs msg) ∧
      ∃ msg, fromZmsg [lit "%n"] = .ok msg ∧
        dumpMessage msg [] = .error (.format .missingArgument) [] := by
  have hseparator : percent ∉ separator := by
    unfold separator
    rw [List.mem_replicate]
    decide
  have hshown : cStr (shown ⟨.empty, [lit "%n"]⟩) = separator ++ lit "\n0: %n\n" := by
    decide +kernel
  have hexpand : expand (cStr (shown ⟨.empty, [lit "%n"]⟩)) = .error .missingArgument := by
    rw [hshown, expand, expandFrom_append _ _ hseparator]
    decide
  have hdump : dumpMessage ⟨.empty, [lit "%n"]⟩ [] = .error (.format .missingArgument) [] := by
    rw [dumpMessage_eq, if_pos (by decide), logInfo, hexpand]
  refine ⟨?_, _, rfl, hdump⟩
  intro h
  have hok := h ⟨.empty, [lit "%n"]⟩ []
  rw [hdump] at hok
  cases hok

end Messagebus.Proofs.Dump
