import IndexRefresh.Proofs.Text.Numeral
import IndexRefresh.Settings.Form
import IndexRefresh.Settings.Layers

namespace IndexRefresh

namespace Setting

theorem integerText_eq_iff {cs : List Char} {n : Int} (h : Text.signed? cs = some n) :
    integerText n = cs ↔ Text.PlainWhole cs := by
  rcases Text.signed?_cases h with ⟨ds, m, rfl, hm, rfl⟩ | ⟨ds, m, rfl, hm, rfl⟩ | ⟨m, hm, rfl⟩
  · rw [Text.PlainWhole, Text.head?_ne_zero_iff hm]
    by_cases hzero : m = 0
    · subst hzero
      exact ⟨nofun, fun h => absurd rfl h.1⟩
    · have hneg : -(m : Int) < 0 := by omega
      rw [integerText, if_pos hneg, Int.natAbs_neg, Int.natAbs_natCast]
      simp [hzero]
  · have hplain : ¬Text.PlainWhole ('+' :: ds) := id
    rw [integerText, if_neg (by omega), Int.natAbs_natCast]
    refine iff_of_false (fun hds => ?_) hplain
    have hdigit := Text.isDigit_of_mem_digits (hds ▸ List.mem_cons_self ..)
    cases hdigit
  · rw [integerText, if_neg (by omega), Int.natAbs_natCast, Text.digits_eq_iff hm,
      Text.plainWhole_iff hm]

def asRead (v : String) : String :=
  let word := String.ofList (Text.lower v.toList)
  if word = "true" ∨ word = "false" then word
  else
    match Text.signed? v.toList with
    | some n => String.ofList (integerText n)
    | none => (Binary64.ofText? v.toList).elim v Binary64.text

/-- A text that does not read as a flag or a number, or is one in the way that it is printed. -/
structure StaysAsWritten (v : String) : Prop where
  flag : ∀ word ∈ ["true", "false"], String.ofList (Text.lower v.toList) = word → v = word
  whole : ∀ n, Text.signed? v.toList = some n → Text.PlainWhole v.toList
  decimal : ∀ x, Text.signed? v.toList = none → Binary64.ofText? v.toList = some x → x.text = v

theorem text?_ofVariable (v : String) : (ofVariable v).text? = some (asRead v) := by
  unfold ofVariable asRead
  dsimp only
  split
  · next h => simp [h, text?]
  · next h =>
      split
      · next h' => simp [h', text?]
      · next h' =>
          rw [if_neg (not_or.2 ⟨h, h'⟩)]
          cases Text.signed? v.toList with
          | some n => rfl
          | none => cases Binary64.ofText? v.toList <;> rfl

section Cases

variable {v : String}

theorem staysAsWritten_iff_of_flag {word : String} (hword : word = "true" ∨ word = "false")
    (h : String.ofList (Text.lower v.toList) = word) : StaysAsWritten v ↔ v = word := by
  constructor
  · intro hstays
    exact hstays.flag word (by simpa using hword) h
  · rintro rfl
    have hunread : Text.signed? v.toList = none ∧ Binary64.ofText? v.toList = none := by
      rcases hword with rfl | rfl <;> decide
    refine ⟨fun word' _ h' => h.symm.trans h', fun n hn => ?_, fun x _ hx => ?_⟩
    · cases hunread.1.symm.trans hn
    · cases hunread.2.symm.trans hx

variable (hword : ∀ word ∈ ["true", "false"], String.ofList (Text.lower v.toList) ≠ word)

include hword

theorem staysAsWritten_iff_of_whole {n : Int} (h : Text.signed? v.toList = some n) :
    StaysAsWritten v ↔ Text.PlainWhole v.toList := by
  constructor
  · intro hstays
    exact hstays.whole n h
  · intro hplain
    refine ⟨fun word hmem hv => absurd hv (hword word hmem), fun _ _ => hplain, fun x hnone _ => ?_⟩
    cases h.symm.trans hnone

theorem staysAsWritten_iff_of_decimal {x : Binary64} (hwhole : Text.signed? v.toList = none)
    (h : Binary64.ofText? v.toList = some x) : StaysAsWritten v ↔ x.text = v := by
  constructor
  · intro hstays
    exact hstays.decimal x hwhole h
  · intro htext
    refine ⟨fun word hmem hv => absurd hv (hword word hmem), fun n hn => ?_, fun y _ hy => ?_⟩
    · cases hwhole.symm.trans hn
    · cases h.symm.trans hy
      exact htext

theorem staysAsWritten_of_none (hwhole : Text.signed? v.toList = none)
    (h : Binary64.ofText? v.toList = none) : StaysAsWritten v := by
  refine ⟨fun word hmem hv => absurd hv (hword word hmem), fun n hn => ?_, fun x _ hx => ?_⟩
  · cases hwhole.symm.trans hn
  · cases h.symm.trans hx

end Cases

theorem asRead_eq_self_iff {v : String} : asRead v = v ↔ StaysAsWritten v := by
  unfold asRead
  dsimp only
  split
  · next hflag =>
      rw [staysAsWritten_iff_of_flag hflag rfl]
      exact eq_comm
  · next hflag =>
      have hword : ∀ word ∈ ["true", "false"], String.ofList (Text.lower v.toList) ≠ word := by
        rintro word hmem rfl
        exact hflag (by simpa using hmem)
      cases hwhole : Text.signed? v.toList with
      | some n =>
          rw [staysAsWritten_iff_of_whole hword hwhole, ← integerText_eq_iff hwhole]
          exact String.toList_inj.symm.trans (by rw [String.toList_ofList])
      | none =>
          cases hdecimal : Binary64.ofText? v.toList with
          | some x => exact (staysAsWritten_iff_of_decimal hword hwhole hdecimal).symm
          | none => exact iff_of_true rfl (staysAsWritten_of_none hword hwhole hdecimal)

end Setting

namespace Layer

theorem ofEnvironment_cons (name v : String) {e : Place × Setting} (env : Environment)
    (he : ofVariable? name v = some e) :
    ∃ before after, ofEnvironment env = before ++ after ∧
      ofEnvironment ((name, v) :: env) = before ++ [e] ++ after ∧
      ∀ e' ∈ after, ∃ x ∈ env, name ≤ x.1 ∧ ofVariable? x.1 x.2 = some e' := by
  have htrans (a b c : String × String) (hab : decide (a.1 ≤ b.1) = true)
      (hbc : decide (b.1 ≤ c.1) = true) : decide (a.1 ≤ c.1) = true := by
    rw [decide_eq_true_eq] at *
    exact String.le_trans hab hbc
  have htotal (a b : String × String) : (decide (a.1 ≤ b.1) || decide (b.1 ≤ a.1)) = true := by
    rw [Bool.or_eq_true, decide_eq_true_eq, decide_eq_true_eq]
    exact String.le_total a.1 b.1
  obtain ⟨before, after, hcons, henv, -⟩ := List.mergeSort_cons htrans htotal (name, v) env
  have hsorted := List.pairwise_mergeSort htrans htotal ((name, v) :: env)
  rw [hcons] at hsorted
  refine ⟨before.filterMap fun x => ofVariable? x.1 x.2,
    after.filterMap fun x => ofVariable? x.1 x.2, ?_, ?_, fun e' he' => ?_⟩
  · rw [ofEnvironment, henv, List.filterMap_append]
  · simp [ofEnvironment, hcons, he]
  · obtain ⟨x, hx, hxe⟩ := List.mem_filterMap.1 he'
    have hmem : x ∈ env.mergeSort fun a b => a.1 ≤ b.1 := henv ▸ List.mem_append_right _ hx
    have hle := (List.pairwise_cons.1 (List.pairwise_append.1 hsorted).2.1).1 x hx
    exact ⟨x, List.mem_mergeSort.1 hmem, of_decide_eq_true hle, hxe⟩

end Layer

end IndexRefresh
