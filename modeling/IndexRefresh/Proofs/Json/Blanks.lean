import IndexRefresh.Json.Reader
import IndexRefresh.Proofs.Json.Lexer

namespace IndexRefresh.Json

namespace Scan

def rests (s : Scan) (next : Option Char) : Bool :=
  match s.mode with
  | .gap => true
  | .word _ => !next.any isLetter
  | .number _ => !next.any isNumberChar
  | _ => false

theorem isLetter_of_isSpace {c : Char} (h : isSpace c = true) : isLetter c = false := by
  simp only [isSpace, Bool.or_eq_true, beq_iff_eq] at h
  rcases h with ((rfl | rfl) | rfl) | rfl <;> decide

theorem isNumberChar_of_isSpace {c : Char} (h : isSpace c = true) : isNumberChar c = false := by
  simp only [isSpace, Bool.or_eq_true, beq_iff_eq] at h
  rcases h with ((rfl | rfl) | rfl) | rfl <;> decide

theorem rests_of_isSpace {s : Scan} {next : Option Char} (h : s.rests next = true) {c : Char}
    (hc : isSpace c = true) : s.rests (some c) = true := by
  obtain ⟨found, mode⟩ := s
  cases mode with
  | gap => rfl
  | word letters => simp [rests, isLetter_of_isSpace hc]
  | number lexeme => simp [rests, isNumberChar_of_isSpace hc]
  | quote q => cases h
  | escape q => cases h
  | unit q read value => cases h

theorem step_of_rests {s : Scan} {c : Char} (h : s.rests (some c) = true) :
    s.step c = s.close.bind (begin · c) := by
  obtain ⟨found, mode⟩ := s
  cases mode with
  | gap => rfl
  | word letters => exact step_word (by simpa [rests] using h)
  | number lexeme => exact step_number (by simpa [rests] using h)
  | quote q => cases h
  | escape q => cases h
  | unit q read value => cases h

theorem finish_of_rests {s : Scan} {cs : List Char} (h : s.rests cs.head? = true) :
    s.finish cs = s.close.bind fun found => finish ⟨found, .gap⟩ cs := by
  cases hclose : s.close with
  | some found =>
      refine finish_close hclose fun c hc => ?_
      rw [hc] at h
      exact step_of_rests h
  | none =>
      cases cs with
      | nil => exact hclose
      | cons c cs =>
          rw [finish_cons, step_of_rests h, hclose]
          rfl

theorem finish_gap_blanks {gap : List Char} (hgap : ∀ c ∈ gap, isSpace c = true)
    (found : List Token) (cs : List Char) :
    finish ⟨found, .gap⟩ (gap ++ cs) = finish ⟨found, .gap⟩ cs := by
  induction gap with
  | nil => rfl
  | cons c gap ih =>
      have hc := hgap c (List.mem_cons_self ..)
      rw [List.cons_append, finish_step (step_blank hc found)]
      exact ih fun d hd => hgap d (List.mem_cons_of_mem _ hd)

theorem finish_blanks {s : Scan} {gap cs : List Char} (h : s.rests cs.head? = true)
    (hgap : ∀ c ∈ gap, isSpace c = true) : s.finish (gap ++ cs) = s.finish cs := by
  have hhead : s.rests (gap ++ cs).head? = true := by
    cases gap with
    | nil => exact h
    | cons c gap => exact rests_of_isSpace h (hgap c (List.mem_cons_self ..))
  rw [finish_of_rests hhead, finish_of_rests h]
  simp only [finish_gap_blanks hgap]

end Scan

def Between (before after : String) : Prop :=
  ∀ s ∈ before.toList.foldlM Scan.step Scan.start, s.rests after.toList.head? = true

instance (before after : String) : Decidable (Between before after) :=
  inferInstanceAs (Decidable (∀ s ∈ before.toList.foldlM Scan.step Scan.start,
    s.rests after.toList.head? = true))

example : Between "[1" ",tru" ∧ ¬Between "[1,t" "rue]" ∧ ¬Between "[\"a" "b\"]" := by decide

theorem finish_between {before gap after : String} (hbetween : Between before after)
    (hgap : ∀ c ∈ gap.toList, Scan.isSpace c = true) :
    Scan.start.finish (before ++ gap ++ after).toList =
      Scan.start.finish (before ++ after).toList := by
  rw [String.toList_append, String.toList_append, String.toList_append, List.append_assoc,
    Scan.finish_append_bind, Scan.finish_append_bind]
  exact Option.bind_congr fun s hs => Scan.finish_blanks (hbetween s hs) hgap

theorem ofText?_blanks {before gap after : String} (hbetween : Between before after)
    (hgap : ∀ c ∈ gap.toList, Scan.isSpace c = true) :
    ofText? (before ++ gap ++ after) = ofText? (before ++ after) := by
  unfold ofText?
  rw [tokens?_eq_finish, tokens?_eq_finish, finish_between hbetween hgap]

end IndexRefresh.Json
