import IndexRefresh.Json.Printer
import IndexRefresh.Json.Reader

namespace IndexRefresh.Json

theorem step_firstItem {fs : List Frame} {t : Token} (h : t ≠ .closeBracket) :
    Reading.step ⟨fs, .firstItem⟩ t = Reading.step ⟨.array [] :: fs, .value⟩ t := by
  cases t with
  | closeBracket => exact absurd rfl h
  | _ => rfl

theorem tokens_eq_cons (v : Json) : ∃ t ts, v.tokens = t :: ts ∧ t ≠ .closeBracket := by
  cases v with
  | null => exact ⟨.null, [], by rw [tokens], by simp⟩
  | bool b => exact ⟨.bool b, [], by rw [tokens], by simp⟩
  | num n => exact ⟨.num n, [], by rw [tokens], by simp⟩
  | str text => exact ⟨.str text, [], by rw [tokens], by simp⟩
  | arr items =>
      cases items with
      | nil => exact ⟨.openBracket, [.closeBracket], by rw [tokens], by simp⟩
      | cons v vs => exact ⟨.openBracket, v.tokens ++ itemTokens vs, by rw [tokens], by simp⟩
  | obj members =>
      cases members with
      | nil => exact ⟨.openBrace, [.closeBrace], by rw [tokens], by simp⟩
      | cons m ms =>
          exact ⟨.openBrace, .str m.1 :: .colon :: (m.2.tokens ++ memberTokens ms),
            by rw [tokens], by simp⟩

mutual

theorem foldlM_tokens (v : Json) (fs : List Frame) (rest : List Token) :
    (v.tokens ++ rest).foldlM Reading.step ⟨fs, .value⟩ =
      rest.foldlM Reading.step (Reading.complete v fs) := by
  match v with
  | .null => rw [tokens]; rfl
  | .bool b => rw [tokens]; rfl
  | .num n => rw [tokens]; rfl
  | .str t => rw [tokens]; rfl
  | .arr [] => rw [tokens]; rfl
  | .arr (v :: vs) =>
      have hitem := foldlM_tokens v (.array [] :: fs) (itemTokens vs ++ rest)
      have hitems := foldlM_itemTokens vs [v] fs rest
      obtain ⟨t, ts, htokens, hopen⟩ := tokens_eq_cons v
      rw [htokens, List.cons_append, List.foldlM_cons, ← step_firstItem hopen] at hitem
      rw [tokens, htokens, List.cons_append, List.append_assoc, List.cons_append]
      exact hitem.trans hitems
  | .obj [] => rw [tokens]; rfl
  | .obj ((k, v) :: ms) =>
      have hmember := foldlM_tokens v (.member [] k :: fs) (memberTokens ms ++ rest)
      have hmembers := foldlM_memberTokens ms [(k, v)] fs rest
      rw [tokens]
      simp only [List.cons_append, List.append_assoc]
      exact hmember.trans hmembers

theorem foldlM_itemTokens (vs items : List Json) (fs : List Frame) (rest : List Token) :
    (itemTokens vs ++ rest).foldlM Reading.step ⟨fs, .afterItem items⟩ =
      rest.foldlM Reading.step (Reading.complete (.arr (items.reverse ++ vs)) fs) := by
  match vs with
  | [] =>
      rw [itemTokens, List.append_nil]
      rfl
  | v :: vs =>
      have hitem := foldlM_tokens v (.array items :: fs) (itemTokens vs ++ rest)
      have hitems := foldlM_itemTokens vs (v :: items) fs rest
      rw [List.reverse_cons, List.append_assoc, List.singleton_append] at hitems
      rw [itemTokens, List.cons_append, List.append_assoc]
      exact hitem.trans hitems

theorem foldlM_memberTokens (ms members : List (Option String × Json)) (fs : List Frame)
    (rest : List Token) :
    (memberTokens ms ++ rest).foldlM Reading.step ⟨fs, .afterMember members⟩ =
      rest.foldlM Reading.step (Reading.complete (.obj (members.reverse ++ ms)) fs) := by
  match ms with
  | [] =>
      rw [memberTokens, List.append_nil]
      rfl
  | (k, v) :: ms =>
      have hmember := foldlM_tokens v (.member members k :: fs) (memberTokens ms ++ rest)
      have hmembers := foldlM_memberTokens ms ((k, v) :: members) fs rest
      rw [List.reverse_cons, List.append_assoc, List.singleton_append] at hmembers
      rw [memberTokens]
      simp only [List.cons_append, List.append_assoc]
      exact hmember.trans hmembers

end

theorem ofTokens?_tokens (v : Json) : ofTokens? v.tokens = some v := by
  have hread := foldlM_tokens v [] []
  rw [List.append_nil] at hread
  have hstart : v.tokens.foldlM Reading.step Reading.start = some ⟨[], .finished v⟩ := hread
  unfold ofTokens?
  rw [hstart]
  rfl

end IndexRefresh.Json
