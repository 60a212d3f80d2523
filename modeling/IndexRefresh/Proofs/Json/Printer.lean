import IndexRefresh.Json.Printer
import IndexRefresh.Proofs.Json.Lexer
import IndexRefresh.Proofs.Json.Reader

namespace IndexRefresh.Json

namespace Token

def isOpenEnded : Token → Bool
  | .null => true
  | .bool _ => true
  | .num _ => true
  | _ => false

def isJoint : Token → Bool
  | .closeBracket => true
  | .closeBrace => true
  | .comma => true
  | _ => false

theorem continues_of_not_isOpenEnded {t : Token} (h : t.isOpenEnded = false) (c : Char) :
    t.continues c = false := by
  cases t with
  | null => cases h
  | bool b => cases h
  | num n => cases h
  | _ => rfl

theorem continues_blank (t : Token) {c : Char} (h : Scan.isSpace c = true) :
    t.continues c = false := by
  simp only [Scan.isSpace, Bool.or_eq_true, beq_iff_eq] at h
  rcases h with ((rfl | rfl) | rfl) | rfl <;> cases t <;> rfl

theorem continues_joint (t : Token) {u : Token} (hu : u.isJoint = true) {c : Char}
    {cs : List Char} (hc : (u.chars ++ cs).head? = some c) : t.continues c = false := by
  cases u with
  | closeBracket => cases hc; cases t <;> rfl
  | closeBrace => cases hc; cases t <;> rfl
  | comma => cases hc; cases t <;> rfl
  | _ => cases hu

end Token

def Joined : List Token → Prop
  | [] => True
  | t :: ts =>
      (t.isOpenEnded = true → ∀ u, ts.head? = some u → u.isJoint = true) ∧ Joined ts

theorem joined_cons {t : Token} {ts : List Token} (ht : t.isOpenEnded = false) (h : Joined ts) :
    Joined (t :: ts) :=
  ⟨fun hopen => absurd hopen (by simp [ht]), h⟩

theorem head?_itemTokens (vs : List Json) (rest : List Token) {t : Token}
    (h : (itemTokens vs ++ rest).head? = some t) : t.isJoint = true := by
  cases vs with
  | nil => rw [itemTokens] at h; cases h; rfl
  | cons v vs => rw [itemTokens] at h; cases h; rfl

theorem head?_memberTokens (ms : List (Option String × Json)) (rest : List Token) {t : Token}
    (h : (memberTokens ms ++ rest).head? = some t) : t.isJoint = true := by
  cases ms with
  | nil => rw [memberTokens] at h; cases h; rfl
  | cons m ms => rw [memberTokens] at h; cases h; rfl

mutual

theorem joined_tokens (v : Json) {rest : List Token} (hrest : Joined rest)
    (hjoint : ∀ t, rest.head? = some t → t.isJoint = true) : Joined (v.tokens ++ rest) := by
  match v with
  | .null => rw [tokens]; exact ⟨fun _ => hjoint, hrest⟩
  | .bool b => rw [tokens]; exact ⟨fun _ => hjoint, hrest⟩
  | .num n => rw [tokens]; exact ⟨fun _ => hjoint, hrest⟩
  | .str t => rw [tokens]; exact joined_cons rfl hrest
  | .arr [] => rw [tokens]; exact joined_cons rfl (joined_cons rfl hrest)
  | .arr (v :: vs) =>
      have hitems := joined_itemTokens vs hrest
      have hitem := joined_tokens v hitems fun t ht => head?_itemTokens vs rest ht
      rw [tokens]
      simp only [List.cons_append, List.append_assoc]
      exact joined_cons rfl hitem
  | .obj [] => rw [tokens]; exact joined_cons rfl (joined_cons rfl hrest)
  | .obj ((k, v) :: ms) =>
      have hmembers := joined_memberTokens ms hrest
      have hmember := joined_tokens v hmembers fun t ht => head?_memberTokens ms rest ht
      rw [tokens]
      simp only [List.cons_append, List.append_assoc]
      exact joined_cons rfl (joined_cons rfl (joined_cons rfl hmember))

theorem joined_itemTokens (vs : List Json) {rest : List Token} (hrest : Joined rest) :
    Joined (itemTokens vs ++ rest) := by
  match vs with
  | [] => rw [itemTokens]; exact joined_cons rfl hrest
  | v :: vs =>
      have hitems := joined_itemTokens vs hrest
      have hitem := joined_tokens v hitems fun t ht => head?_itemTokens vs rest ht
      rw [itemTokens]
      simp only [List.cons_append, List.append_assoc]
      exact joined_cons rfl hitem

theorem joined_memberTokens (ms : List (Option String × Json)) {rest : List Token}
    (hrest : Joined rest) : Joined (memberTokens ms ++ rest) := by
  match ms with
  | [] => rw [memberTokens]; exact joined_cons rfl hrest
  | (k, v) :: ms =>
      have hmembers := joined_memberTokens ms hrest
      have hmember := joined_tokens v hmembers fun t ht => head?_memberTokens ms rest ht
      rw [memberTokens]
      simp only [List.cons_append, List.append_assoc]
      exact joined_cons rfl (joined_cons rfl (joined_cons rfl hmember))

end

theorem isSpace_of_mem_gap {depth : Nat} {t u : Token} {c : Char} (h : c ∈ gap depth t u) :
    Scan.isSpace c = true := by
  have hline : ∀ n, c ∈ '\n' :: List.replicate n ' ' → Scan.isSpace c = true := by
    intro n hc
    rcases List.mem_cons.1 hc with rfl | hc
    · rfl
    · rw [List.eq_of_mem_replicate hc]
      rfl
  unfold gap at h
  split at h
  · cases h
  · cases h
  · exact hline _ h
  · exact hline _ h
  · exact hline _ h
  · exact hline _ h
  · exact hline _ h
  · rw [List.mem_singleton.1 h]
    rfl
  · cases h

theorem spaced_cons (depth : Nat) (t : Token) (ts : List Token) :
    ∃ rest, spaced depth (t :: ts) = t.chars ++ rest := by
  cases ts with
  | nil =>
      refine ⟨[], ?_⟩
      rw [spaced, List.append_nil]
  | cons u ts =>
      refine ⟨gap (depthAfter depth t) t u ++ spaced (depthAfter depth t) (u :: ts), ?_⟩
      rw [spaced, List.append_assoc]

theorem continues_spaced {t u : Token} {ts : List Token}
    (hjoint : t.isOpenEnded = true → u.isJoint = true) (inner outer : Nat) {c : Char}
    (hc : (gap outer t u ++ spaced inner (u :: ts)).head? = some c) : t.continues c = false := by
  cases hopen : t.isOpenEnded with
  | false => exact Token.continues_of_not_isOpenEnded hopen c
  | true =>
      cases hgap : gap outer t u with
      | nil =>
          obtain ⟨rest, hrest⟩ := spaced_cons inner u ts
          rw [hgap, List.nil_append, hrest] at hc
          exact Token.continues_joint t (hjoint hopen) hc
      | cons d ds =>
          rw [hgap] at hc
          cases hc
          exact Token.continues_blank t (isSpace_of_mem_gap (hgap ▸ List.mem_cons_self ..))

theorem spells_spaced {ts : List Token} (hplain : ∀ t ∈ ts, t.Plain) (h : Joined ts)
    (depth : Nat) : Spells ts (spaced depth ts) := by
  induction ts generalizing depth with
  | nil => exact .nil
  | cons t ts ih =>
      have ht := hplain t (List.mem_cons_self ..)
      have hts : ∀ u ∈ ts, u.Plain := fun u hu => hplain u (List.mem_cons_of_mem _ hu)
      cases ts with
      | nil =>
          rw [spaced, ← List.append_nil t.chars]
          exact .token ht (fun c hc => by cases hc) .nil
      | cons u ts =>
          rw [spaced, List.append_assoc]
          refine .token ht (fun c hc => ?_) (.blanks (fun c hc => isSpace_of_mem_gap hc)
            (ih hts h.2 _))
          exact continues_spaced (fun hopen => h.1 hopen u rfl) _ _ hc

theorem spells_flatMap {ts : List Token} (hplain : ∀ t ∈ ts, t.Plain) (h : Joined ts) :
    Spells ts (ts.flatMap Token.chars) := by
  induction ts with
  | nil => exact .nil
  | cons t ts ih =>
      have ht := hplain t (List.mem_cons_self ..)
      have hts : ∀ u ∈ ts, u.Plain := fun u hu => hplain u (List.mem_cons_of_mem _ hu)
      rw [List.flatMap_cons]
      refine .token ht (fun c hc => ?_) (ih hts h.2)
      cases hopen : t.isOpenEnded with
      | false => exact Token.continues_of_not_isOpenEnded hopen c
      | true =>
          cases ts with
          | nil => cases hc
          | cons u ts =>
              rw [List.flatMap_cons] at hc
              exact Token.continues_joint t (h.1 hopen u rfl) hc

def Plain (v : Json) : Prop :=
  ∀ t ∈ v.tokens, t.Plain

theorem joined_self (v : Json) : Joined v.tokens := by
  have h : Joined (v.tokens ++ []) := joined_tokens v trivial fun t ht => by cases ht
  rwa [List.append_nil] at h

theorem ofText?_of_spells {v : Json} {cs : List Char} (h : Spells v.tokens cs) :
    ofText? (String.ofList cs) = some v := by
  unfold ofText?
  rw [String.toList_ofList, tokens?_of_spells h]
  exact ofTokens?_tokens v

theorem ofText?_compact {v : Json} (h : v.Plain) : ofText? v.compact = some v :=
  ofText?_of_spells (spells_flatMap h (joined_self v))

theorem ofText?_pretty {v : Json} (h : v.Plain) : ofText? v.pretty = some v :=
  ofText?_of_spells (spells_spaced h (joined_self v) 0)

theorem fromUTF8?_toUTF8 (text : String) : String.fromUTF8? text.toUTF8 = some text := by
  have hvalid : text.toUTF8.IsValidUTF8 := text.isValidUTF8
  unfold String.fromUTF8?
  rw [dif_pos hvalid]
  rfl

theorem ofBytes?_toUTF8 (text : String) : ofBytes? text.toUTF8 = ofText? text := by
  unfold ofBytes?
  rw [fromUTF8?_toUTF8]

theorem ofBytes?_pretty {v : Json} (h : v.Plain) : ofBytes? v.pretty.toUTF8 = some v := by
  rw [ofBytes?_toUTF8]
  exact ofText?_pretty h

theorem plain_null : Plain .null := by
  intro t ht
  rw [tokens, List.mem_singleton] at ht
  rw [ht]
  trivial

theorem plain_ofNat (n : Nat) : Plain (ofNat n) := by
  intro t ht
  unfold ofNat at ht
  rw [tokens, List.mem_singleton] at ht
  rw [ht]
  trivial

theorem plain_ofString (text : String) : Plain (ofString text) := by
  intro t ht
  unfold ofString at ht
  rw [tokens, List.mem_singleton] at ht
  rw [ht]
  rfl

theorem plain_memberTokens {ms : List (Option String × Json)}
    (h : ∀ m ∈ ms, m.1.isSome = true ∧ m.2.Plain) : ∀ t ∈ memberTokens ms, t.Plain := by
  induction ms with
  | nil =>
      intro t ht
      rw [memberTokens, List.mem_singleton] at ht
      rw [ht]
      trivial
  | cons m ms ih =>
      obtain ⟨k, v⟩ := m
      obtain ⟨hk, hv⟩ := h (k, v) (List.mem_cons_self ..)
      intro t ht
      rw [memberTokens] at ht
      simp only [List.mem_cons, List.mem_append] at ht
      rcases ht with rfl | rfl | rfl | ht | ht
      · trivial
      · exact hk
      · trivial
      · exact hv t ht
      · exact ih (fun m hm => h m (List.mem_cons_of_mem _ hm)) t ht

theorem plain_record {ms : List (String × Json)} (h : ∀ m ∈ ms, m.2.Plain) :
    Plain (record ms) := by
  intro t ht
  unfold record at ht
  cases ms with
  | nil =>
      rw [List.map_nil, tokens] at ht
      simp only [List.mem_cons, List.not_mem_nil, or_false] at ht
      rcases ht with rfl | rfl <;> trivial
  | cons m ms =>
      rw [List.map_cons, tokens] at ht
      simp only [List.mem_cons, List.mem_append] at ht
      rcases ht with rfl | rfl | rfl | ht | ht
      · trivial
      · rfl
      · trivial
      · exact h m (List.mem_cons_self ..) t ht
      · refine plain_memberTokens (fun e he => ?_) t ht
        obtain ⟨x, hx, rfl⟩ := List.mem_map.1 he
        exact ⟨rfl, h x (List.mem_cons_of_mem _ hx)⟩

end IndexRefresh.Json
