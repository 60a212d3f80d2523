import IndexRefresh.Json.Token

namespace IndexRefresh.Json

def Token.continues : Token → Char → Bool
  | .null, c => Scan.isLetter c
  | .bool _, c => Scan.isLetter c
  | .num _, c => Scan.isNumberChar c
  | _, _ => false

def Token.Plain : Token → Prop
  | .num (.other _) => False
  | .str text => text.isSome
  | _ => True

/-- The text spells the tokens: blanks may stand between them, and must stand where a token could
go on with what follows it. -/
inductive Spells : List Token → List Char → Prop where
  | nil : Spells [] []
  | blank {ts : List Token} {c : Char} {cs : List Char} (hc : Scan.isSpace c = true)
      (h : Spells ts cs) : Spells ts (c :: cs)
  | token {t : Token} {ts : List Token} {cs : List Char} (ht : t.Plain)
      (hends : ∀ c, cs.head? = some c → t.continues c = false) (h : Spells ts cs) :
      Spells (t :: ts) (t.chars ++ cs)

theorem Spells.blanks {ts : List Token} {gap cs : List Char}
    (hgap : ∀ c ∈ gap, Scan.isSpace c = true) (h : Spells ts cs) : Spells ts (gap ++ cs) := by
  induction gap with
  | nil => exact h
  | cons c gap ih =>
      exact .blank (hgap c (List.mem_cons_self ..))
        (ih fun d hd => hgap d (List.mem_cons_of_mem _ hd))

namespace Scan

def finish (s : Scan) (cs : List Char) : Option (List Token) :=
  (cs.foldlM step s).bind close

theorem finish_cons (s : Scan) (c : Char) (cs : List Char) :
    s.finish (c :: cs) = (s.step c).bind (finish · cs) := by
  unfold finish
  rw [List.foldlM_cons]
  exact Option.bind_assoc ..

theorem finish_step {s t : Scan} {c : Char} {cs : List Char} (h : s.step c = some t) :
    s.finish (c :: cs) = t.finish cs := by
  rw [finish_cons, h]
  rfl

theorem finish_append_bind (s : Scan) (cs ds : List Char) :
    s.finish (cs ++ ds) = (cs.foldlM step s).bind (finish · ds) := by
  unfold finish
  rw [List.foldlM_append]
  exact Option.bind_assoc ..

theorem finish_append {s t : Scan} {cs : List Char} (ds : List Char)
    (h : cs.foldlM step s = some t) : s.finish (cs ++ ds) = t.finish ds := by
  rw [finish_append_bind, h]
  rfl

theorem finish_close {s : Scan} {found : List Token} {cs : List Char}
    (hclose : s.close = some found)
    (hends : ∀ c, cs.head? = some c → s.step c = s.close.bind (begin · c)) :
    s.finish cs = finish ⟨found, .gap⟩ cs := by
  cases cs with
  | nil => exact hclose
  | cons c cs =>
      rw [finish_cons, finish_cons, hends c rfl, hclose]
      rfl

theorem step_blank {c : Char} (hc : isSpace c = true) (found : List Token) :
    step ⟨found, .gap⟩ c = some ⟨found, .gap⟩ := by
  simp [step, begin, hc]

theorem step_word {found : List Token} {letters : List Char} {c : Char}
    (hc : isLetter c = false) :
    step ⟨found, .word letters⟩ c = (close ⟨found, .word letters⟩).bind (begin · c) := by
  simp [step, hc]

theorem step_number {found : List Token} {lexeme : List Char} {c : Char}
    (hc : isNumberChar c = false) :
    step ⟨found, .number lexeme⟩ c = (close ⟨found, .number lexeme⟩).bind (begin · c) := by
  simp [step, hc]

/-! ## Numbers -/

theorem isNumberChar_of_isDigit {c : Char} (h : c.isDigit = true) : isNumberChar c = true := by
  simp [isNumberChar, h]

theorem foldlM_digits {ds : List Char} (h : ∀ c ∈ ds, c.isDigit = true) (found : List Token)
    (lexeme : List Char) :
    ds.foldlM step ⟨found, .number lexeme⟩ = some ⟨found, .number (ds.reverse ++ lexeme)⟩ := by
  induction ds generalizing lexeme with
  | nil => rfl
  | cons d ds ih =>
      have hd := isNumberChar_of_isDigit (h d (List.mem_cons_self ..))
      have hstep : step ⟨found, .number lexeme⟩ d = some ⟨found, .number (d :: lexeme)⟩ := by
        simp [step, hd]
      rw [List.foldlM_cons, hstep]
      refine (ih (fun c hc => h c (List.mem_cons_of_mem _ hc)) (d :: lexeme)).trans ?_
      rw [List.reverse_cons, List.append_assoc, List.singleton_append]

theorem begin_digit {c : Char} (h : c.isDigit = true) (found : List Token) :
    begin found c = some ⟨found, .number [c]⟩ := by
  have hrange : 48 ≤ c.toNat ∧ c.toNat ≤ 57 := by
    simpa [Char.isDigit, UInt32.le_iff_toNat_le] using h
  have hspace : isSpace c = false := by
    cases hs : isSpace c with
    | false => rfl
    | true =>
        simp only [isSpace, Bool.or_eq_true, beq_iff_eq] at hs
        rcases hs with ((rfl | rfl) | rfl) | rfl <;> cases h
  have hquote : ¬c = '"' := by
    rintro rfl
    cases h
  have hletter : isLetter c = false := by
    have hlt : ¬ 'a' ≤ c := by
      intro hle
      have hle : 97 ≤ c.toNat := UInt32.le_iff_toNat_le.1 hle
      omega
    simp [isLetter, hlt]
  simp [begin, hspace, hquote, hletter, h]

theorem ofLexeme?_digits (n : Nat) : Number.ofLexeme? (Text.digits n) = some (.nat n) := by
  have hdigits : ∀ c ∈ Text.digits n, c.isDigit = true := fun _ => Text.isDigit_of_mem_digits
  have hlead : ¬((Text.digits n).head? = some '0' ∧ (Text.digits n).length ≠ 1) := by
    rintro ⟨hzero, hone⟩
    rcases Nat.eq_zero_or_pos n with rfl | hpos
    · exact hone rfl
    · exact Text.head?_digits_ne hpos hzero
  cases hn : Text.digits n with
  | nil => exact absurd hn (Text.digits_ne_nil n)
  | cons d ds =>
      rw [hn] at hdigits hlead
      have hd : d.isDigit = true := hdigits d (List.mem_cons_self ..)
      have hminus : d ≠ '-' := by
        rintro rfl
        cases hd
      have htake : (d :: ds).takeWhile Char.isDigit = d :: ds := by
        rw [← List.append_nil (d :: ds), List.takeWhile_append_of_pos hdigits]
        rfl
      have hdrop : (d :: ds).dropWhile Char.isDigit = [] := by
        rw [← List.append_nil (d :: ds), List.dropWhile_append_of_pos hdigits]
        rfl
      have hall : (d :: ds).all Char.isDigit = true := List.all_eq_true.2 hdigits
      have hguard : ((d :: ds).isEmpty ||
          ((d :: ds).head? == some '0' && (d :: ds).length != 1)) = false := by
        rw [List.isEmpty_cons, Bool.false_or, Bool.and_eq_false_iff]
        by_cases hzero : (d :: ds).head? = some '0'
        · have hone : (d :: ds).length = 1 := Decidable.byContradiction fun h => hlead ⟨hzero, h⟩
          right
          simp [hone]
        · left
          simpa using hzero
      have hvalue : Nat.ofDigitChars 10 (d :: ds) 0 = n := by
        rw [← hn]
        exact Text.ofDigitChars_digits n
      unfold Number.ofLexeme?
      split
      · next heq => exact absurd (List.cons.inj heq).1 hminus
      · simp only [htake, hdrop, hguard, hall, hvalue]
        rfl

theorem finish_number (n : Nat) {found : List Token} {cs : List Char}
    (hends : ∀ c, cs.head? = some c → isNumberChar c = false) :
    finish ⟨found, .gap⟩ (Text.digits n ++ cs) = finish ⟨.num (.nat n) :: found, .gap⟩ cs := by
  have hdigits : ∀ c ∈ Text.digits n, c.isDigit = true := fun _ => Text.isDigit_of_mem_digits
  have hread : (Text.digits n).foldlM step ⟨found, .gap⟩ =
      some ⟨found, .number (Text.digits n).reverse⟩ := by
    cases hn : Text.digits n with
    | nil => exact absurd hn (Text.digits_ne_nil n)
    | cons d ds =>
        rw [hn] at hdigits
        have hbegin : step ⟨found, .gap⟩ d = some ⟨found, .number [d]⟩ :=
          begin_digit (hdigits d (List.mem_cons_self ..)) found
        rw [List.foldlM_cons, hbegin, List.reverse_cons]
        exact foldlM_digits (fun c hc => hdigits c (List.mem_cons_of_mem _ hc)) found [d]
  have hclose : close ⟨found, .number (Text.digits n).reverse⟩ =
      some (.num (.nat n) :: found) := by
    unfold close
    simp only [List.reverse_reverse, ofLexeme?_digits]
    rfl
  rw [finish_append cs hread]
  exact finish_close hclose fun c hc => step_number (hends c hc)

/-! ## Words -/

theorem finish_word {t : Token} {d : Char} {ds cs : List Char} {found : List Token}
    (hread : (d :: ds).foldlM step ⟨found, .gap⟩ = some ⟨found, .word (d :: ds).reverse⟩)
    (hword : Token.ofWord? (d :: ds) = some t)
    (hends : ∀ c, cs.head? = some c → isLetter c = false) :
    finish ⟨found, .gap⟩ (d :: ds ++ cs) = finish ⟨t :: found, .gap⟩ cs := by
  have hclose : close ⟨found, .word (d :: ds).reverse⟩ = some (t :: found) := by
    unfold close
    simp only [List.reverse_reverse, hword]
    rfl
  rw [finish_append cs hread]
  exact finish_close hclose fun c hc => step_word (hends c hc)

/-! ## Strings -/

theorem hex_four {n : Nat} (h : n < 32) :
    Text.hex 4 n = ['0', '0', Nat.digitChar (n / 16), Nat.digitChar (n % 16)] := by
  have hall : ∀ n, n < 32 →
      Text.hex 4 n = ['0', '0', Nat.digitChar (n / 16), Nat.digitChar (n % 16)] := by
    decide
  exact hall n h

theorem hexValue?_digitChar {n : Nat} (h : n < 16) :
    Text.hexValue? (Nat.digitChar n) = some n := by
  have hall : ∀ n, n < 16 → Text.hexValue? (Nat.digitChar n) = some n := by decide
  exact hall n h

theorem pushUnit_small {spelled : List Char} {n : Nat} (h : n < 32) :
    Quote.pushUnit ⟨some spelled, none⟩ n = ⟨some (Char.ofNat n :: spelled), none⟩ := by
  have hhigh : ¬(0xD800 ≤ n ∧ n ≤ 0xDBFF) := by omega
  have hlow : ¬(0xDC00 ≤ n ∧ n ≤ 0xDFFF) := by omega
  unfold Quote.pushUnit
  rw [if_neg hhigh, if_neg hlow]
  rfl

theorem step_unit {found : List Token} {q : Quote} {read value d : Nat} {c : Char}
    (hd : Text.hexValue? c = some d) (hread : read ≠ 3) :
    step ⟨found, .unit q read value⟩ c = some ⟨found, .unit q (read + 1) (value * 16 + d)⟩ := by
  simp [step, hd, hread]

theorem step_last_unit {found : List Token} {q : Quote} {value d : Nat} {c : Char}
    (hd : Text.hexValue? c = some d) :
    step ⟨found, .unit q 3 value⟩ c = some ⟨found, .quote (q.pushUnit (value * 16 + d))⟩ := by
  simp [step, hd]

theorem foldlM_hex (found : List Token) (spelled : List Char) {n : Nat} (h : n < 32) :
    (Text.hex 4 n).foldlM step ⟨found, .unit ⟨some spelled, none⟩ 0 0⟩ =
      some ⟨found, .quote ⟨some (Char.ofNat n :: spelled), none⟩⟩ := by
  have hzero : Text.hexValue? '0' = some 0 := rfl
  have hhigh : Text.hexValue? (Nat.digitChar (n / 16)) = some (n / 16) :=
    hexValue?_digitChar (by omega)
  have hlow : Text.hexValue? (Nat.digitChar (n % 16)) = some (n % 16) :=
    hexValue?_digitChar (Nat.mod_lt _ (by decide))
  have hvalue : (((0 * 16 + 0) * 16 + 0) * 16 + n / 16) * 16 + n % 16 = n := by omega
  rw [hex_four h, List.foldlM_cons, step_unit hzero (by decide)]
  change List.foldlM step _ _ = _
  rw [List.foldlM_cons, step_unit hzero (by decide)]
  change List.foldlM step _ _ = _
  rw [List.foldlM_cons, step_unit hhigh (by decide)]
  change List.foldlM step _ _ = _
  rw [List.foldlM_cons, step_last_unit hlow, hvalue, pushUnit_small h]
  rfl

theorem foldlM_escaped (c : Char) (found : List Token) (spelled : List Char) :
    (Token.escaped c).foldlM step ⟨found, .quote ⟨some spelled, none⟩⟩ =
      some ⟨found, .quote ⟨some (c :: spelled), none⟩⟩ := by
  unfold Token.escaped
  split
  · next h => rw [h]; rfl
  split
  · next h => rw [h]; rfl
  split
  · next h => rw [h]; rfl
  split
  · next h => rw [h]; rfl
  split
  · next h => rw [h]; rfl
  split
  · next h => rw [h]; rfl
  split
  · next h => rw [h]; rfl
  split
  · next h =>
      have hsmall : c.toNat < 32 := UInt32.lt_iff_toNat_lt.1 h
      have hread := foldlM_hex found spelled hsmall
      rw [Char.ofNat_toNat] at hread
      exact hread
  · next hquote hslash _ _ _ _ _ hcontrol =>
      rw [List.foldlM_cons]
      have hstep : step ⟨found, .quote ⟨some spelled, none⟩⟩ c =
          some ⟨found, .quote ⟨some (c :: spelled), none⟩⟩ := by
        simp [step, hquote, hslash, hcontrol, Quote.push]
      rw [hstep]
      rfl

theorem foldlM_text (cs : List Char) (found : List Token) (spelled : List Char) :
    (cs.flatMap Token.escaped).foldlM step ⟨found, .quote ⟨some spelled, none⟩⟩ =
      some ⟨found, .quote ⟨some (cs.reverse ++ spelled), none⟩⟩ := by
  induction cs generalizing spelled with
  | nil => rfl
  | cons c cs ih =>
      rw [List.flatMap_cons, List.foldlM_append, foldlM_escaped]
      refine (ih (c :: spelled)).trans ?_
      rw [List.reverse_cons, List.append_assoc, List.singleton_append]

theorem finish_string (text : String) (found : List Token) (cs : List Char) :
    finish ⟨found, .gap⟩ ((Token.str (some text)).chars ++ cs) =
      finish ⟨.str (some text) :: found, .gap⟩ cs := by
  have hread := foldlM_text text.toList found []
  have hopen : step ⟨found, .gap⟩ '"' = some ⟨found, .quote ⟨some [], none⟩⟩ := rfl
  have hshut : step ⟨found, .quote ⟨some (text.toList.reverse ++ []), none⟩⟩ '"' =
      some ⟨.str (some text) :: found, .gap⟩ := by
    simp [step, Quote.text?]
  unfold Token.chars
  rw [List.append_assoc, List.append_assoc, List.singleton_append, finish_step hopen,
    finish_append _ hread]
  exact finish_step hshut

theorem finish_token {t : Token} (ht : t.Plain) {found : List Token} {cs : List Char}
    (hends : ∀ c, cs.head? = some c → t.continues c = false) :
    finish ⟨found, .gap⟩ (t.chars ++ cs) = finish ⟨t :: found, .gap⟩ cs := by
  cases t with
  | openBracket => rfl
  | closeBracket => rfl
  | openBrace => rfl
  | closeBrace => rfl
  | colon => rfl
  | comma => rfl
  | null => exact finish_word rfl rfl hends
  | bool b =>
      cases b with
      | true => exact finish_word rfl rfl hends
      | false => exact finish_word rfl rfl hends
  | num n =>
      cases n with
      | nat n => exact finish_number n hends
      | other text => exact absurd ht id
  | str text =>
      cases text with
      | none => cases ht
      | some text => exact finish_string text found cs

end Scan

theorem finish_of_spells {ts : List Token} {cs : List Char} (h : Spells ts cs)
    (found : List Token) :
    Scan.finish ⟨found, .gap⟩ cs = some (ts.reverse ++ found) := by
  induction h generalizing found with
  | nil => rfl
  | @blank ts c cs hc _ ih =>
      rw [Scan.finish_step (Scan.step_blank hc found)]
      exact ih found
  | @token t ts cs ht hends _ ih =>
      rw [Scan.finish_token ht hends, ih, List.reverse_cons, List.append_assoc,
        List.singleton_append]

theorem tokens?_eq_finish (cs : List Char) :
    tokens? cs = (Scan.finish Scan.start cs).map List.reverse := by
  unfold tokens? Scan.finish
  cases cs.foldlM Scan.step Scan.start with
  | none => rfl
  | some s =>
      change s.close.bind _ = s.close.map _
      cases s.close with
      | none => rfl
      | some found => rfl

theorem tokens?_of_spells {ts : List Token} {cs : List Char} (h : Spells ts cs) :
    tokens? cs = some ts := by
  have hfinish := finish_of_spells h []
  rw [List.append_nil] at hfinish
  have hstart : Scan.finish Scan.start cs = some ts.reverse := hfinish
  rw [tokens?_eq_finish, hstart, Option.map_some, List.reverse_reverse]

end IndexRefresh.Json
