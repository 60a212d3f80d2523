import IndexRefresh.Calendar.Timestamp

namespace IndexRefresh

namespace Text

theorem isBlank_of_isDigit {c : Char} (h : c.isDigit = true) : isBlank c = false := by
  have hrange : 48 ≤ c.toNat ∧ c.toNat ≤ 57 := by
    simpa [Char.isDigit, UInt32.le_iff_toNat_le] using h
  simp only [isBlank, blankRanges, List.any_cons, List.any_nil, Bool.or_false,
    Bool.or_eq_false_iff, Bool.and_eq_false_iff, decide_eq_false_iff_not]
  omega

theorem dropStart_of_head {p : Char → Bool} {c : Char} (h : p c = false) (cs : List Char) :
    dropStart p (c :: cs) = c :: cs := by
  simp [dropStart, List.dropWhile, h]

end Text

namespace Timestamp

theorem number?_append {most : Nat} {ds rest : List Char} (hne : ds ≠ [])
    (hdigits : ∀ c ∈ ds, c.isDigit = true) (hmost : ds.length ≤ most)
    (hrest : ds.length = most ∨ ∀ c, rest.head? = some c → c.isDigit = false) :
    number? most (ds ++ rest) = some (Nat.ofDigitChars 10 ds 0, rest) := by
  have hstart : Text.dropStart Text.isBlank (ds ++ rest) = ds ++ rest := by
    cases ds with
    | nil => exact absurd rfl hne
    | cons d ds =>
        exact Text.dropStart_of_head
          (Text.isBlank_of_isDigit (hdigits d (List.mem_cons_self ..))) _
  have htake : ((ds ++ rest).take most).takeWhile Char.isDigit = ds := by
    rw [List.take_append, List.take_of_length_le hmost, List.takeWhile_append_of_pos hdigits]
    have hnone : (rest.take (most - ds.length)).takeWhile Char.isDigit = [] := by
      rcases hrest with hall | hstop
      · rw [hall, Nat.sub_self, List.take_zero]
        rfl
      · cases rest with
        | nil =>
            rw [List.take_nil]
            rfl
        | cons c rest =>
            cases most - ds.length with
            | zero => rfl
            | succ n =>
                rw [List.take_succ_cons, List.takeWhile_cons, hstop c rfl]
                rfl
    rw [hnone, List.append_nil]
  have hempty : ds.isEmpty = false := by
    cases ds with
    | nil => exact absurd rfl hne
    | cons d ds => rfl
  unfold number?
  simp only [hstart, htake, hempty, List.drop_left]
  rfl

theorem number?_padded {width n : Nat} (hwidth : 0 < width) (h : n < Nat.pow 10 width)
    (rest : List Char) : number? width (Text.padded width n ++ rest) = some (n, rest) := by
  have hlength := Text.length_padded hwidth h
  rw [number?_append (Text.padded_ne_nil width n) (fun _ => Text.isDigit_of_mem_padded)
    (Nat.le_of_eq hlength) (.inl hlength), Text.ofDigitChars_padded]

theorem after?_self {c : Char} (h : Text.isBlank c = false) (cs : List Char) :
    after? c (c :: cs) = some cs := by
  unfold after?
  rw [Text.dropStart_of_head h]
  simp

theorem signed_padded (n : Nat) (f : Nat → Int) (rest : List Char) :
    year?.signed (Text.padded 4 n ++ '-' :: rest) f = some (f n, '-' :: rest) := by
  have hdigits : ∀ c ∈ Text.padded 4 n, c.isDigit = true := fun _ => Text.isDigit_of_mem_padded
  have hnumber : number? (Text.padded 4 n ++ '-' :: rest).length
      (Text.padded 4 n ++ '-' :: rest) = some (n, '-' :: rest) := by
    rw [number?_append (Text.padded_ne_nil 4 n) hdigits (by simp), Text.ofDigitChars_padded]
    right
    rintro c hc
    cases hc
    rfl
  cases hn : Text.padded 4 n with
  | nil => exact absurd hn (Text.padded_ne_nil 4 n)
  | cons d ds =>
      rw [hn] at hdigits hnumber
      unfold year?.signed
      simp only [List.cons_append] at hnumber ⊢
      rw [if_pos (hdigits d (List.mem_cons_self ..)), hnumber]
      rfl

theorem year?_yearChars (year : Int) (rest : List Char) :
    year? (Date.yearChars year ++ '-' :: rest) = some (year, '-' :: rest) := by
  unfold Date.yearChars
  split
  · next h =>
      have hlt : year.toNat < 10000 := by omega
      have hnumber : number? 4 (Text.padded 4 year.toNat ++ '-' :: rest) =
          some (year.toNat, '-' :: rest) := number?_padded (by decide) hlt _
      have hdigits : ∀ c ∈ Text.padded 4 year.toNat, c.isDigit = true :=
        fun _ => Text.isDigit_of_mem_padded
      cases hn : Text.padded 4 year.toNat with
      | nil => exact absurd hn (Text.padded_ne_nil _ _)
      | cons d ds =>
          rw [hn] at hdigits hnumber
          have hd : d.isDigit = true := hdigits d (List.mem_cons_self ..)
          unfold year?
          rw [List.cons_append, Text.dropStart_of_head (Text.isBlank_of_isDigit hd)]
          split
          · next heq => rw [(List.cons.inj heq).1] at hd; cases hd
          · next heq => rw [(List.cons.inj heq).1] at hd; cases hd
          · rw [← List.cons_append, hnumber]
            simp [Int.toNat_of_nonneg h.1]
  · split
    · next hnegative =>
        have hread := signed_padded year.natAbs (fun n => -(n : Int)) rest
        unfold year?
        rw [List.cons_append, Text.dropStart_of_head (by decide)]
        refine hread.trans ?_
        have habs : -(year.natAbs : Int) = year := by omega
        rw [habs]
    · next hnegative =>
        have hread := signed_padded year.natAbs (fun n => (n : Int)) rest
        unfold year?
        rw [List.cons_append, Text.dropStart_of_head (by decide)]
        refine hread.trans ?_
        have habs : (year.natAbs : Int) = year := by omega
        rw [habs]

theorem fraction?_padded {width n : Nat} (hwidth : 0 < width) (hnine : width ≤ 9)
    (h : n < Nat.pow 10 width) :
    fraction? ('.' :: Text.padded width n ++ ['Z']) =
      some (n * Nat.pow 10 (9 - width), ['Z']) := by
  have hdigits : ∀ c ∈ Text.padded width n, c.isDigit = true :=
    fun _ => Text.isDigit_of_mem_padded
  have hlength := Text.length_padded hwidth h
  have htake : (Text.padded width n ++ ['Z']).takeWhile Char.isDigit = Text.padded width n := by
    rw [List.takeWhile_append_of_pos hdigits]
    exact List.append_nil _
  have hdrop : (Text.padded width n ++ ['Z']).dropWhile Char.isDigit = ['Z'] := by
    rw [List.dropWhile_append_of_pos hdigits]
    rfl
  have hcut : (Text.padded width n).take 9 = Text.padded width n :=
    List.take_of_length_le (by omega)
  have hempty : (Text.padded width n).isEmpty = false := by
    simpa [List.isEmpty_iff] using Text.padded_ne_nil width n
  unfold fraction?
  simp only [List.cons_append, htake, hdrop, hcut, hempty, hlength, Text.ofDigitChars_padded]
  rfl

theorem fraction?_fractionChars {nano : Nat} (h : nano < 1000000000) :
    fraction? (fractionChars nano ++ ['Z']) = some (nano, ['Z']) := by
  unfold fractionChars
  split
  · next hzero => rw [hzero]; rfl
  split
  · next hmillis =>
      have hlt : nano / 1000000 < 1000 := by omega
      have hvalue : nano / 1000000 * 1000000 = nano := by omega
      rw [fraction?_padded (by decide) (by decide) hlt]
      exact congrArg (fun n => some (n, ['Z'])) hvalue
  split
  · next hmicros =>
      have hlt : nano / 1000 < 1000000 := by omega
      have hvalue : nano / 1000 * 1000 = nano := by omega
      rw [fraction?_padded (by decide) (by decide) hlt]
      exact congrArg (fun n => some (n, ['Z'])) hvalue
  · rw [fraction?_padded (by decide) (by decide) h]
    exact congrArg (fun n => some (n, ['Z'])) (Nat.mul_one nano)

theorem ofLocal?_self (t : Timestamp) :
    ofLocal? t.date t.hour t.minute t.second t.nano 0 = some t := by
  have hhour := t.hour.isLt
  have hminute := t.minute.isLt
  have hsecond := t.second.isLt
  have hnano := t.nano.isLt
  have htotal : ((t.hour.val : Int) * 60 + t.minute.val - 0) = (t.hour.val * 60 + t.minute.val : Nat) := by
    omega
  have hinDay : (((t.hour.val * 60 + t.minute.val : Nat) : Int) % 1440).toNat =
      t.hour.val * 60 + t.minute.val := by omega
  have hstart : ¬((t.hour.val * 60 + t.minute.val : Nat) : Int) < 0 := by omega
  have hend : ((t.hour.val * 60 + t.minute.val : Nat) : Int) < 1440 := by omega
  have hhours : (t.hour.val * 60 + t.minute.val) / 60 = t.hour.val := by omega
  have hminutes : (t.hour.val * 60 + t.minute.val) % 60 = t.minute.val := by omega
  unfold ofLocal?
  rw [dif_pos ⟨hhour, hminute, hsecond, hnano⟩]
  simp only [htotal, hinDay, if_neg hstart, if_pos hend, hhours, hminutes, Option.map_some]
  have hfin24 : Fin.ofNat 24 t.hour.val = t.hour := Fin.ext (Nat.mod_eq_of_lt hhour)
  have hfin60 : Fin.ofNat 60 t.minute.val = t.minute := Fin.ext (Nat.mod_eq_of_lt hminute)
  rw [hfin24, hfin60]

theorem bind_eq {α β : Type} {x : Option α} {a : α} {f : α → Option β} {b : Option β}
    (hx : x = some a) (hf : f a = b) : (x >>= f) = b := by
  rw [hx]
  exact hf

theorem ofChars?_chars (t : Timestamp) : ofChars? t.chars = some t := by
  have htwo (n : Nat) (h : n < 100) (rest : List Char) :
      number? 2 (Text.padded 2 n ++ rest) = some (n, rest) :=
    number?_padded (by decide) h rest
  have hmonth := t.date.month_mem
  have hday := t.date.day_mem
  have hhour := t.hour.isLt
  have hminute := t.minute.isLt
  have hsecond := t.second.isLt
  have hthirty : daysIn t.date.year t.date.month ≤ 31 := by
    unfold daysIn
    split
    · split <;> omega
    · split <;> omega
  have hdash (cs : List Char) : after? '-' ('-' :: cs) = some cs := after?_self (by decide) cs
  have hcolon (cs : List Char) : after? ':' (':' :: cs) = some cs := after?_self (by decide) cs
  have hoffset : offset? (Text.dropStart Text.isBlank ['Z']) = some (0, []) := rfl
  have hchars : t.chars = Date.yearChars t.date.year ++ '-' :: (Text.padded 2 t.date.month ++
      '-' :: (Text.padded 2 t.date.day ++ 'T' :: (Text.padded 2 t.hour ++
        ':' :: (Text.padded 2 t.minute ++ ':' :: (Text.padded 2 t.second ++
          (fractionChars t.nano ++ ['Z'])))))) := by
    simp only [chars, Date.chars, List.append_assoc, List.cons_append]
  rw [hchars]
  unfold ofChars?
  refine bind_eq (year?_yearChars _ _) (bind_eq (hdash _) (bind_eq (htwo _ (by omega) _) ?_))
  refine bind_eq (hdash _) (bind_eq (htwo _ (by omega) _) (bind_eq (Date.of?_self _) ?_))
  refine bind_eq rfl (bind_eq (htwo _ (by omega) _) ?_)
  refine bind_eq (hcolon _) (bind_eq (htwo _ (by omega) _) ?_)
  refine bind_eq (hcolon _) (bind_eq (htwo _ (by omega) _) ?_)
  refine bind_eq (fraction?_fractionChars t.nano.isLt) (bind_eq hoffset ?_)
  exact ofLocal?_self t

end Timestamp

end IndexRefresh
