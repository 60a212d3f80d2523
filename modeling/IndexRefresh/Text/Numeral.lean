namespace IndexRefresh.Text

def natOf? (cs : List Char) : Option Nat :=
  if !cs.isEmpty && cs.all Char.isDigit then some (Nat.ofDigitChars 10 cs 0) else none

def unsigned? : List Char → Option Nat
  | '+' :: ds => natOf? ds
  | ds => natOf? ds

def hasSignedWord (n : Int) : Bool :=
  -9223372036854775808 ≤ n && n < 9223372036854775808

def signed? (cs : List Char) : Option Int :=
  let n? := match cs with
    | '-' :: ds => (natOf? ds).map fun n => -(n : Int)
    | ds => (unsigned? ds).map Int.ofNat
  n?.filter hasSignedWord

def digits (n : Nat) : List Char :=
  Nat.toDigits 10 n

theorem digits_ne_nil (n : Nat) : digits n ≠ [] :=
  Nat.toDigits_ne_nil

theorem isDigit_of_mem_digits {n : Nat} {c : Char} (h : c ∈ digits n) : c.isDigit = true :=
  Nat.isDigit_of_mem_toDigits (by decide) (by decide) h

theorem ofDigitChars_digits (n : Nat) : Nat.ofDigitChars 10 (digits n) 0 = n :=
  Nat.ofDigitChars_ten_toDigits

theorem head?_digits_ne {n : Nat} (h : 0 < n) : (digits n).head? ≠ some '0' := by
  induction n using Nat.strongRecOn with
  | ind n ih =>
      unfold digits
      by_cases hlt : n < 10
      · rw [Nat.toDigits_of_lt_base hlt]
        have hall : ∀ m, m < 10 → 0 < m → [m.digitChar].head? ≠ some '0' := by decide
        exact hall n hlt h
      · have hle : 10 ≤ n := Nat.le_of_not_lt hlt
        have hhigh : 0 < n / 10 := Nat.div_pos hle (by decide)
        have hrest := ih (n / 10) (by omega) hhigh
        rw [Nat.toDigits_of_base_le (by decide) hle, List.head?_append]
        cases hhead : (digits (n / 10)).head? with
        | none => exact absurd (List.head?_eq_none_iff.1 hhead) (digits_ne_nil _)
        | some c =>
            rw [digits] at hhead
            rw [hhead]
            rw [digits, hhead] at hrest
            exact hrest

def padded (width n : Nat) : List Char :=
  let ds := digits n
  List.replicate (width - ds.length) '0' ++ ds

theorem isDigit_of_mem_padded {width n : Nat} {c : Char} (h : c ∈ padded width n) :
    c.isDigit = true := by
  rcases List.mem_append.1 h with h | h
  · rw [List.eq_of_mem_replicate h]
    decide
  · exact isDigit_of_mem_digits h

theorem ofDigitChars_padded (width n : Nat) : Nat.ofDigitChars 10 (padded width n) 0 = n := by
  unfold padded
  rw [Nat.ofDigitChars_append, Nat.ofDigitChars_replicate_zero, Nat.mul_zero]
  exact ofDigitChars_digits n

theorem length_padded {width n : Nat} (hwidth : 0 < width) (h : n < Nat.pow 10 width) :
    (padded width n).length = width := by
  have hle : (digits n).length ≤ width :=
    (Nat.length_toDigits_le_iff (by decide) hwidth).2 h
  unfold padded
  rw [List.length_append, List.length_replicate]
  omega

theorem padded_ne_nil (width n : Nat) : padded width n ≠ [] := by
  unfold padded
  exact List.append_ne_nil_of_right_ne_nil _ (digits_ne_nil n)

def hexValue? (c : Char) : Option Nat :=
  if c.isDigit then some (c.toNat - '0'.toNat)
  else if 'a' ≤ c ∧ c ≤ 'f' then some (c.toNat - 'a'.toNat + 10)
  else if 'A' ≤ c ∧ c ≤ 'F' then some (c.toNat - 'A'.toNat + 10)
  else none

def hex (width n : Nat) : List Char :=
  let ds := Nat.toDigits 16 n
  List.replicate (width - ds.length) '0' ++ ds

end IndexRefresh.Text
