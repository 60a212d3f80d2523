import IndexRefresh.Text.Numeral

namespace IndexRefresh.Text

def NoLeadingZero (ds : List Char) : Prop :=
  ds = ['0'] ∨ ds.head? ≠ some '0'

def PlainWhole : List Char → Prop
  | '-' :: ds => ds.head? ≠ some '0'
  | '+' :: _ => False
  | ds => NoLeadingZero ds

theorem natOf?_eq_some_iff {ds : List Char} {n : Nat} :
    natOf? ds = some n ↔
      ds ≠ [] ∧ (∀ c ∈ ds, c.isDigit = true) ∧ Nat.ofDigitChars 10 ds 0 = n := by
  simp [natOf?, and_assoc]

theorem exists_digit {c : Char} (h : c.isDigit = true) :
    ∃ d < 10, c.toNat - '0'.toNat = d ∧ Nat.digitChar d = c := by
  have hrange : 48 ≤ c.toNat ∧ c.toNat ≤ 57 := Char.isDigit_iff_toNat.1 h
  have hlt : c.toNat - 48 < 10 := by omega
  refine ⟨c.toNat - 48, hlt, rfl, Char.toNat_inj.1 ?_⟩
  rw [Nat.toNat_digitChar_of_lt_ten hlt]
  omega

theorem digits_ofDigitChars_of_pos {ds : List Char} (hall : ∀ c ∈ ds, c.isDigit = true)
    {start : Nat} (hpos : 0 < start) :
    digits (Nat.ofDigitChars 10 ds start) = digits start ++ ds := by
  -- the digits of the start are kept only if it is positive, so the first digit is not a case here
  induction ds generalizing start with
  | nil => exact (List.append_nil _).symm
  | cons c ds ih =>
      obtain ⟨d, hd, hvalue, hchar⟩ := exists_digit (hall c (List.mem_cons_self ..))
      have hrest := ih (fun x hx => hall x (List.mem_cons_of_mem _ hx))
        (show 0 < 10 * start + d by omega)
      have hlast : digits start ++ [c] = digits (10 * start + d) := by
        rw [← hchar, ← Nat.toDigits_of_lt_base hd]
        exact Nat.toDigits_append_toDigits (by decide) hpos hd
      rw [Nat.ofDigitChars_cons, hvalue, hrest, ← hlast, List.append_assoc, List.singleton_append]

theorem digits_ofDigitChars {ds : List Char} (hne : ds ≠ []) (hall : ∀ c ∈ ds, c.isDigit = true)
    (hhead : ds.head? ≠ some '0') : digits (Nat.ofDigitChars 10 ds 0) = ds := by
  obtain ⟨c, ds, rfl⟩ := List.exists_cons_of_ne_nil hne
  obtain ⟨d, hd, hvalue, hchar⟩ := exists_digit (hall c (List.mem_cons_self ..))
  have hpos : 0 < d := by
    refine Nat.pos_of_ne_zero fun hzero => hhead ?_
    rw [List.head?_cons, ← hchar, hzero]
    rfl
  rw [Nat.ofDigitChars_cons, hvalue, Nat.mul_zero, Nat.zero_add,
    digits_ofDigitChars_of_pos (fun x hx => hall x (List.mem_cons_of_mem _ hx)) hpos, digits,
    Nat.toDigits_of_lt_base hd, hchar, List.singleton_append]

theorem digits_eq_iff {ds : List Char} {n : Nat} (h : natOf? ds = some n) :
    digits n = ds ↔ NoLeadingZero ds := by
  obtain ⟨hne, hall, rfl⟩ := natOf?_eq_some_iff.1 h
  constructor
  · intro hds
    rcases Nat.eq_zero_or_pos (Nat.ofDigitChars 10 ds 0) with hzero | hpos
    · rw [hzero] at hds
      exact .inl hds.symm
    · exact .inr (hds ▸ head?_digits_ne hpos)
  · rintro (rfl | hhead)
    · rfl
    · exact digits_ofDigitChars hne hall hhead

theorem head?_ne_zero_iff {ds : List Char} {n : Nat} (h : natOf? ds = some n) :
    ds.head? ≠ some '0' ↔ n ≠ 0 ∧ digits n = ds := by
  constructor
  · intro hhead
    have hds : digits n = ds := (digits_eq_iff h).2 (.inr hhead)
    refine ⟨?_, hds⟩
    rintro rfl
    exact hhead (hds ▸ rfl)
  · rintro ⟨hn, rfl⟩
    exact head?_digits_ne (Nat.pos_of_ne_zero hn)

theorem head?_ne_of_natOf? {c : Char} {ds : List Char} {n : Nat} (h : natOf? ds = some n)
    (hc : c.isDigit = false) : ds.head? ≠ some c := by
  intro hhead
  rw [(natOf?_eq_some_iff.1 h).2.1 c (List.mem_of_mem_head? hhead)] at hc
  cases hc

theorem signed?_cases {cs : List Char} {n : Int} (h : signed? cs = some n) :
    (∃ ds m, cs = '-' :: ds ∧ natOf? ds = some m ∧ n = -(m : Int)) ∨
      (∃ ds m, cs = '+' :: ds ∧ natOf? ds = some m ∧ n = m) ∨
      ∃ m, natOf? cs = some m ∧ n = m := by
  have hvalue := (Option.filter_eq_some_iff.1 h).1
  split at hvalue
  · next ds =>
      obtain ⟨k, hk, rfl⟩ := Option.map_eq_some_iff.1 hvalue
      obtain ⟨m, hm, hcast⟩ := Option.bind_eq_some_iff.1 hk
      cases hcast
      exact .inl ⟨ds, m, rfl, hm, rfl⟩
  · obtain ⟨m, hm, rfl⟩ := Option.map_eq_some_iff.1 hvalue
    unfold unsigned? at hm
    split at hm
    · next ds _ => exact .inr (.inl ⟨ds, m, rfl, hm, rfl⟩)
    · exact .inr (.inr ⟨m, hm, rfl⟩)

theorem plainWhole_iff {ds : List Char} {n : Nat} (h : natOf? ds = some n) :
    PlainWhole ds ↔ NoLeadingZero ds := by
  unfold PlainWhole
  split
  · exact absurd rfl (head?_ne_of_natOf? h (by decide))
  · exact absurd rfl (head?_ne_of_natOf? h (by decide))
  · exact Iff.rfl

end IndexRefresh.Text
