import IndexRefresh.Text.Numeral

namespace IndexRefresh

def isLeapYear (year : Int) : Bool :=
  year % 4 == 0 && (year % 100 != 0 || year % 400 == 0)

def daysIn (year : Int) (month : Nat) : Nat :=
  if month = 2 then if isLeapYear year then 29 else 28
  else if month = 4 ∨ month = 6 ∨ month = 9 ∨ month = 11 then 30
  else 31

structure Date where
  year : Int
  month : Nat
  day : Nat
  year_mem : -262143 ≤ year ∧ year ≤ 262142
  month_mem : 1 ≤ month ∧ month ≤ 12
  day_mem : 1 ≤ day ∧ day ≤ daysIn year month
  deriving DecidableEq, Repr

namespace Date

def of? (year : Int) (month day : Nat) : Option Date :=
  if h : (-262143 ≤ year ∧ year ≤ 262142) ∧ (1 ≤ month ∧ month ≤ 12) ∧
      (1 ≤ day ∧ day ≤ daysIn year month) then
    some ⟨year, month, day, h.1, h.2.1, h.2.2⟩
  else none

theorem of?_self (d : Date) : of? d.year d.month d.day = some d := by
  simp [of?, d.year_mem, d.month_mem, d.day_mem]

def next? (d : Date) : Option Date :=
  (of? d.year d.month (d.day + 1)).or ((of? d.year (d.month + 1) 1).or (of? (d.year + 1) 1 1))

def previous? (d : Date) : Option Date :=
  (of? d.year d.month (d.day - 1)).or
    ((of? d.year (d.month - 1) (daysIn d.year (d.month - 1))).or (of? (d.year - 1) 12 31))

def epoch : Date :=
  ⟨1970, 1, 1, by decide, by decide, by decide⟩

def later (d : Date) : Nat → Date
  | 0 => d
  | n + 1 => (d.next?.getD d).later n

def yearChars (year : Int) : List Char :=
  if 0 ≤ year ∧ year ≤ 9999 then Text.padded 4 year.toNat
  else if year < 0 then '-' :: Text.padded 4 year.natAbs
  else '+' :: Text.padded 4 year.natAbs

def chars (d : Date) : List Char :=
  yearChars d.year ++ '-' :: Text.padded 2 d.month ++ '-' :: Text.padded 2 d.day

end Date

end IndexRefresh
