import IndexRefresh.Calendar.Date
import IndexRefresh.Json.Form
import IndexRefresh.Text.Blank

namespace IndexRefresh

structure Timestamp where
  date : Date
  hour : Fin 24
  minute : Fin 60
  second : Fin 61
  nano : Fin 1000000000
  deriving DecidableEq, Repr

namespace Timestamp

def fractionChars (nano : Nat) : List Char :=
  if nano = 0 then []
  else if nano % 1000000 = 0 then '.' :: Text.padded 3 (nano / 1000000)
  else if nano % 1000 = 0 then '.' :: Text.padded 6 (nano / 1000)
  else '.' :: Text.padded 9 nano

def chars (t : Timestamp) : List Char :=
  t.date.chars ++ 'T' :: Text.padded 2 t.hour ++ ':' :: Text.padded 2 t.minute ++
    ':' :: Text.padded 2 t.second ++ fractionChars t.nano ++ ['Z']

def text (t : Timestamp) : String :=
  String.ofList t.chars

def ofEpoch (seconds nano : Nat) : Timestamp where
  date := Date.epoch.later (seconds / 86400)
  hour := Fin.ofNat 24 (seconds / 3600)
  minute := Fin.ofNat 60 (seconds / 60)
  second := Fin.castLE (by decide) (Fin.ofNat 60 seconds)
  nano := Fin.ofNat 1000000000 nano

/-- A number of at least one and at most `most` digits, blanks in front passed over. -/
def number? (most : Nat) (cs : List Char) : Option (Nat × List Char) :=
  let cs := Text.dropStart Text.isBlank cs
  let ds := (cs.take most).takeWhile Char.isDigit
  if ds.isEmpty then none else some (Nat.ofDigitChars 10 ds 0, cs.drop ds.length)

def year? (cs : List Char) : Option (Int × List Char) :=
  match Text.dropStart Text.isBlank cs with
  | '-' :: rest => signed rest fun n => -(n : Int)
  | '+' :: rest => signed rest fun n => (n : Int)
  | cs => (number? 4 cs).map fun p => ((p.1 : Int), p.2)
where
  signed (cs : List Char) (f : Nat → Int) : Option (Int × List Char) :=
    match cs with
    | c :: _ => if c.isDigit then (number? cs.length cs).map fun p => (f p.1, p.2) else none
    | [] => none

def after? (c : Char) (cs : List Char) : Option (List Char) :=
  match Text.dropStart Text.isBlank cs with
  | d :: rest => if d = c then some rest else none
  | [] => none

def fraction? (cs : List Char) : Option (Nat × List Char) :=
  match cs with
  | '.' :: rest =>
      let ds := (rest.takeWhile Char.isDigit).take 9
      if ds.isEmpty then none
      else some (Nat.ofDigitChars 10 ds 0 * Nat.pow 10 (9 - ds.length), rest.dropWhile Char.isDigit)
  | _ => some (0, cs)

def twoDigits? (limit : Nat) (cs : List Char) : Option (Nat × List Char) :=
  match cs with
  | a :: b :: rest =>
      if a.isDigit && b.isDigit && Nat.ofDigitChars 10 [a, b] 0 < limit then
        some (Nat.ofDigitChars 10 [a, b] 0, rest)
      else none
  | _ => none

def offset? (cs : List Char) : Option (Int × List Char) :=
  match cs with
  | 'Z' :: rest => some (0, rest)
  | 'z' :: rest => some (0, rest)
  | '+' :: rest => amount rest fun n => (n : Int)
  | '-' :: rest => amount rest fun n => -(n : Int)
  | '−' :: rest => amount rest fun n => -(n : Int)
  | u :: t :: c :: rest =>
      if [u, t, c].map Char.toUpper = ['U', 'T', 'C'] then some (0, rest) else none
  | _ => none
where
  amount (cs : List Char) (f : Nat → Int) : Option (Int × List Char) := do
    let (hours, rest) ← twoDigits? 24 cs
    let (minutes, rest) ← twoDigits? 60 (rest.dropWhile fun c => c == ':' || Text.isBlank c)
    some (f (hours * 60 + minutes), rest)

def ofLocal? (date : Date) (hour minute second nano : Nat) (ahead : Int) : Option Timestamp :=
  if h : hour < 24 ∧ minute < 60 ∧ second < 61 ∧ nano < 1000000000 then
    let total : Int := hour * 60 + minute - ahead
    let inDay := (total % 1440).toNat
    let day? :=
      if total < 0 then date.previous? else if total < 1440 then some date else date.next?
    day?.map fun day =>
      { date := day
        hour := Fin.ofNat 24 (inDay / 60)
        minute := Fin.ofNat 60 (inDay % 60)
        second := ⟨second, h.2.2.1⟩
        nano := ⟨nano, h.2.2.2⟩ }
  else none

/-- Reads a date, one of `T`, `t` and a space, a time and an offset; blanks may stand before every
number and separator. -/
def ofChars? (cs : List Char) : Option Timestamp := do
  let (year, cs) ← year? cs
  let (month, cs) ← number? 2 (← after? '-' cs)
  let (day, cs) ← number? 2 (← after? '-' cs)
  let date ← Date.of? year month day
  let cs ← match cs with
    | c :: rest => if c == 'T' || c == 't' || c == ' ' then some rest else none
    | [] => none
  let (hour, cs) ← number? 2 cs
  let (minute, cs) ← number? 2 (← after? ':' cs)
  let (second, cs) ← number? 2 (← after? ':' cs)
  let (nano, cs) ← fraction? cs
  let (ahead, cs) ← offset? (Text.dropStart Text.isBlank cs)
  if (Text.dropStart Text.isBlank cs).isEmpty then ofLocal? date hour minute second nano ahead
  else none

end Timestamp

instance : JsonForm Timestamp where
  toJson t := Json.ofString t.text
  ofJson?
    | .str (some s) => Timestamp.ofChars? s.toList
    | _ => none

end IndexRefresh
