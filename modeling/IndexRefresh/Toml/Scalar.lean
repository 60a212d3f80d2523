import IndexRefresh.Calendar.Date
import IndexRefresh.Settings.Tree
import IndexRefresh.Text.Cut
import IndexRefresh.Toml.Quote

namespace IndexRefresh.Toml

def grouped? (isDigit : Char → Bool) (cs : List Char) : Option (List Char) :=
  let groups := Text.split '_' cs
  if groups.all fun g => !g.isEmpty && g.all isDigit then some groups.flatten else none

def digits? (cs : List Char) : Option (List Char) :=
  grouped? Char.isDigit cs

def wholeDigits? (cs : List Char) : Option (List Char) :=
  (digits? cs).filter fun ds => ds.length = 1 || ds.head? != some '0'

def signed : List Char → Bool × List Char
  | '-' :: rest => (true, rest)
  | '+' :: rest => (false, rest)
  | cs => (false, cs)

def withBase? (base : Nat) (cs : List Char) : Option Nat := do
  let ds ← grouped? (fun c => (Text.hexValue? c).any (· < base)) cs
  let values ← ds.mapM Text.hexValue?
  return values.foldl (fun n d => n * base + d) 0

def whole? (lexeme : List Char) : Option Int := do
  let n ← match lexeme with
    | '0' :: 'x' :: ds => (withBase? 16 ds).map Int.ofNat
    | '0' :: 'o' :: ds => (withBase? 8 ds).map Int.ofNat
    | '0' :: 'b' :: ds => (withBase? 2 ds).map Int.ofNat
    | _ => do
        let (negative, body) := signed lexeme
        let ds ← wholeDigits? body
        let n := Nat.ofDigitChars 10 ds 0
        return if negative then -(n : Int) else n
  if Text.hasSignedWord n then some n else none

def fractional? (lexeme : List Char) : Option Binary64 := do
  let (negative, body) := signed lexeme
  let mantissa := body.takeWhile fun c => c != 'e' && c != 'E'
  let exponent ← match body.drop mantissa.length with
    | [] => if mantissa.contains '.' then some 0 else none
    | _ :: tail => do
        let (below, ds) := signed tail
        let n := Nat.ofDigitChars 10 (← digits? ds) 0
        some (if below then -(n : Int) else n)
  let (whole, fraction) ← match Text.cutAt '.' mantissa with
    | none => some (mantissa, [])
    | some (w, f) => (digits? f).map fun f => (w, f)
  let whole ← wholeDigits? whole
  return .ofDecimal negative (Nat.ofDigitChars 10 (whole ++ fraction) 0) (exponent - fraction.length)

def decimal? (lexeme : List Char) : Option Binary64 :=
  match signed lexeme with
  | (negative, ['i', 'n', 'f']) => some (.infinite negative)
  | (_, ['n', 'a', 'n']) => some .nan
  | _ => (fractional? lexeme).filter (· ≠ .infinite false)

def number? (size least most : Nat) (cs : List Char) : Option Nat := do
  let n ← Text.natOf? cs
  if cs.length = size ∧ least ≤ n ∧ n ≤ most then some n else none

def isDate (cs : List Char) : Bool :=
  match Text.split '-' cs with
  | [y, m, d] =>
      match number? 4 0 9999 y, number? 2 1 12 m, number? 2 1 31 d with
      | some y, some m, some d => (Date.of? y m d).isSome
      | _, _, _ => false
  | _ => false

def fractionText? : List Char → Option (List Char)
  | [] => some []
  | '.' :: ds => do
      let _ ← Text.natOf? ds
      let kept := Text.dropEnd (· == '0') (ds.take 9)
      return if kept.isEmpty then [] else '.' :: kept
  | _ => none

def isHourAndMinute (cs : List Char) : Bool :=
  match Text.split ':' cs with
  | [h, m] => (number? 2 0 23 h).isSome && (number? 2 0 59 m).isSome
  | _ => false

def offsetText? : List Char → Option (List Char)
  | [] => some []
  | ['Z'] => some ['Z']
  | ['z'] => some ['Z']
  | sign :: hm =>
      if (sign == '+' || sign == '-') && isHourAndMinute hm then
        some ((if hm = "00:00".toList then '+' else sign) :: hm)
      else none

def timeText? (cs : List Char) (withOffset : Bool) : Option (List Char) := do
  let isOffset (c : Char) : Bool := c == 'Z' || c == 'z' || c == '+' || c == '-'
  let clock := cs.takeWhile (! isOffset ·)
  let seconds := clock.take 8
  if !isHourAndMinute (seconds.take 5) || seconds[5]? != some ':' then none
  else
    let _ ← number? 2 0 60 (seconds.drop 6)
    let fraction ← fractionText? (clock.drop 8)
    let offset ← offsetText? (cs.drop clock.length)
    if withOffset || offset.isEmpty then some (seconds ++ fraction ++ offset) else none

def isLexeme (c : Char) : Bool :=
  c.isAlphanum || c == '_' || c == '-' || c == '+' || c == '.' || c == ':'

def moment? : Reader String := fun cs =>
  let lexeme := cs.takeWhile isLexeme
  let rest := cs.dropWhile isLexeme
  let dayPart := lexeme.take 10
  if isDate dayPart then
    match lexeme.drop 10, rest with
    | [], ' ' :: d :: more =>
        if d.isDigit then
          let time := (d :: more).takeWhile isLexeme
          (timeText? time true).map fun t =>
            (String.ofList (dayPart ++ 'T' :: t), (d :: more).dropWhile isLexeme)
        else some (String.ofList dayPart, rest)
    | [], _ => some (String.ofList dayPart, rest)
    | t :: time, _ =>
        if t = 'T' ∨ t = 't' then
          (timeText? time true).map fun time => (String.ofList (dayPart ++ 'T' :: time), rest)
        else none
  else (timeText? lexeme false).map fun t => (String.ofList t, rest)

def word? : Reader Setting := fun cs =>
  let lexeme := cs.takeWhile isLexeme
  let value? : Option Setting :=
    if lexeme = ['t', 'r', 'u', 'e'] then some (.flag true)
    else if lexeme = ['f', 'a', 'l', 's', 'e'] then some (.flag false)
    else ((decimal? lexeme).map Setting.decimal).or ((whole? lexeme).map .whole)
  value?.map fun v => (v, cs.dropWhile isLexeme)

def scalar? : Reader Setting := fun cs =>
  match cs with
  | '"' :: _ => (text? cs).map fun r => (.text r.1, r.2)
  | '\'' :: _ => (text? cs).map fun r => (.text r.1, r.2)
  | _ => ((moment? cs).map fun r => (Setting.text r.1, r.2)).or (word? cs)

end IndexRefresh.Toml
