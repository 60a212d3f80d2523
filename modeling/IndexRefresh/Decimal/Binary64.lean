import IndexRefresh.Text.Blank
import IndexRefresh.Text.Numeral

namespace IndexRefresh

inductive Binary64 where
  | nan
  | infinite (negative : Bool)
  | finite (negative : Bool) (significand : Nat) (exponent : Int)
  deriving DecidableEq, Repr

namespace Binary64

def leastExponent : Int :=
  -1074

def greatestExponent : Int :=
  971

def roundEven (num den : Nat) : Nat :=
  let q := num / den
  let r := num % den
  if 2 * r < den then q
  else if den < 2 * r then q + 1
  else if q % 2 = 0 then q else q + 1

def fullSignificand : Nat :=
  4503599627370496

/-- The quotient `num / den / 2 ^ q` as a fraction. -/
def scaled (num den : Nat) (q : Int) : Nat × Nat :=
  if 0 ≤ q then (num, den * Nat.pow 2 q.toNat) else (num * Nat.pow 2 (-q).toNat, den)

def exponentFor (num den : Nat) : Int :=
  let guess := max leastExponent ((num.log2 : Int) - (den.log2 : Int) - 53)
  let (n, d) := scaled num den guess
  if n / d < 2 * fullSignificand then guess else guess + 1

def ofFraction (negative : Bool) (num den : Nat) : Binary64 :=
  if num = 0 then .finite negative 0 leastExponent
  else
    let q := exponentFor num den
    let (n, d) := scaled num den q
    let m := roundEven n d
    let (m, q) := if m = 2 * fullSignificand then (fullSignificand, q + 1) else (m, q)
    if greatestExponent < q then .infinite negative else .finite negative m q

def ofDecimal (negative : Bool) (digits : Nat) (exponent : Int) : Binary64 :=
  let size : Int := (Text.digits digits).length + exponent
  if digits = 0 then .finite negative 0 leastExponent
  else if 310 < size then .infinite negative
  else if size < -330 then .finite negative 0 leastExponent
  else if 0 ≤ exponent then ofFraction negative (digits * Nat.pow 10 exponent.toNat) 1
  else ofFraction negative digits (Nat.pow 10 (-exponent).toNat)

def exponent? (cs : List Char) : Option Int :=
  match cs with
  | [] => some 0
  | c :: rest =>
      if c == 'e' || c == 'E' then
        match rest with
        | '-' :: ds => (Text.natOf? ds).map fun n => -(n : Int)
        | '+' :: ds => (Text.natOf? ds).map fun n => (n : Int)
        | ds => (Text.natOf? ds).map fun n => (n : Int)
      else none

def ofDigits? (negative : Bool) (cs : List Char) : Option Binary64 :=
  let whole := cs.takeWhile Char.isDigit
  let rest := cs.dropWhile Char.isDigit
  let (fraction, rest) := match rest with
    | '.' :: more => (more.takeWhile Char.isDigit, more.dropWhile Char.isDigit)
    | _ => ([], rest)
  let digits := whole ++ fraction
  if digits.isEmpty then none
  else (exponent? rest).map fun e =>
    ofDecimal negative (Nat.ofDigitChars 10 digits 0) (e - fraction.length)

def ofText? (cs : List Char) : Option Binary64 :=
  let (negative, cs) := match cs with
    | '-' :: rest => (true, rest)
    | '+' :: rest => (false, rest)
    | _ => (false, cs)
  let word := String.ofList (cs.map Char.toLower)
  if word = "inf" ∨ word = "infinity" then some (.infinite negative)
  else if word = "nan" then some .nan
  else ofDigits? negative cs

/-- The number between the ends of the interval of reals that are nearest to it, as multiples of
`2 ^ (exponent - 2)`. -/
def bounds (m : Nat) (q : Int) : Nat × Nat × Nat :=
  let low := if m = fullSignificand ∧ leastExponent < q then 4 * m - 1 else 4 * m - 2
  (low, 4 * m, 4 * m + 2)

/-- The number of digits before the point of the positive fraction `num / den`; not positive for
one below a tenth. -/
def magnitude (num den : Nat) : Int :=
  let guess : Int := (Text.digits num).length - (Text.digits den).length
  let atLeast (k : Int) : Bool :=
    if 0 ≤ k then den * Nat.pow 10 k.toNat ≤ num else den ≤ num * Nat.pow 10 (-k).toNat
  if atLeast guess then guess + 1 else guess

def onGrid? (m : Nat) (q : Int) (n : Nat) : Option (Nat × Int) :=
  let (low, mid, high) := bounds m q
  let (num, den) := scaled mid 1 (2 - q)
  let k := magnitude num den
  let unit := k - n
  let up (x : Nat) : Nat := if 0 ≤ unit then x * Nat.pow 10 unit.toNat else x
  let down (x : Nat) : Nat := if 0 ≤ unit then x else x * Nat.pow 10 (-unit).toNat
  let fits (x : Nat) : Bool :=
    let (value, lowEnd, highEnd) := (up x * den, down (num / mid * low), down (num / mid * high))
    if m % 2 = 0 then lowEnd ≤ value && value ≤ highEnd else lowEnd < value && value < highEnd
  let below := down num / up den
  let candidates := [below, below + 1].filter fits
  match candidates with
  | [] => none
  | [x] => some (x, unit)
  | x :: y :: _ =>
      let distance (z : Nat) : Nat :=
        let (a, b) := (up z * den, down num)
        if a ≤ b then b - a else a - b
      some (if distance y < distance x then y else x, unit)

/-- The fewest digits that stand for a positive number, with the power of ten of the last one. A
last digit zero comes only from rounding up to a power of ten. -/
def shortest (m : Nat) (q : Int) : Nat × Int :=
  let (digits, exponent) := ((List.range 17).findSome? fun n => onGrid? m q (n + 1)).getD (m, q)
  if digits % 10 = 0 then (digits / 10, exponent + 1) else (digits, exponent)

def positional (digits : Nat) (exponent : Int) : List Char :=
  let ds := Text.digits digits
  if 0 ≤ exponent then ds ++ List.replicate exponent.toNat '0'
  else
    let places := (-exponent).toNat
    if places < ds.length then
      ds.take (ds.length - places) ++ '.' :: ds.drop (ds.length - places)
    else ['0', '.'] ++ List.replicate (places - ds.length) '0' ++ ds

def text : Binary64 → String
  | .nan => "NaN"
  | .infinite negative => if negative then "-inf" else "inf"
  | .finite negative m q =>
      let sign := if negative then ['-'] else []
      if m = 0 then String.ofList (sign ++ ['0'])
      else
        let (digits, exponent) := shortest m q
        String.ofList (sign ++ positional digits exponent)

/-- The nearest natural number that fits 64 bits, halves rounded up; zero for no number. -/
def toCounter : Binary64 → UInt64
  | .nan => 0
  | .infinite negative => if negative then 0 else 18446744073709551615
  | .finite negative m q =>
      if negative then 0
      else
        let (num, den) := scaled m 1 (-q)
        let n := (2 * num + den) / (2 * den)
        if n < UInt64.size then n.toUInt64 else 18446744073709551615

end Binary64

end IndexRefresh
