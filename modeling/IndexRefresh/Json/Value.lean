import IndexRefresh.Text.Numeral

namespace IndexRefresh

/-- A number as a document writes it: a natural number, or the text of any other one. -/
inductive Number where
  | nat (n : Nat)
  | other (text : String)
  deriving DecidableEq, Repr

/-- The text of a string is missing when its escapes spell half of a surrogate pair. -/
inductive Json where
  | null
  | bool (b : Bool)
  | num (n : Number)
  | str (text : Option String)
  | arr (items : List Json)
  | obj (members : List (Option String × Json))
  deriving Inhabited

namespace Json

def ofNat (n : Nat) : Json :=
  .num (.nat n)

def ofString (s : String) : Json :=
  .str (some s)

def record (members : List (String × Json)) : Json :=
  .obj (members.map fun m => (some m.1, m.2))

end Json

namespace Number

def isSign (c : Char) : Bool :=
  c == '+' || c == '-'

def skipFraction? (cs : List Char) : Option (List Char) :=
  match cs with
  | '.' :: rest => if (rest.takeWhile Char.isDigit).isEmpty then none
      else some (rest.dropWhile Char.isDigit)
  | _ => some cs

def skipExponent? (cs : List Char) : Option (List Char) :=
  match cs with
  | c :: rest =>
      if c == 'e' || c == 'E' then
        let rest := match rest with
          | s :: more => if isSign s then more else rest
          | [] => rest
        if (rest.takeWhile Char.isDigit).isEmpty then none else some (rest.dropWhile Char.isDigit)
      else some cs
  | [] => some cs

def ofLexeme? (cs : List Char) : Option Number := do
  let body := match cs with
    | '-' :: rest => rest
    | _ => cs
  let whole := body.takeWhile Char.isDigit
  let tail := body.dropWhile Char.isDigit
  if whole.isEmpty || (whole.head? == some '0' && whole.length != 1) then none
  else
    let rest ← skipFraction? tail
    let rest ← skipExponent? rest
    if rest.isEmpty then
      if cs.all Char.isDigit then some (.nat (Nat.ofDigitChars 10 cs 0))
      else some (.other (String.ofList cs))
    else none

def text : Number → List Char
  | .nat n => Text.digits n
  | .other t => t.toList

end Number

end IndexRefresh
