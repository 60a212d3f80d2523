import IndexRefresh.Json.Value

namespace IndexRefresh.Json

inductive Token where
  | openBracket
  | closeBracket
  | openBrace
  | closeBrace
  | colon
  | comma
  | null
  | bool (b : Bool)
  | num (n : Number)
  | str (text : Option String)
  deriving DecidableEq, Repr

namespace Token

def escaped (c : Char) : List Char :=
  if c = '"' then ['\\', '"']
  else if c = '\\' then ['\\', '\\']
  else if c = '\x08' then ['\\', 'b']
  else if c = '\x0c' then ['\\', 'f']
  else if c = '\n' then ['\\', 'n']
  else if c = '\r' then ['\\', 'r']
  else if c = '\t' then ['\\', 't']
  else if c < ' ' then ['\\', 'u'] ++ Text.hex 4 c.toNat
  else [c]

def chars : Token → List Char
  | .openBracket => ['[']
  | .closeBracket => [']']
  | .openBrace => ['\x7b']
  | .closeBrace => ['\x7d']
  | .colon => [':']
  | .comma => [',']
  | .null => ['n', 'u', 'l', 'l']
  | .bool true => ['t', 'r', 'u', 'e']
  | .bool false => ['f', 'a', 'l', 's', 'e']
  | .num n => n.text
  | .str (some t) => ['"'] ++ t.toList.flatMap escaped ++ ['"']
  | .str none => ['"', '\\', 'u', 'd', '8', '0', '0', '"']

def ofWord? : List Char → Option Token
  | ['n', 'u', 'l', 'l'] => some .null
  | ['t', 'r', 'u', 'e'] => some (.bool true)
  | ['f', 'a', 'l', 's', 'e'] => some (.bool false)
  | _ => none

def ofPunctuation? : Char → Option Token
  | '[' => some .openBracket
  | ']' => some .closeBracket
  | '\x7b' => some .openBrace
  | '\x7d' => some .closeBrace
  | ':' => some .colon
  | ',' => some .comma
  | _ => none

end Token

/-- A string that is being read: its characters, last first, unless it spells no text, and a high
surrogate that still needs its low one. -/
structure Quote where
  spelled : Option (List Char)
  high : Option Nat
  deriving DecidableEq, Repr

namespace Quote

def empty : Quote :=
  ⟨some [], none⟩

def spoil (_ : Quote) : Quote :=
  ⟨none, none⟩

def push (q : Quote) (c : Char) : Quote :=
  match q.high with
  | some _ => ⟨none, none⟩
  | none => ⟨q.spelled.map (c :: ·), none⟩

/-- Adds a unit of a `\u` escape; two units make one character when they are a surrogate pair. -/
def pushUnit (q : Quote) (u : Nat) : Quote :=
  if 0xD800 ≤ u ∧ u ≤ 0xDBFF then
    match q.high with
    | some _ => ⟨none, none⟩
    | none => ⟨q.spelled, some u⟩
  else if 0xDC00 ≤ u ∧ u ≤ 0xDFFF then
    match q.high with
    | some h =>
        let c := Char.ofNat (0x10000 + (h - 0xD800) * 0x400 + (u - 0xDC00))
        ⟨q.spelled.map (c :: ·), none⟩
    | none => ⟨none, none⟩
  else q.push (Char.ofNat u)

def text? (q : Quote) : Option String :=
  match q.high with
  | some _ => none
  | none => q.spelled.map fun cs => String.ofList cs.reverse

end Quote

inductive Mode where
  | gap
  | word (letters : List Char)
  | number (lexeme : List Char)
  | quote (q : Quote)
  | escape (q : Quote)
  | unit (q : Quote) (read value : Nat)
  deriving DecidableEq, Repr

structure Scan where
  found : List Token
  mode : Mode
  deriving DecidableEq, Repr

namespace Scan

def start : Scan :=
  ⟨[], .gap⟩

def isSpace (c : Char) : Bool :=
  c == ' ' || c == '\t' || c == '\n' || c == '\r'

def isLetter (c : Char) : Bool :=
  'a' ≤ c && c ≤ 'z'

def isNumberChar (c : Char) : Bool :=
  c.isDigit || c == '-' || c == '+' || c == '.' || c == 'e' || c == 'E'

def close (s : Scan) : Option (List Token) :=
  match s.mode with
  | .gap => some s.found
  | .word letters => (Token.ofWord? letters.reverse).map (· :: s.found)
  | .number lexeme => (Number.ofLexeme? lexeme.reverse).map (.num · :: s.found)
  | _ => none

def begin (found : List Token) (c : Char) : Option Scan :=
  if isSpace c then some ⟨found, .gap⟩
  else if c == '"' then some ⟨found, .quote .empty⟩
  else if isLetter c then some ⟨found, .word [c]⟩
  else if c.isDigit || c == '-' then some ⟨found, .number [c]⟩
  else (Token.ofPunctuation? c).map fun t => ⟨t :: found, .gap⟩

def unescaped? : Char → Option Char
  | '"' => some '"'
  | '\\' => some '\\'
  | '/' => some '/'
  | 'b' => some '\x08'
  | 'f' => some '\x0c'
  | 'n' => some '\n'
  | 'r' => some '\r'
  | 't' => some '\t'
  | _ => none

def step (s : Scan) (c : Char) : Option Scan :=
  match s.mode with
  | .quote q =>
      if c = '"' then some ⟨.str q.text? :: s.found, .gap⟩
      else if c = '\\' then some ⟨s.found, .escape q⟩
      else if c < ' ' then none
      else some ⟨s.found, .quote (q.push c)⟩
  | .escape q =>
      if c = 'u' then some ⟨s.found, .unit q 0 0⟩
      else (unescaped? c).map fun d => ⟨s.found, .quote (q.push d)⟩
  | .unit q read value => do
      let d ← Text.hexValue? c
      let value := value * 16 + d
      if read = 3 then some ⟨s.found, .quote (q.pushUnit value)⟩
      else some ⟨s.found, .unit q (read + 1) value⟩
  | .word letters =>
      if isLetter c then some ⟨s.found, .word (c :: letters)⟩
      else s.close.bind (begin · c)
  | .number lexeme =>
      if isNumberChar c then some ⟨s.found, .number (c :: lexeme)⟩
      else s.close.bind (begin · c)
  | .gap => begin s.found c

def stepUnit (s : Scan) : Option Char → Option Scan
  | some c => s.step c
  | none =>
      match s.mode with
      | .quote q => some ⟨s.found, .quote q.spoil⟩
      | _ => none

end Scan

def tokens? (cs : List Char) : Option (List Token) := do
  let s ← cs.foldlM Scan.step Scan.start
  let found ← s.close
  return found.reverse

def tokensOfBytes? (cs : List (Option Char)) : Option (List Token) := do
  let s ← cs.foldlM Scan.stepUnit Scan.start
  let found ← s.close
  return found.reverse

end IndexRefresh.Json
