import IndexRefresh.Text.Numeral
import IndexRefresh.Toml.Reader

namespace IndexRefresh.Toml

def codePoint? (size : Nat) : Reader Char := fun cs => do
  let ds ← (cs.take size).mapM Text.hexValue?
  let code := ds.foldl (fun n d => n * 16 + d) 0
  if ds.length = size then
    if h : code.isValidChar then return (Char.ofNatAux code h, cs.drop size) else none
  else none

def escape? : Reader Char
  | '"' :: rest => some ('"', rest)
  | '\\' :: rest => some ('\\', rest)
  | 'b' :: rest => some ('\x08', rest)
  | 'f' :: rest => some ('\x0c', rest)
  | 'n' :: rest => some ('\n', rest)
  | 'r' :: rest => some ('\r', rest)
  | 't' :: rest => some ('\t', rest)
  | 'u' :: rest => codePoint? 4 rest
  | 'U' :: rest => codePoint? 8 rest
  | _ => none

def closed (mark : Char) : Reader (List Char)
  | [] => none
  | c :: rest => if c = mark then some ([], rest) else none

/-- Three marks close a text of many lines; one or two more before them belong to it. -/
def closedLines (mark : Char) : Reader (List Char) := fun cs =>
  let run := (cs.takeWhile (· == mark)).length
  if run < 3 then none
  else
    let extra := min (run - 3) 2
    some (List.replicate extra mark, cs.drop (3 + extra))

def plain : Reader (List Char)
  | [] => none
  | c :: rest => if isPlain c then some ([c], rest) else none

def plainOrLineEnd : Reader (List Char)
  | '\n' :: rest => some (['\n'], rest)
  | '\r' :: '\n' :: rest => some (['\n'], rest)
  | cs => plain cs

def escaped : Reader (List Char)
  | '\\' :: rest => (escape? rest).map fun r => ([r.1], r.2)
  | cs => plain cs

def escapedLines : Reader (List Char)
  | '\\' :: rest =>
      match skipGap rest with
      | '\n' :: more => some ([], skipLines more)
      | '\r' :: '\n' :: more => some ([], skipLines more)
      | _ => (escape? rest).map fun r => ([r.1], r.2)
  | cs => plainOrLineEnd cs

def firstLine : List Char → List Char
  | '\n' :: rest => rest
  | '\r' :: '\n' :: rest => rest
  | cs => cs

def asText (r : List Char × List Char) : String × List Char :=
  (String.ofList r.1, r.2)

def quoted? : Reader String
  | '"' :: rest => (upTo (closed '"') escaped rest).map asText
  | '\'' :: rest => (upTo (closed '\'') plain rest).map asText
  | _ => none

def text? : Reader String
  | '"' :: '"' :: '"' :: rest => (upTo (closedLines '"') escapedLines (firstLine rest)).map asText
  | '\'' :: '\'' :: '\'' :: rest =>
      (upTo (closedLines '\'') plainOrLineEnd (firstLine rest)).map asText
  | cs => quoted? cs

def isBareKey (c : Char) : Bool :=
  c.isAlphanum || c == '_' || c == '-'

def key? : Reader String := fun cs =>
  let bare := cs.takeWhile isBareKey
  if bare.isEmpty then quoted? cs else some (String.ofList bare, cs.dropWhile isBareKey)

def keys? (cs : List Char) : Option (List String × List Char) :=
  match key? (skipGap cs) with
  | none => none
  | some (k, rest) =>
      match skipGap rest with
      | '.' :: more =>
          if more.length < cs.length then (keys? more).map fun r => (k :: r.1, r.2) else none
      | rest => some ([k], rest)
termination_by cs.length

def depthLimit : Nat :=
  80

def path? : Reader (List String) := fun cs =>
  (keys? cs).filter fun r => r.1.length < depthLimit

end IndexRefresh.Toml
