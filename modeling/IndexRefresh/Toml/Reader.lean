namespace IndexRefresh.Toml

abbrev Reader (α : Type) := List Char → Option (α × List Char)

def isGap (c : Char) : Bool :=
  c == ' ' || c == '\t'

def isPlain (c : Char) : Bool :=
  c == '\t' || (' ' ≤ c && c != '\x7f')

def skipGap (cs : List Char) : List Char :=
  cs.dropWhile isGap

def skipLines : List Char → List Char
  | ' ' :: rest => skipLines rest
  | '\t' :: rest => skipLines rest
  | '\n' :: rest => skipLines rest
  | '\r' :: '\n' :: rest => skipLines rest
  | cs => cs

def skipComments (cs : List Char) : List Char :=
  match cs with
  | ' ' :: rest => skipComments rest
  | '\t' :: rest => skipComments rest
  | '\n' :: rest => skipComments rest
  | '\r' :: '\n' :: rest => skipComments rest
  | '#' :: rest => skipComments (rest.dropWhile isPlain)
  | _ => cs
termination_by cs.length
decreasing_by
  all_goals simp only [List.length_cons]
  · omega
  · omega
  · omega
  · omega
  · exact Nat.lt_succ_of_le (List.dropWhile_suffix isPlain).length_le

def endOfLine? (cs : List Char) : Option (List Char) :=
  let rest := skipGap cs
  let rest := match rest with
    | '#' :: comment => comment.dropWhile isPlain
    | _ => rest
  match rest with
  | [] => some []
  | '\n' :: rest => some rest
  | '\r' :: '\n' :: rest => some rest
  | _ => none

/-- Reads pieces up to a closing mark, which may bring characters of its own. A piece that leaves
nothing shorter to read ends in failure. -/
def upTo (closing : Reader (List Char)) (piece : Reader (List Char)) (cs : List Char) :
    Option (List Char × List Char) :=
  match closing cs with
  | some r => some r
  | none =>
      match piece cs with
      | none => none
      | some (p, rest) =>
          if rest.length < cs.length then
            (upTo closing piece rest).map fun r => (p ++ r.1, r.2)
          else none
termination_by cs.length

end IndexRefresh.Toml
