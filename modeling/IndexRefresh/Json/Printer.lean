import IndexRefresh.Json.Token

namespace IndexRefresh.Json

mutual

def tokens : Json → List Token
  | .null => [.null]
  | .bool b => [.bool b]
  | .num n => [.num n]
  | .str t => [.str t]
  | .arr [] => [.openBracket, .closeBracket]
  | .arr (v :: vs) => .openBracket :: (v.tokens ++ itemTokens vs)
  | .obj [] => [.openBrace, .closeBrace]
  | .obj ((k, v) :: ms) => .openBrace :: .str k :: .colon :: (v.tokens ++ memberTokens ms)

def itemTokens : List Json → List Token
  | [] => [.closeBracket]
  | v :: vs => .comma :: (v.tokens ++ itemTokens vs)

def memberTokens : List (Option String × Json) → List Token
  | [] => [.closeBrace]
  | (k, v) :: ms => .comma :: .str k :: .colon :: (v.tokens ++ memberTokens ms)

end

def compact (v : Json) : String :=
  String.ofList (v.tokens.flatMap Token.chars)

/-- The blanks between two neighbouring tokens, the first at the given depth: every item and member
stands on a line of its own, two columns deeper than its container. -/
def gap (depth : Nat) : Token → Token → List Char
  | .openBracket, .closeBracket => []
  | .openBrace, .closeBrace => []
  | .openBracket, _ => '\n' :: List.replicate (2 * depth) ' '
  | .openBrace, _ => '\n' :: List.replicate (2 * depth) ' '
  | .comma, _ => '\n' :: List.replicate (2 * depth) ' '
  | _, .closeBracket => '\n' :: List.replicate (2 * (depth - 1)) ' '
  | _, .closeBrace => '\n' :: List.replicate (2 * (depth - 1)) ' '
  | .colon, _ => [' ']
  | _, _ => []

def depthAfter (depth : Nat) : Token → Nat
  | .openBracket => depth + 1
  | .openBrace => depth + 1
  | .closeBracket => depth - 1
  | .closeBrace => depth - 1
  | _ => depth

def spaced (depth : Nat) : List Token → List Char
  | [] => []
  | [t] => t.chars
  | t :: u :: ts =>
      let depth := depthAfter depth t
      t.chars ++ gap depth t u ++ spaced depth (u :: ts)

def pretty (v : Json) : String :=
  String.ofList (spaced 0 v.tokens)

end IndexRefresh.Json
