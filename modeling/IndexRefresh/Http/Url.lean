import IndexRefresh.Text.Blank
import IndexRefresh.Text.Cut
import IndexRefresh.Text.Numeral

namespace IndexRefresh.Http

structure Url where
  scheme : String
  authority : String
  path : String
  query : Option String
  deriving DecidableEq, Repr

namespace Url

def target (u : Url) : String :=
  match u.query with
  | some q => u.path ++ "?" ++ q
  | none => u.path

def origin (u : Url) : String :=
  u.scheme ++ "://" ++ u.authority

def escapedByte (b : UInt8) : List Char :=
  '%' :: (Text.hex 2 b.toNat).map Char.toUpper

def percentEncode (mustEscape : Char → Bool) (cs : List Char) : List Char :=
  cs.flatMap fun c =>
    if mustEscape c then (String.singleton c).toUTF8.toList.flatMap escapedByte else [c]

def isControlOrForeign (c : Char) : Bool :=
  c.toNat < 0x20 || 0x7E < c.toNat

def escapedInPath (c : Char) : Bool :=
  isControlOrForeign c || [' ', '"', '#', '<', '>', '?', Char.ofNat 0x60, '\x7b', '\x7d'].contains c

def escapedInQuery (c : Char) : Bool :=
  isControlOrForeign c || [' ', '"', '#', '<', '>', '\''].contains c

def isSlash (c : Char) : Bool :=
  c == '/' || c == '\\'

def cleaned (cs : List Char) : List Char :=
  (Text.strip (fun c => c.toNat ≤ 0x20) cs).filter fun c => !(c == '\t' || c == '\n' || c == '\r')

def isSingleDot (segment : List Char) : Bool :=
  [".", "%2e"].contains (String.ofList (segment.map Char.toLower))

def isDoubleDot (segment : List Char) : Bool :=
  ["..", ".%2e", "%2e.", "%2e%2e"].contains (String.ofList (segment.map Char.toLower))

/-- The segments of a path, last first, with one more segment; a dot stays where it is and two dots
go up. -/
def addSegment (segments : List (List Char)) (segment : List Char) : List (List Char) :=
  if isDoubleDot segment then segments.drop 1
  else if isSingleDot segment then segments
  else percentEncode escapedInPath segment :: segments

def addLast (segments : List (List Char)) (segment : List Char) : List (List Char) :=
  if isDoubleDot segment then [] :: segments.drop 1
  else if isSingleDot segment then [] :: segments
  else percentEncode escapedInPath segment :: segments

def joinSegments (segments : List (List Char)) : List Char :=
  segments.reverse.flatMap fun s => '/' :: s

def slashed (cs : List Char) : List Char :=
  cs.map fun c => if isSlash c then '/' else c

def normalPath (cs : List Char) : List Char :=
  let pieces := Text.split '/' (slashed cs).tail
  joinSegments (addLast (pieces.dropLast.foldl addSegment []) (pieces.getLast?.getD []))

/-- An address splits into what comes before the query, the query, and a fragment that is lost. -/
def splitQuery (cs : List Char) : List Char × Option (List Char) :=
  let cs := cs.takeWhile (· != '#')
  match Text.cutAt '?' cs with
  | some (before, query) => (before, some query)
  | none => (cs, none)

def ofParts (scheme authority : String) (path : List Char) (query : Option (List Char)) : Url :=
  ⟨scheme, authority, String.ofList (normalPath path),
   query.map fun q => String.ofList (percentEncode escapedInQuery q)⟩

def isSchemeChar (c : Char) : Bool :=
  c.isAlphanum || c == '+' || c == '-' || c == '.'

def scheme? (cs : List Char) : Option (String × List Char) :=
  match Text.cutAt ':' cs with
  | some (scheme, rest) =>
      if (scheme.head?.map Char.isAlpha).getD false && scheme.all isSchemeChar then
        some (String.ofList (scheme.map Char.toLower), rest)
      else none
  | none => none

/-- The host and port; who asks is dropped, and so is the port that the scheme has anyway. -/
def authority? (scheme : String) (cs : List Char) : Option String :=
  let host := match Text.cutAt '@' cs.reverse with
    | some (host, _) => host.reverse
    | none => cs
  let host := String.ofList (host.map Char.toLower)
  let standardPort := if scheme = "http" then ":80" else ":443"
  let host := String.ofList (Text.withoutEnd standardPort.toList host.toList)
  if host.isEmpty then none else some host

def afterScheme? (scheme : String) (rest : List Char) : Option Url :=
  let rest := rest.dropWhile isSlash
  let (before, query) := splitQuery rest
  let isHostChar (c : Char) : Bool := !isSlash c
  (authority? scheme (before.takeWhile isHostChar)).map fun authority =>
    ofParts scheme authority (before.dropWhile isHostChar) query

def isWebScheme (scheme : String) : Bool :=
  scheme == "http" || scheme == "https"

def ofText? (text : String) : Option Url := do
  let (scheme, rest) ← scheme? (cleaned text.toList)
  if isWebScheme scheme then afterScheme? scheme rest else none

def directory (path : List Char) : List Char :=
  (path.reverse.dropWhile (· != '/')).reverse

def beside? (base : Url) (cs : List Char) : Option Url :=
  let (before, query) := splitQuery cs
  match before with
  | a :: b :: rest =>
      if isSlash a && isSlash b then afterScheme? base.scheme cs
      else if isSlash a then some (ofParts base.scheme base.authority before query)
      else some (ofParts base.scheme base.authority
        (directory base.path.toList ++ a :: b :: rest) query)
  | [a] =>
      if isSlash a then some (ofParts base.scheme base.authority [a] query)
      else some (ofParts base.scheme base.authority (directory base.path.toList ++ [a]) query)
  | [] =>
      some { base with
        query := match query with
          | some q => some (String.ofList (percentEncode escapedInQuery q))
          | none => base.query }

def join? (base : Url) (reference : String) : Option Url :=
  let cs := cleaned reference.toList
  match scheme? cs with
  | some (scheme, rest) =>
      if scheme = base.scheme && !((rest.take 2).length == 2 && (rest.take 2).all isSlash) then
        base.beside? rest
      else if isWebScheme scheme then afterScheme? scheme rest
      else none
  | none => base.beside? cs

end Url

end IndexRefresh.Http
