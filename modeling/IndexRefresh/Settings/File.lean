import IndexRefresh.Json.Reader
import IndexRefresh.Settings.Layers
import IndexRefresh.Toml.Document

namespace IndexRefresh

namespace Setting

/-- Whole numbers have 64 bits, one of them for the sign; others and a negative zero are decimals,
none of which may be too large. -/
def ofNumber? (n : Number) : Option Setting :=
  let decimal? := (Binary64.ofText? n.text).bind fun x =>
    match x with
    | .infinite _ => none
    | x => some (.decimal x)
  match n with
  | .nat n => if Text.hasSignedWord n then some (.whole n) else decimal?
  | .other t =>
      match Text.signed? t.toList with
      | some n => if n = 0 then decimal? else some (.whole n)
      | none => decimal?

def jsonDepthLimit : Nat :=
  128

mutual

/-- The setting that a JSON value gives below the given number of open lists and objects. Of
members under one key the last one counts. -/
def ofJson? (depth : Nat) : Json → Option Setting
  | .null => some .null
  | .bool b => some (.flag b)
  | .num n => ofNumber? n
  | .str t => t.map .text
  | .arr vs =>
      if depth + 1 < jsonDepthLimit then (ofItems? (depth + 1) vs).map .list else none
  | .obj ms =>
      if depth + 1 < jsonDepthLimit then (ofMembers? (depth + 1) [] ms).map .branch else none

def ofItems? (depth : Nat) : List Json → Option (List Setting)
  | [] => some []
  | v :: vs => do
      let first ← ofJson? depth v
      let rest ← ofItems? depth vs
      return first :: rest

def ofMembers? (depth : Nat) (es : Entries Setting) :
    List (Option String × Json) → Option (Entries Setting)
  | [] => some es
  | (none, _) :: _ => none
  | (some k, v) :: ms => do
      let value ← ofJson? depth v
      ofMembers? depth (Entries.put k value es) ms

end

end Setting

namespace Setting

def entriesOfJson? (text : String) : Option (Entries Setting) :=
  match (Json.ofText? text).bind (ofJson? 0) with
  | some (.branch es) => some es
  | _ => none

end Setting

inductive FileFormat where
  | toml
  | json
  | yaml
  | ini
  | ron
  | json5
  deriving DecidableEq, Repr

namespace FileFormat

def all : List FileFormat :=
  [.toml, .json, .yaml, .ini, .ron, .json5]

def endings : FileFormat → List String
  | .toml => ["toml"]
  | .json => ["json"]
  | .yaml => ["yaml", "yml"]
  | .ini => ["ini"]
  | .ron => ["ron"]
  | .json5 => ["json5"]

def ofEnding? (ending : String) : Option FileFormat :=
  all.find? (·.endings.contains ending)

end FileFormat

/-- The order in which formats are tried for a name without an ending, which may be any, and the
decoders of those formats that are not decoded here. -/
structure FileFormats where
  order : List FileFormat
  perm : order.Perm FileFormat.all
  yaml : String → Option Layer
  ini : String → Option Layer
  ron : String → Option Layer
  json5 : String → Option Layer

namespace FileFormats

def plain : FileFormats where
  order := FileFormat.all
  perm := .refl _
  yaml _ := none
  ini _ := none
  ron _ := none
  json5 _ := none

def trials (formats : FileFormats) : List (String × FileFormat) :=
  formats.order.flatMap fun format => format.endings.map fun ending => (ending, format)

def layer? (formats : FileFormats) (format : FileFormat) (text : String) : Option Layer :=
  match format with
  | .toml => (Toml.ofText? text.toList).map Layer.ofFile
  | .json => (Setting.entriesOfJson? text).map Layer.ofFile
  | .yaml => formats.yaml text
  | .ini => formats.ini text
  | .ron => formats.ron text
  | .json5 => formats.json5 text

end FileFormats

/-- The text of a file without a byte order mark; each stray byte becomes a replacement character. -/
def textOfBytes (bytes : ByteArray) : String :=
  let text := String.ofList ((Text.decodeBytes bytes.toList).map (·.getD '\uFFFD'))
  if text.startsWith "\uFEFF" then String.ofList (text.toList.drop 1) else text

structure SettingsFile where
  format : FileFormat
  content : ByteArray

namespace SettingsFile

def layer? (formats : FileFormats) (f : SettingsFile) : Option Layer :=
  formats.layer? f.format (textOfBytes f.content)

variable {m : Type → Type} [Monad m]

/-- The first file of that name with one of the endings. One that is there and cannot be read ends
the search. -/
def findEnding? (files : Files m) (name : String) :
    List (String × FileFormat) → m (Option SettingsFile)
  | [] => return none
  | (ending, format) :: trials => do
      match ← files.read (FilePath.withEnding name ending) with
      | .ok content => return some ⟨format, content⟩
      | .error e => if e.isNoFile then findEnding? files name trials else return none

/-- The file of exactly that name, whose ending must then be that of a format, or else one whose
ending the name leaves out. -/
def find? (files : Files m) (formats : FileFormats) (name : String) :
    m (Option SettingsFile) := do
  match ← files.read name with
  | .ok content =>
      return (FileFormat.ofEnding? (FilePath.extension name)).map fun format => ⟨format, content⟩
  | .error e => if e.isNoFile then findEnding? files name formats.trials else return none

end SettingsFile

end IndexRefresh
