import IndexRefresh.Disk
import IndexRefresh.Event
import IndexRefresh.Json.Printer
import IndexRefresh.Json.Reader
import IndexRefresh.Store.Memory
import IndexRefresh.Text.Blank
import IndexRefresh.Update.Failure

namespace IndexRefresh

abbrev Document := Table Snapshot

namespace Document

def ofMembers? : List (Option String × Json) → Option (List (String × Snapshot))
  | [] => some []
  | (none, _) :: _ => none
  | (some k, v) :: ms => do
      let s ← ofJson? v
      let rest ← ofMembers? ms
      return (k, s) :: rest

/-- Of several snapshots under one name the last one counts. -/
def ofJson? : Json → Option Document
  | .obj ms => (ofMembers? ms).map Table.ofList
  | _ => none

def ofBytes? (bytes : ByteArray) : Option Document :=
  if bytes.toList.all fun b => Text.isAsciiBlank (Char.ofNat b.toNat) then some Table.empty
  else (Json.ofBytes? bytes).bind ofJson?

def toJson (d : Document) : Json :=
  Json.record (d.entries.map fun e => (e.1, JsonForm.toJson e.2))

def text (d : Document) : String :=
  d.toJson.pretty

end Document

structure DocumentStore (m : Type → Type) where
  files : Files m
  emit : Event → m Unit
  path : String

namespace DocumentStore

def unreadable : Fault :=
  .serialization "the text is not the expected document"

variable {m : Type → Type} [Monad m]

def document (s : DocumentStore m) : ExceptT Fault m Document := do
  match ← s.files.read s.path with
  | .ok bytes =>
      match Document.ofBytes? bytes with
      | some d => return d
      | none => throw unreadable
  | .error .notFound => return Table.empty
  | .error e => throw (.io e.text)

def run {α : Type} (action : m (Except OsError α)) : ExceptT Fault m α := do
  match ← action with
  | .ok a => return a
  | .error e => throw (.io e.text)

def get (s : DocumentStore m) (name : String) : ExceptT Fault m (Option Snapshot) := do
  let d ← s.document
  return d.get? name

def list (s : DocumentStore m) : ExceptT Fault m (List Snapshot) := do
  let d ← s.document
  return d.values

def temporaryPath (path : String) : String :=
  path ++ ".tmp"

/-- The document is written beside its file, then moved over it, so that the file holds a whole
document at all times. -/
def writeDocument (s : DocumentStore m) (d : Document) : ExceptT Fault m Unit := do
  if let some parent := FilePath.parent? s.path then run (s.files.createDirectory parent)
  run (s.files.write (temporaryPath s.path) d.text.toUTF8)
  run (s.files.rename (temporaryPath s.path) s.path)

def written (s : DocumentStore m) (name : String) : Event :=
  ⟨.debug, .document, "Repository metadata written",
   [("repository", .text name), ("path", .text s.path)]⟩

def put (s : DocumentStore m) (snapshot : Snapshot) : ExceptT Fault m Unit := do
  let d ← s.document
  s.writeDocument (d.insert snapshot.name snapshot)
  s.emit (s.written snapshot.name)

end DocumentStore

end IndexRefresh
