import IndexRefresh.Table
import IndexRefresh.Text.Blank
import IndexRefresh.Text.Cut

namespace IndexRefresh

inductive OsError where
  | notFound
  | brokenPipe
  | exists
  | notDirectory
  | isDirectory
  | denied
  | other (text : String)
  deriving DecidableEq, Repr

namespace OsError

def text : OsError → String
  | .notFound => "No such file or directory (os error 2)"
  | .brokenPipe => "Broken pipe (os error 32)"
  | .exists => "File exists (os error 17)"
  | .notDirectory => "Not a directory (os error 20)"
  | .isDirectory => "Is a directory (os error 21)"
  | .denied => "Permission denied (os error 13)"
  | .other text => text

def isNoFile : OsError → Bool
  | .notFound => true
  | .notDirectory => true
  | .isDirectory => true
  | _ => false

end OsError

structure Files (m : Type → Type) where
  read : String → m (Except OsError ByteArray)
  write : String → ByteArray → m (Except OsError Unit)
  rename : String → String → m (Except OsError Unit)
  createDirectory : String → m (Except OsError Unit)

namespace FilePath

def isSelf (piece : List Char) : Bool :=
  piece == [] || piece == ['.']

def parent? (path : String) : Option String :=
  match (Text.split '/' path.toList).reverse.dropWhile isSelf with
  | [] => none
  | [_] => none
  | _ :: above =>
      match above.dropWhile isSelf with
      | [] => some (if path.toList.head? = some '/' then "/" else ".")
      | above => some (String.ofList (['/'].intercalate above.reverse))

def join (directory path : String) : String :=
  if path.toList.head? = some '/' then path
  else if directory.isEmpty then path
  else if directory.toList.getLast? = some '/' then directory ++ path
  else directory ++ "/" ++ path

def name? (path : String) : Option (List Char) :=
  let cs := Text.dropEnd (· == '/') path.toList
  let name := (cs.reverse.takeWhile (· != '/')).reverse
  if name = [] ∨ name = ['.'] ∨ name = ['.', '.'] then none else some name

def extension (path : String) : String :=
  match name? path with
  | none => ""
  | some name =>
      let ending := (name.reverse.takeWhile (· != '.')).reverse
      if ending.length + 1 < name.length then String.ofList ending else ""

def withEnding (path ending : String) : String :=
  match name? path with
  | none => path
  | some _ => String.ofList (Text.dropEnd (· == '/') path.toList) ++ "." ++ ending

end FilePath

inductive DiskNode where
  | directory
  | file (content : ByteArray)

abbrev Disk := Table DiskNode

namespace Disk

def names (path : String) : List String :=
  ((Text.split '/' path.toList).filter fun n => !FilePath.isSelf n).map String.ofList

def key (names : List String) : String :=
  names.foldl (fun k n => k ++ "/" ++ n) ""

def checkAbove (d : Disk) (above : List String) : Except OsError Unit :=
  (List.range above.length).forM fun n =>
    match d.get? (key (above.take (n + 1))) with
    | none => .error .notFound
    | some .directory => .ok ()
    | some (.file _) => .error .notDirectory

def find? (d : Disk) (path : String) : Except OsError (Option DiskNode) := do
  let ns := names path
  if path.isEmpty then throw .notFound
  d.checkAbove ns.dropLast
  match ns with
  | [] => return some .directory
  | _ =>
      match d.get? (key ns), path.toList.getLast? with
      | some (.file _), some '/' => throw .notDirectory
      | node, _ => return node

def read (d : Disk) (path : String) : Except OsError ByteArray := do
  match ← d.find? path with
  | none => throw .notFound
  | some .directory => throw .isDirectory
  | some (.file content) => return content

def write (d : Disk) (path : String) (content : ByteArray) : Except OsError Disk := do
  match ← d.find? path with
  | some .directory => throw .isDirectory
  | _ =>
      if path.toList.getLast? = some '/' then throw .isDirectory
      else return d.insert (key (names path)) (.file content)

def remove (d : Disk) (path : String) : Disk :=
  let gone := key (names path)
  ⟨d.entries.filter fun e => e.1 ≠ gone, d.sorted.filter _⟩

def rename (d : Disk) (source target : String) : Except OsError Disk := do
  let content ← d.read source
  let moved ← d.write target content
  return if key (names source) = key (names target) then moved else moved.remove source

def createDirectory (d : Disk) (path : String) : Except OsError Disk :=
  let ns := names path
  (List.range ns.length).foldlM
    (fun d n =>
      let k := key (ns.take (n + 1))
      match d.get? k with
      | none => .ok (d.insert k .directory)
      | some .directory => .ok d
      | some (.file _) => .error (if n + 1 = ns.length then .exists else .notDirectory))
    d

def exists? (d : Disk) (path : String) : Bool :=
  match d.find? path with
  | .ok (some _) => true
  | _ => false

def commit {σ : Type} (get : σ → Disk) (set : Disk → σ → σ) (f : Disk → Except OsError Disk) :
    StateM σ (Except OsError Unit) :=
  fun s =>
    match f (get s) with
    | .ok d => (.ok (), set d s)
    | .error e => (.error e, s)

def files {σ : Type} (get : σ → Disk) (set : Disk → σ → σ) : Files (StateM σ) where
  read path := fun s => ((get s).read path, s)
  write path content := commit get set fun d => d.write path content
  rename source target := commit get set fun d => d.rename source target
  createDirectory path := commit get set fun d => d.createDirectory path

end Disk

end IndexRefresh
