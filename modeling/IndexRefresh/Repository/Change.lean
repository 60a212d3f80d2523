import IndexRefresh.Json.Form

namespace IndexRefresh

inductive ChangeKind where
  | added
  | modified
  | deleted
  | renamed
  deriving DecidableEq, Repr

namespace ChangeKind

def all : List ChangeKind :=
  [.added, .modified, .deleted, .renamed]

def name : ChangeKind → String
  | .added => "added"
  | .modified => "modified"
  | .deleted => "deleted"
  | .renamed => "renamed"

end ChangeKind

instance : JsonForm ChangeKind where
  toJson k := Json.ofString k.name
  ofJson? := Json.choice? (ChangeKind.all.map fun k => (k.name, k))

structure ChangedFile where
  path : String
  kind : ChangeKind
  previousPath : Option String
  deriving DecidableEq, Repr

def ChangedFile.plain (path : String) (kind : ChangeKind) : ChangedFile :=
  ⟨path, kind, none⟩

def ChangedFile.renamed (previousPath path : String) : ChangedFile :=
  ⟨path, .renamed, some previousPath⟩

instance : JsonForm ChangedFile where
  toJson f := Json.record
    ([("path", toJson f.path), ("kind", toJson f.kind)] ++
      Json.whenSome "previous_path" f.previousPath)
  ofJson? v := do
    let fields ← Json.fields? ["path", "kind", "previous_path"] v
    return {
      path := ← Json.required fields "path"
      kind := ← Json.required fields "kind"
      previousPath := ← Json.optional fields "previous_path" }

structure HeadCommit where
  sha : String
  message : String
  deriving DecidableEq, Repr

instance : JsonForm HeadCommit where
  toJson c := Json.record [("sha", toJson c.sha), ("message", toJson c.message)]
  ofJson? v := do
    let fields ← Json.fields? ["sha", "message"] v
    return {
      sha := ← Json.required fields "sha"
      message := ← Json.required fields "message" }

def shortSha (sha : String) : String :=
  String.ofList (sha.toList.take 7)

def HeadCommit.shortSha (c : HeadCommit) : String :=
  IndexRefresh.shortSha c.sha

structure Comparison where
  baseSha : String
  headSha : String
  totalCommits : UInt32
  files : List ChangedFile
  truncated : Bool
  deriving DecidableEq, Repr

def Comparison.count (c : Comparison) (kind : ChangeKind) : Nat :=
  c.files.countP fun f => f.kind = kind

instance : JsonForm Comparison where
  toJson c := Json.record
    [("base_sha", toJson c.baseSha), ("head_sha", toJson c.headSha),
     ("total_commits", toJson c.totalCommits), ("files", toJson c.files),
     ("truncated", toJson c.truncated)]
  ofJson? v := do
    let fields ← Json.fields? ["base_sha", "head_sha", "total_commits", "files", "truncated"] v
    return {
      baseSha := ← Json.required fields "base_sha"
      headSha := ← Json.required fields "head_sha"
      totalCommits := ← Json.required fields "total_commits"
      files := ← Json.required fields "files"
      truncated := ← Json.orDefault fields "truncated" false }

end IndexRefresh
