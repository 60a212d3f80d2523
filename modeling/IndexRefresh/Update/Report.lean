import IndexRefresh.Counter
import IndexRefresh.Repository.Change

namespace IndexRefresh

inductive Outcome where
  | noChanges
  | updated
  | failed
  deriving DecidableEq, Repr

namespace Outcome

def all : List Outcome :=
  [.noChanges, .updated, .failed]

def name : Outcome → String
  | .noChanges => "no_changes"
  | .updated => "updated"
  | .failed => "failed"

end Outcome

instance : JsonForm Outcome where
  toJson o := Json.ofString o.name
  ofJson? := Json.choice? (Outcome.all.map fun o => (o.name, o))

structure Stats where
  filesAdded : UInt64
  filesModified : UInt64
  filesDeleted : UInt64
  chunksUpserted : UInt64
  chunksDeleted : UInt64
  durationMs : UInt64
  deriving DecidableEq, Repr

namespace Stats

def zero : Stats :=
  ⟨0, 0, 0, 0, 0, 0⟩

def filesProcessed? (s : Stats) : Option UInt64 :=
  (addCounter? s.filesAdded s.filesModified).bind (addCounter? · s.filesDeleted)

end Stats

instance : JsonForm Stats where
  toJson s := Json.record
    [("files_added", toJson s.filesAdded), ("files_modified", toJson s.filesModified),
     ("files_deleted", toJson s.filesDeleted), ("chunks_upserted", toJson s.chunksUpserted),
     ("chunks_deleted", toJson s.chunksDeleted), ("duration_ms", toJson s.durationMs)]
  ofJson? v := do
    let fields ← Json.fields? ["files_added", "files_modified", "files_deleted", "chunks_upserted",
      "chunks_deleted", "duration_ms"] v
    return {
      filesAdded := ← Json.orDefault fields "files_added" 0
      filesModified := ← Json.orDefault fields "files_modified" 0
      filesDeleted := ← Json.orDefault fields "files_deleted" 0
      chunksUpserted := ← Json.orDefault fields "chunks_upserted" 0
      chunksDeleted := ← Json.orDefault fields "chunks_deleted" 0
      durationMs := ← Json.orDefault fields "duration_ms" 0 }

structure FileError where
  path : String
  error : String
  deriving DecidableEq, Repr

instance : JsonForm FileError where
  toJson e := Json.record [("path", toJson e.path), ("error", toJson e.error)]
  ofJson? v := do
    let fields ← Json.fields? ["path", "error"] v
    return {
      path := ← Json.required fields "path"
      error := ← Json.required fields "error" }

structure PipelineOutput where
  stats : Stats
  errors : List FileError
  deriving DecidableEq, Repr

instance : JsonForm PipelineOutput where
  toJson o := Json.record [("stats", toJson o.stats), ("errors", toJson o.errors)]
  ofJson? v := do
    let fields ← Json.fields? ["stats", "errors"] v
    return {
      stats := ← Json.orDefault fields "stats" .zero
      errors := ← Json.orDefault fields "errors" [] }

structure PipelineOptions where
  repository : String
  localPath : String
  baseSha : String
  headSha : String
  deriving DecidableEq, Repr

namespace PipelineOptions

def members (o : PipelineOptions) : List (String × Json) :=
  [("repository", toJson o.repository), ("local_path", toJson o.localPath),
   ("base_sha", toJson o.baseSha), ("head_sha", toJson o.headSha)]

end PipelineOptions

instance : JsonForm PipelineOptions where
  toJson o := Json.record o.members
  ofJson? v := do
    let fields ← Json.fields? ["repository", "local_path", "base_sha", "head_sha"] v
    return {
      repository := ← Json.required fields "repository"
      localPath := ← Json.required fields "local_path"
      baseSha := ← Json.required fields "base_sha"
      headSha := ← Json.required fields "head_sha" }

structure Report where
  repository : String
  outcome : Outcome
  commitSha : String
  commitMessage : String
  stats : Stats
  errors : List FileError
  durationMs : UInt64
  deriving DecidableEq, Repr

namespace Report

def noChanges (repository commitSha commitMessage : String) : Report :=
  ⟨repository, .noChanges, commitSha, commitMessage, .zero, [], 0⟩

def hasErrors (r : Report) : Bool :=
  !r.errors.isEmpty

def fieldNames : List String :=
  ["repository", "status", "commit_sha", "commit_message", "stats", "errors", "duration_ms"]

end Report

instance : JsonForm Report where
  toJson r := Json.record
    [("repository", toJson r.repository), ("status", toJson r.outcome),
     ("commit_sha", toJson r.commitSha), ("commit_message", toJson r.commitMessage),
     ("stats", toJson r.stats), ("errors", toJson r.errors), ("duration_ms", toJson r.durationMs)]
  ofJson? v := do
    let fields ← Json.fields? Report.fieldNames v
    return {
      repository := ← Json.required fields "repository"
      outcome := ← Json.required fields "status"
      commitSha := ← Json.required fields "commit_sha"
      commitMessage := ← Json.required fields "commit_message"
      stats := ← Json.required fields "stats"
      errors := ← Json.orDefault fields "errors" []
      durationMs := ← Json.required fields "duration_ms" }

end IndexRefresh
