import IndexRefresh.Calendar.Timestamp

namespace IndexRefresh

inductive IndexStatus where
  | pending
  | indexing
  | ready
  | error
  deriving DecidableEq, Repr

namespace IndexStatus

def all : List IndexStatus :=
  [.pending, .indexing, .ready, .error]

def name : IndexStatus → String
  | .pending => "pending"
  | .indexing => "indexing"
  | .ready => "ready"
  | .error => "error"

end IndexStatus

instance : JsonForm IndexStatus where
  toJson s := Json.ofString s.name
  ofJson? := Json.choice? (IndexStatus.all.map fun s => (s.name, s))

structure Snapshot where
  name : String
  url : String
  branch : String
  localPath : String
  indexedSha : Option String
  fileCount : UInt64
  chunkCount : UInt64
  status : IndexStatus
  indexedAt : Option Timestamp
  updateCount : UInt64
  updatedAt : Option Timestamp
  deriving DecidableEq, Repr

namespace Snapshot

def fresh (name url branch localPath : String) : Snapshot where
  name := name
  url := url
  branch := branch
  localPath := localPath
  indexedSha := none
  fileCount := 0
  chunkCount := 0
  status := .pending
  indexedAt := none
  updateCount := 0
  updatedAt := none

def indexedAtCommit (s : Snapshot) (sha : String) : Snapshot :=
  { s with indexedSha := some sha, status := .ready }

def withCounts (s : Snapshot) (files chunks : UInt64) : Snapshot :=
  { s with fileCount := files, chunkCount := chunks }

def baseSha? (s : Snapshot) : Option String :=
  s.indexedSha.filter fun sha => !sha.isEmpty

def canUpdate (s : Snapshot) : Bool :=
  s.baseSha?.isSome

def fieldNames : List String :=
  ["name", "url", "branch", "local_path", "last_indexed_commit_sha", "file_count", "chunk_count",
   "status", "last_indexed_at", "incremental_update_count", "last_incremental_update_at"]

end Snapshot

instance : JsonForm Snapshot where
  toJson s := Json.record
    [("name", toJson s.name), ("url", toJson s.url), ("branch", toJson s.branch),
     ("local_path", toJson s.localPath), ("last_indexed_commit_sha", toJson s.indexedSha),
     ("file_count", toJson s.fileCount), ("chunk_count", toJson s.chunkCount),
     ("status", toJson s.status), ("last_indexed_at", toJson s.indexedAt),
     ("incremental_update_count", toJson s.updateCount),
     ("last_incremental_update_at", toJson s.updatedAt)]
  ofJson? v := do
    let fields ← Json.fields? Snapshot.fieldNames v
    return {
      name := ← Json.required fields "name"
      url := ← Json.required fields "url"
      branch := ← Json.required fields "branch"
      localPath := ← Json.required fields "local_path"
      indexedSha := ← Json.optional fields "last_indexed_commit_sha"
      fileCount := ← Json.orDefault fields "file_count" 0
      chunkCount := ← Json.orDefault fields "chunk_count" 0
      status := ← Json.orDefault fields "status" .pending
      indexedAt := ← Json.optional fields "last_indexed_at"
      updateCount := ← Json.orDefault fields "incremental_update_count" 0
      updatedAt := ← Json.optional fields "last_incremental_update_at" }

end IndexRefresh
