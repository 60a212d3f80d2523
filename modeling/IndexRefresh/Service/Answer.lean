import IndexRefresh.Duration
import IndexRefresh.Update.Failure
import IndexRefresh.Update.Report

namespace IndexRefresh

structure UpdateAnswer where
  outcome : Outcome
  repository : String
  commitSha : String
  commitMessage : String
  stats : Stats
  errors : List FileError
  durationMs : UInt64
  deriving DecidableEq, Repr

def UpdateAnswer.ofReport (r : Report) : UpdateAnswer :=
  ⟨r.outcome, r.repository, shortSha r.commitSha, r.commitMessage, r.stats, r.errors, r.durationMs⟩

instance : JsonForm UpdateAnswer where
  toJson a := Json.record
    [("status", toJson a.outcome), ("repository", toJson a.repository),
     ("commit_sha", toJson a.commitSha), ("commit_message", toJson a.commitMessage),
     ("stats", toJson a.stats), ("errors", toJson a.errors), ("duration_ms", toJson a.durationMs)]
  ofJson? v := do
    let fields ← Json.fields? ["status", "repository", "commit_sha", "commit_message", "stats",
      "errors", "duration_ms"] v
    return {
      outcome := ← Json.required fields "status"
      repository := ← Json.required fields "repository"
      commitSha := ← Json.required fields "commit_sha"
      commitMessage := ← Json.required fields "commit_message"
      stats := ← Json.required fields "stats"
      errors := ← Json.required fields "errors"
      durationMs := ← Json.required fields "duration_ms" }

structure JobAnswer where
  jobId : String
  repository : String
  message : String
  deriving DecidableEq, Repr

namespace JobAnswer

def started (jobId repository : String) : JobAnswer :=
  ⟨jobId, repository, s!"Update of {repository} started"⟩

def outstanding (jobId repository : String) : JobAnswer :=
  ⟨jobId, repository, s!"An update of {repository} is already running"⟩

end JobAnswer

instance : JsonForm JobAnswer where
  toJson a := Json.record
    [("job_id", toJson a.jobId), ("repository", toJson a.repository),
     ("message", toJson a.message)]
  ofJson? v := do
    let fields ← Json.fields? ["job_id", "repository", "message"] v
    return {
      jobId := ← Json.required fields "job_id"
      repository := ← Json.required fields "repository"
      message := ← Json.required fields "message" }

end IndexRefresh
