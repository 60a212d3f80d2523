import IndexRefresh.Duration
import IndexRefresh.Json.Form
import IndexRefresh.Update.Failure

namespace IndexRefresh

inductive RefusalCode where
  | repositoryNotFound
  | rateLimited
  | updateInProgress
  | updateFailed
  | timeout
  | internalError
  | jobNotFound
  deriving DecidableEq, Repr

namespace RefusalCode

def all : List RefusalCode :=
  [.repositoryNotFound, .rateLimited, .updateInProgress, .updateFailed, .timeout, .internalError,
   .jobNotFound]

def name : RefusalCode → String
  | .repositoryNotFound => "repository_not_found"
  | .rateLimited => "rate_limited"
  | .updateInProgress => "update_in_progress"
  | .updateFailed => "update_failed"
  | .timeout => "timeout"
  | .internalError => "internal_error"
  | .jobNotFound => "job_not_found"

end RefusalCode

instance : JsonForm RefusalCode where
  toJson c := Json.ofString c.name
  ofJson? := Json.choice? (RefusalCode.all.map fun c => (c.name, c))

structure Refusal where
  code : RefusalCode
  message : String
  hint : String
  retryable : Bool
  requiresFullReindex : Bool
  retryAfterSeconds : Option UInt64
  deriving DecidableEq, Repr

namespace Refusal

def display (r : Refusal) : String :=
  s!"{r.code.name}: {r.message}"

/-- Whole seconds, rounded up and at least one, so that nobody comes back too early; none when
their number needs more than 64 bits. -/
def retryAfterSeconds? (d : Duration) : Option UInt64 :=
  let whole := d.seconds
  let seconds := if d % 1000000000 = 0 then max whole 1 else whole + 1
  if seconds < UInt64.size then some seconds.toUInt64 else none

def rateLimited? (repository : String) (retryAfter : Duration) : Option Refusal :=
  (retryAfterSeconds? retryAfter).map fun seconds =>
    { code := .rateLimited
      message := s!"{repository} was updated recently"
      hint := s!"Wait {seconds} seconds before triggering another update"
      retryable := true
      requiresFullReindex := false
      retryAfterSeconds := some seconds }

def inProgress (repository : String) (jobId : Option String) : Refusal where
  code := .updateInProgress
  message := s!"An update of {repository} is already in progress"
  hint := match jobId with
    | some id => s!"Poll job {id} for the result of the running update"
    | none => "Retry once the running update has finished"
  retryable := true
  requiresFullReindex := false
  retryAfterSeconds := none

def timeout (repository : String) (limit : Duration) : Refusal where
  code := .timeout
  message := s!"Update of {repository} did not finish within {limit.seconds} seconds"
  hint := "The update may still complete in the background; check the repository status before " ++
    "retrying"
  retryable := true
  requiresFullReindex := false
  retryAfterSeconds := none

def internal (repository detail : String) : Refusal where
  code := .internalError
  message := s!"Update of {repository} failed unexpectedly: {detail}"
  hint := "Check the service logs"
  retryable := false
  requiresFullReindex := false
  retryAfterSeconds := none

def jobNotFound (jobId : String) (maxAge : Duration) : Refusal where
  code := .jobNotFound
  message := s!"Job {jobId} not found"
  hint := s!"Finished jobs are evicted after {maxAge.seconds} seconds; trigger a new update " ++
    "if needed"
  retryable := false
  requiresFullReindex := false
  retryAfterSeconds := none

def hintFor (repository : String) (f : Failure) : String :=
  if f = .repositoryNotFound then s!"Check the name, or index {repository} before updating it"
  else if f.requiresFullReindex then s!"Trigger a full re-index of {repository}"
  else if f.isRetryable then "Transient failure; retry the update"
  else s!"Check the configuration of {repository}"

def ofFailure (repository : String) (f : Failure) : Refusal where
  code := if f = .repositoryNotFound then .repositoryNotFound else .updateFailed
  message := f.message repository
  hint := hintFor repository f
  retryable := f.isRetryable
  requiresFullReindex := f.requiresFullReindex
  retryAfterSeconds := none

end Refusal

instance : JsonForm Refusal where
  toJson r := Json.record
    ([("error", toJson r.code), ("message", toJson r.message), ("hint", toJson r.hint),
      ("retryable", toJson r.retryable), ("requires_full_reindex", toJson r.requiresFullReindex)] ++
      Json.whenSome "retry_after_seconds" r.retryAfterSeconds)
  ofJson? v := do
    let fields ← Json.fields? ["error", "message", "hint", "retryable", "requires_full_reindex",
      "retry_after_seconds"] v
    return {
      code := ← Json.required fields "error"
      message := ← Json.required fields "message"
      hint := ← Json.required fields "hint"
      retryable := ← Json.required fields "retryable"
      requiresFullReindex := ← Json.orDefault fields "requires_full_reindex" false
      retryAfterSeconds := ← Json.optional fields "retry_after_seconds" }

end IndexRefresh
