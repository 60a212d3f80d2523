namespace IndexRefresh

inductive Fault where
  | notFound (what : String)
  | http (detail : String)
  | io (detail : String)
  | command (detail : String)
  | serialization (detail : String)
  | other (detail : String)
  deriving DecidableEq, Repr

namespace Fault

def message : Fault → String
  | .notFound what => "Not found: " ++ what
  | .http detail => "HTTP error: " ++ detail
  | .io detail => "I/O error: " ++ detail
  | .command detail => "Command failed: " ++ detail
  | .serialization detail => "Serialization error: " ++ detail
  | .other detail => detail

def isNotFound : Fault → Bool
  | .notFound _ => true
  | _ => false

end Fault

inductive Failure where
  | repositoryNotFound
  | missingCommitSha
  | invalidSourceUrl (url : String)
  | headLookup (branch : String) (fault : Fault)
  | forcePush (indexedSha headSha : String)
  | tooManyChanges (changed threshold : Nat)
  | truncated (listed : Nat)
  | comparison (fault : Fault)
  | gitPull (fault : Fault)
  | pipeline (fault : Fault)
  | metadata (fault : Fault)
  | cancelled
  deriving DecidableEq, Repr

namespace Failure

def code : Failure → String
  | .repositoryNotFound => "repository_not_found"
  | .missingCommitSha => "missing_commit_sha"
  | .invalidSourceUrl _ => "invalid_source_url"
  | .headLookup _ _ => "head_lookup_failed"
  | .forcePush _ _ => "force_push_detected"
  | .tooManyChanges _ _ => "change_threshold_exceeded"
  | .truncated _ => "comparison_truncated"
  | .comparison _ => "comparison_failed"
  | .gitPull _ => "git_pull_failed"
  | .pipeline _ => "pipeline_failed"
  | .metadata _ => "metadata_error"
  | .cancelled => "cancelled"

def message (repository : String) : Failure → String
  | .repositoryNotFound => s!"Repository not found: {repository}"
  | .missingCommitSha =>
      s!"Repository {repository} has no indexed commit; a full index is required"
  | .invalidSourceUrl url =>
      s!"Cannot determine owner/repo of {repository} from source URL '" ++ url ++ "'"
  | .headLookup branch fault =>
      "Failed to resolve head of branch '" ++ branch ++ s!"' for {repository}: {fault.message}"
  | .forcePush indexedSha headSha =>
      s!"Force push detected on {repository}: indexed commit {indexedSha} is no longer in " ++
        s!"history (head is {headSha})"
  | .tooManyChanges changed threshold =>
      s!"{repository} has {changed} changed files, above the incremental update threshold of " ++
        s!"{threshold}"
  | .truncated listed =>
      s!"Comparison for {repository} lists only {listed} changed files and is incomplete"
  | .comparison fault => s!"Failed to compare commits for {repository}: {fault.message}"
  | .gitPull fault => s!"git pull failed for {repository}: {fault.message}"
  | .pipeline fault => s!"Update pipeline failed for {repository}: {fault.message}"
  | .metadata fault => s!"Metadata store error for {repository}: {fault.message}"
  | .cancelled => s!"Update of {repository} was cancelled"

def isRetryable : Failure → Bool
  | .headLookup _ fault => !fault.isNotFound
  | .comparison _ => true
  | .gitPull _ => true
  | .pipeline _ => true
  | .metadata _ => true
  | .cancelled => true
  | _ => false

def requiresFullReindex : Failure → Bool
  | .missingCommitSha => true
  | .forcePush _ _ => true
  | .tooManyChanges _ _ => true
  | .truncated _ => true
  | _ => false

theorem isRetryable_of_requiresFullReindex {f : Failure} (h : f.requiresFullReindex = true) :
    f.isRetryable = false := by
  cases f <;> simp_all [requiresFullReindex, isRetryable]

end Failure

end IndexRefresh
