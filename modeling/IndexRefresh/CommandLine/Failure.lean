import IndexRefresh.Service.Refusal
import IndexRefresh.Ledger.Job
import IndexRefresh.Settings.Load

namespace IndexRefresh.CommandLine

inductive CommandFailure where
  | settings (e : SettingsError)
  | unreadable (path : String) (f : Fault)
  | unknownRepository (name : String)
  | noPipeline
  | refused (r : Refusal)
  | jobEnded (v : JobView)
  | crashed (detail : String)
  deriving DecidableEq, Repr

namespace CommandFailure

def jobText (v : JobView) : String :=
  s!"Job {v.jobId} finished with status {v.status.name}: " ++ v.error.getD ""

def message : CommandFailure → String
  | .settings _ => "Failed to load configuration"
  | .unreadable path _ => s!"Failed to read {path}"
  | .unknownRepository name => s!"Repository not found: {name}"
  | .noPipeline => "No update pipeline configured (set pipeline.program)"
  | .refused r => r.display
  | .jobEnded v => jobText v
  | .crashed detail => detail

def cause? : CommandFailure → Option String
  | .settings (.invalid key) => some (UpdateSettings.invalidMessage key)
  | .settings .load => some "The configuration cannot be read"
  | .unreadable _ f => some f.message
  | _ => none

def lines (f : CommandFailure) : List String :=
  ("Error: " ++ f.message) ::
    match f.cause? with
    | some cause => ["", "Caused by:", "    " ++ cause]
    | none => []

end CommandFailure

end IndexRefresh.CommandLine
