import IndexRefresh.Json.Form

namespace IndexRefresh

structure UpdateSettings where
  changeThreshold : UInt64
  cooldownSecs : UInt64
  timeoutSecs : UInt64
  jobMaxAgeSecs : UInt64
  evictionIntervalSecs : UInt64
  deriving DecidableEq, Repr

namespace UpdateSettings

def standard : UpdateSettings :=
  ⟨500, 300, 600, 3600, 60⟩

def invalid? (s : UpdateSettings) : Option String :=
  if s.changeThreshold = 0 then some "update.change_threshold"
  else if s.timeoutSecs = 0 then some "update.timeout_secs"
  else if s.evictionIntervalSecs = 0 then some "update.eviction_interval_secs"
  else none

def invalidMessage (key : String) : String :=
  s!"Invalid configuration: {key} must be > 0"

def fieldNames : List String :=
  ["change_threshold", "cooldown_secs", "timeout_secs", "job_max_age_secs",
   "eviction_interval_secs"]

end UpdateSettings

instance : JsonForm UpdateSettings where
  toJson s := Json.record
    [("change_threshold", toJson s.changeThreshold), ("cooldown_secs", toJson s.cooldownSecs),
     ("timeout_secs", toJson s.timeoutSecs), ("job_max_age_secs", toJson s.jobMaxAgeSecs),
     ("eviction_interval_secs", toJson s.evictionIntervalSecs)]
  ofJson? v := do
    let fields ← Json.fields? UpdateSettings.fieldNames v
    let d := UpdateSettings.standard
    return {
      changeThreshold := ← Json.orDefault fields "change_threshold" d.changeThreshold
      cooldownSecs := ← Json.orDefault fields "cooldown_secs" d.cooldownSecs
      timeoutSecs := ← Json.orDefault fields "timeout_secs" d.timeoutSecs
      jobMaxAgeSecs := ← Json.orDefault fields "job_max_age_secs" d.jobMaxAgeSecs
      evictionIntervalSecs := ←
        Json.orDefault fields "eviction_interval_secs" d.evictionIntervalSecs }

/-- Access to the hosting service; the token is read but never written. -/
structure GitHubSettings where
  apiUrl : String
  token : Option String
  timeoutSecs : UInt64
  maxRetries : UInt32
  deriving DecidableEq, Repr

namespace GitHubSettings

def standard : GitHubSettings :=
  ⟨"https://api.github.com", none, 30, 3⟩

def fieldNames : List String :=
  ["api_url", "token", "timeout_secs", "max_retries"]

end GitHubSettings

instance : JsonForm GitHubSettings where
  toJson s := Json.record
    [("api_url", toJson s.apiUrl), ("timeout_secs", toJson s.timeoutSecs),
     ("max_retries", toJson s.maxRetries)]
  ofJson? v := do
    let fields ← Json.fields? GitHubSettings.fieldNames v
    let d := GitHubSettings.standard
    return {
      apiUrl := ← Json.orDefault fields "api_url" d.apiUrl
      token := ← Json.optional fields "token"
      timeoutSecs := ← Json.orDefault fields "timeout_secs" d.timeoutSecs
      maxRetries := ← Json.orDefault fields "max_retries" d.maxRetries }

structure PipelineSettings where
  program : Option String
  args : List String
  deriving DecidableEq, Repr

namespace PipelineSettings

def standard : PipelineSettings :=
  ⟨none, []⟩

def fieldNames : List String :=
  ["program", "args"]

end PipelineSettings

instance : JsonForm PipelineSettings where
  toJson s := Json.record [("program", toJson s.program), ("args", toJson s.args)]
  ofJson? v := do
    let fields ← Json.fields? PipelineSettings.fieldNames v
    let d := PipelineSettings.standard
    return {
      program := ← Json.optional fields "program"
      args := ← Json.orDefault fields "args" d.args }

structure Settings where
  logLevel : String
  metadataPath : String
  github : GitHubSettings
  pipeline : PipelineSettings
  update : UpdateSettings
  deriving DecidableEq, Repr

namespace Settings

def standard (metadataPath : String) : Settings :=
  ⟨"info", metadataPath, .standard, .standard, .standard⟩

def fieldNames : List String :=
  ["log_level", "metadata_path", "github", "pipeline", "update"]

def toJson (s : Settings) : Json :=
  Json.record
    [("log_level", JsonForm.toJson s.logLevel), ("metadata_path", JsonForm.toJson s.metadataPath),
     ("github", JsonForm.toJson s.github), ("pipeline", JsonForm.toJson s.pipeline),
     ("update", JsonForm.toJson s.update)]

def ofJson? (metadataPath : String) (v : Json) : Option Settings := do
  let fields ← Json.fields? fieldNames v
  let d := standard metadataPath
  return {
    logLevel := ← Json.orDefault fields "log_level" d.logLevel
    metadataPath := ← Json.orDefault fields "metadata_path" d.metadataPath
    github := ← Json.orDefault fields "github" d.github
    pipeline := ← Json.orDefault fields "pipeline" d.pipeline
    update := ← Json.orDefault fields "update" d.update }

end Settings

end IndexRefresh
