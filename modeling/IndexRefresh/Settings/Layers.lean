import IndexRefresh.Environment
import IndexRefresh.Settings.Basic
import IndexRefresh.Settings.Place
import IndexRefresh.Text.Lower

namespace IndexRefresh

namespace Setting

def ofCounter (n : UInt64) : Setting :=
  .whole n.toNat

def ofVariable (s : String) : Setting :=
  let cs := s.toList
  let word := String.ofList (Text.lower cs)
  if word = "true" then .flag true
  else if word = "false" then .flag false
  else
    match Text.signed? cs with
    | some n => .whole n
    | none =>
        match Binary64.ofText? cs with
        | some x => .decimal x
        | none => .text s

end Setting

namespace Layer

def standard (metadataPath : String) : Layer :=
  let g := GitHubSettings.standard
  let u := UpdateSettings.standard
  let branch (key : String) (es : Entries Setting) : Place × Setting := (⟨key, []⟩, .branch es)
  [(⟨"log_level", []⟩, .text (Settings.standard metadataPath).logLevel),
   (⟨"metadata_path", []⟩, .text metadataPath),
   branch "github"
    [("api_url", .text g.apiUrl), ("timeout_secs", .ofCounter g.timeoutSecs),
     ("max_retries", .whole g.maxRetries.toNat)],
   branch "update"
    [("change_threshold", .ofCounter u.changeThreshold),
     ("cooldown_secs", .ofCounter u.cooldownSecs), ("timeout_secs", .ofCounter u.timeoutSecs),
     ("job_max_age_secs", .ofCounter u.jobMaxAgeSecs),
     ("eviction_interval_secs", .ofCounter u.evictionIntervalSecs)]]

def variableStem : String :=
  "reposync_"

def dotted (name : List Char) : List Char :=
  match name with
  | '_' :: '_' :: rest => '.' :: dotted rest
  | c :: rest => c :: dotted rest
  | [] => []

def ofVariable? (name value : String) : Option (Place × Setting) :=
  (variableStem.toList.isPrefixOf? (Text.lower name.toList)).map fun key =>
    (Place.ofText (String.ofList (dotted key)), Setting.ofVariable value)

def ofEnvironment (env : Environment) : Layer :=
  (env.mergeSort fun a b => a.1 ≤ b.1).filterMap fun v => ofVariable? v.1 v.2

def ofFile (es : Entries Setting) : Layer :=
  (Setting.mapKeysEntries (fun k => String.ofList (Text.lower k.toList)) es).map fun e =>
    (Place.ofText e.1, e.2)

end Layer

end IndexRefresh
