import IndexRefresh.Settings.Basic
import IndexRefresh.Settings.Tree
import IndexRefresh.Text.Lower

namespace IndexRefresh

class SettingForm (α : Type) where
  ofSetting? : Setting → Option α

export SettingForm (ofSetting?)

namespace Setting

def integerText (n : Int) : List Char :=
  if n < 0 then '-' :: Text.digits n.natAbs else Text.digits n.natAbs

def text? : Setting → Option String
  | .text s => some s
  | .flag b => some (if b then "true" else "false")
  | .whole n => some (String.ofList (integerText n))
  | .decimal x => some x.text
  | _ => none

def wordValue? (s : String) : Option Nat :=
  match String.ofList (Text.lower s.toList) with
  | "true" => some 1
  | "on" => some 1
  | "yes" => some 1
  | "false" => some 0
  | "off" => some 0
  | "no" => some 0
  | _ => Text.unsigned? s.toList

def count? : Setting → Option UInt64
  | .flag b => some (if b then 1 else 0)
  | .whole n => if 0 ≤ n then some n.toNat.toUInt64 else none
  | .decimal x => some x.toCounter
  | .text s => ((wordValue? s).filter (· < UInt64.size)).map Nat.toUInt64
  | _ => none

def fields? (names : List String) : Setting → Option (Entries Setting)
  | .branch es => some es
  | .list vs => some (names.zip vs)
  | _ => none

variable {α : Type} [SettingForm α]

def orDefault (fields : Entries Setting) (name : String) (value : α) : Option α :=
  match fields.lookup name with
  | some v => ofSetting? v
  | none => some value

end Setting

instance : SettingForm String where
  ofSetting? := Setting.text?

instance : SettingForm UInt64 where
  ofSetting? := Setting.count?

instance : SettingForm UInt32 where
  ofSetting? v := ((Setting.count? v).filter (·.toNat < UInt32.size)).map UInt64.toUInt32

instance {α : Type} [SettingForm α] : SettingForm (Option α) where
  ofSetting?
    | .null => some none
    | v => (ofSetting? v).map some

instance {α : Type} [SettingForm α] : SettingForm (List α) where
  ofSetting?
    | .list vs => vs.mapM ofSetting?
    | _ => none

open Setting (fields? orDefault)

instance : SettingForm GitHubSettings where
  ofSetting? v := do
    let fields ← fields? GitHubSettings.fieldNames v
    let d := GitHubSettings.standard
    return {
      apiUrl := ← orDefault fields "api_url" d.apiUrl
      token := ← orDefault fields "token" d.token
      timeoutSecs := ← orDefault fields "timeout_secs" d.timeoutSecs
      maxRetries := ← orDefault fields "max_retries" d.maxRetries }

instance : SettingForm PipelineSettings where
  ofSetting? v := do
    let fields ← fields? PipelineSettings.fieldNames v
    let d := PipelineSettings.standard
    return {
      program := ← orDefault fields "program" d.program
      args := ← orDefault fields "args" d.args }

instance : SettingForm UpdateSettings where
  ofSetting? v := do
    let fields ← fields? UpdateSettings.fieldNames v
    let d := UpdateSettings.standard
    return {
      changeThreshold := ← orDefault fields "change_threshold" d.changeThreshold
      cooldownSecs := ← orDefault fields "cooldown_secs" d.cooldownSecs
      timeoutSecs := ← orDefault fields "timeout_secs" d.timeoutSecs
      jobMaxAgeSecs := ← orDefault fields "job_max_age_secs" d.jobMaxAgeSecs
      evictionIntervalSecs := ←
        orDefault fields "eviction_interval_secs" d.evictionIntervalSecs }

namespace Settings

def ofSetting? (metadataPath : String) (v : Setting) : Option Settings := do
  let fields ← Setting.fields? fieldNames v
  let d := standard metadataPath
  return {
    logLevel := ← orDefault fields "log_level" d.logLevel
    metadataPath := ← orDefault fields "metadata_path" d.metadataPath
    github := ← orDefault fields "github" d.github
    pipeline := ← orDefault fields "pipeline" d.pipeline
    update := ← orDefault fields "update" d.update }

end Settings

end IndexRefresh
