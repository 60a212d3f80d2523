import IndexRefresh.Settings.File
import IndexRefresh.Settings.Form

namespace IndexRefresh

inductive SettingsError where
  | load
  | invalid (key : String)
  deriving DecidableEq, Repr

namespace Settings

def ofLayers (metadataPath : String) (layers : List Layer) : Except SettingsError Settings :=
  match ofSetting? metadataPath (Layer.effective layers) with
  | none => .error .load
  | some s =>
      match s.update.invalid? with
      | some key => .error (.invalid key)
      | none => .ok s

variable {m : Type → Type} [Monad m]

def optionalLayer? (files : Files m) (formats : FileFormats) (name : String) :
    m (Option Layer) := do
  match ← SettingsFile.find? files formats name with
  | none => return some []
  | some f => return f.layer? formats

def requiredLayer? (files : Files m) (formats : FileFormats) (name : String) :
    m (Option Layer) := do
  return (← SettingsFile.find? files formats name).bind (SettingsFile.layer? formats)

def namedLayer? (files : Files m) (formats : FileFormats) : Option String → m (Option Layer)
  | none => return some []
  | some name => requiredLayer? files formats name

def load (files : Files m) (env : Environment) (config : Option String)
    (formats : FileFormats := .plain) : m (Except SettingsError Settings) := do
  let users ← optionalLayer? files formats env.settingsPath
  let named ← namedLayer? files formats config
  match users, named with
  | some users, some named =>
      return ofLayers env.metadataPath
        [.standard env.metadataPath, users, named, .ofEnvironment env]
  | _, _ => return .error .load

def expandedMetadataPath (s : Settings) (env : Environment) : String :=
  env.expand s.metadataPath

end Settings

end IndexRefresh
