import IndexRefresh.Disk

namespace IndexRefresh

abbrev Environment := List (String × String)

namespace Environment

def home? (env : Environment) : Option String :=
  (env.lookup "HOME").filter (! ·.isEmpty)

def userDirectory? (env : Environment) (variableName standard : String) : Option String :=
  (home? env).map fun home =>
    match env.lookup variableName with
    | some d => if d.toList.head? = some '/' then d else FilePath.join home standard
    | none => FilePath.join home standard

def settingsPath (env : Environment) : String :=
  match userDirectory? env "XDG_CONFIG_HOME" ".config" with
  | some d => FilePath.join (FilePath.join d "reposync") "config"
  | none => "./config"

def metadataPath (env : Environment) : String :=
  match userDirectory? env "XDG_DATA_HOME" ".local/share" with
  | some d => FilePath.join (FilePath.join d "reposync") "repositories.json"
  | none => "./repositories.json"

def expand (env : Environment) (path : String) : String :=
  match path.toList, home? env with
  | '~' :: '/' :: rest, some home => FilePath.join home (String.ofList rest)
  | _, _ => path

end Environment

end IndexRefresh
