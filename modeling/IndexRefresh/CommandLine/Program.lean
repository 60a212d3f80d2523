import IndexRefresh.CommandLine.Arguments
import IndexRefresh.CommandLine.Listing
import IndexRefresh.CommandLine.Update
import IndexRefresh.Event.Filter

namespace IndexRefresh.CommandLine

def Request.override (r : Request) (s : Settings) : Settings :=
  { s with
    logLevel := r.logLevel.getD s.logLevel
    metadataPath := r.metadataPath.getD s.metadataPath }

variable {m : Type → Type} [Monad m]

def Request.settings (r : Request) (files : Files m) (env : Environment)
    (formats : FileFormats := .plain) : m (Except CommandFailure Settings) := do
  match ← Settings.load files env r.config formats with
  | .ok s => return .ok (r.override s)
  | .error e => return .error (.settings e)

def list (h : Host m) (path : String) : m (Except CommandFailure Unit) := do
  match ← (h.store path).list.run with
  | .error f => return .error (.unreadable path f)
  | .ok snapshots => do
      (listing path snapshots).forM h.print
      return .ok ()

def describe (h : Host m) (path repository : String) : m (Except CommandFailure Unit) := do
  match ← ((h.store path).get repository).run with
  | .error f => return .error (.unreadable path f)
  | .ok none => return .error (.unknownRepository repository)
  | .ok (some s) => do
      h.print (toJson s).pretty
      return .ok ()

def update (h : Host m) (listener : Listener) (path : String) (s : Settings) (repository : String)
    (background : Bool) (pollMs : UInt64) : m (Except CommandFailure Unit) := do
  let some program := s.pipeline.program | return .error .noPipeline
  let collaborators := h.collaborators path (.ofSettings s.github) program s.pipeline.args
  let session : Session m := ⟨h, collaborators, listener, repository⟩
  session.update background (.ofMillis pollMs.toNat)
    (.new (.ofSettings s.update) s.update.changeThreshold)

def perform (h : Host m) (listener : Listener) (env : Environment) (s : Settings) :
    Action → m (Except CommandFailure Unit)
  | .list => list h (s.expandedMetadataPath env)
  | .show repository => describe h (s.expandedMetadataPath env) repository
  | .update repository background pollMs =>
      update h listener (s.expandedMetadataPath env) s repository background pollMs

def versionLine : String :=
  "reposync 0.3.0"

def usage : List String :=
  ["Usage: reposync [OPTIONS] <COMMAND>",
   "",
   "Commands:",
   "  update <REPOSITORY> [--async] [--poll-interval-ms <MS>]",
   "  list",
   "  show <REPOSITORY>",
   "  help [COMMAND]",
   "",
   "Options:",
   "  -c, --config <FILE>",
   "  -l, --log-level <LEVEL>",
   "      --metadata-path <FILE>",
   "  -h, --help",
   "  -V, --version"]

def dismiss (h : Host m) (d : Dismissal) : m Nat := do
  match d with
  | .help => usage.forM h.print
  | .version => h.print versionLine
  | _ => usage.forM h.note
  return d.exitCode

def execute (h : Host m) (env : Environment) (r : Request) : m (Except CommandFailure Unit) := do
  match ← r.settings h.files env h.formats with
  | .error f => return .error f
  | .ok s =>
      let listener := (LogFilter.choose (env.lookup "RUST_LOG") s.logLevel).listener
      perform (h.heardBy listener) listener env s r.action

def run (h : Host m) (env : Environment) (args : List String) : m Nat := do
  match Request.ofArguments args with
  | .error d => dismiss h d
  | .ok r =>
      match ← execute h env r with
      | .ok () => return 0
      | .error f => do
          f.lines.forM h.note
          return 1

end IndexRefresh.CommandLine
