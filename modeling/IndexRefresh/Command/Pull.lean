import IndexRefresh.Command.Process
import IndexRefresh.Event
import IndexRefresh.Text.Blank
import IndexRefresh.Update.Failure

namespace IndexRefresh

structure WorkingCopies (m : Type → Type) where
  program : String
  remote : String
  processes : Processes m
  emit : Event → m Unit

namespace WorkingCopies

def standardProgram : String :=
  "git"

def standardRemote : String :=
  "origin"

variable {m : Type → Type} [Monad m]

def invocation (w : WorkingCopies m) (path branch : String) : Invocation :=
  ⟨w.program, ["-C", path, "pull", "--ff-only", w.remote, branch], none, none⟩

def event (level : Level) (message path branch : String) (more : List (String × FieldValue)) :
    Event :=
  ⟨level, .gitPull, message, ("path", .text path) :: ("branch", .text branch) :: more⟩

def failure (status : ExitStatus) (errors : String) : Fault :=
  .command (s!"git pull exited with {status.text}: " ++
    String.ofList (Text.trim errors.toList))

def pull (w : WorkingCopies m) (path branch : String) : ExceptT Fault m Unit := do
  w.emit (event .debug "Pulling working copy" path branch [])
  match ← w.processes.run (w.invocation path branch) with
  | .error e => throw (.io e.text)
  | .ok completion =>
      match completion.finished with
      | .error e => throw (.io e.text)
      | .ok finished =>
          if finished.status.isSuccess then return ()
          else
            w.emit (event .warn "git pull failed" path branch
              [("status", .text finished.status.text)])
            throw (failure finished.status finished.errors)

end WorkingCopies

end IndexRefresh
