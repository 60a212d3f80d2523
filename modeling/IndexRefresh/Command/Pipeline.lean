import IndexRefresh.Command.Process
import IndexRefresh.Event
import IndexRefresh.Json.Printer
import IndexRefresh.Json.Reader
import IndexRefresh.Text.Blank
import IndexRefresh.Update.Failure
import IndexRefresh.Update.Report

namespace IndexRefresh

structure Pipeline (m : Type → Type) where
  program : String
  args : List String
  processes : Processes m
  emit : Event → m Unit

namespace Pipeline

def request (files : List ChangedFile) (options : PipelineOptions) : Json :=
  Json.record (options.members ++ [("files", toJson files)])

def unreadable : Fault :=
  .serialization "the output is not the expected document"

def failure (program : String) (status : ExitStatus) (errors : String) : Fault :=
  .command (s!"{program} exited with {status.text}: " ++ String.ofList (Text.trim errors.toList))

variable {m : Type → Type} [Monad m]

def invocation (p : Pipeline m) (files : List ChangedFile) (options : PipelineOptions) :
    Invocation :=
  ⟨p.program, p.args, some options.localPath, some (request files options).compact⟩

def event (p : Pipeline m) (level : Level) (message repository : String)
    (more : List (String × FieldValue)) : Event :=
  ⟨level, .pipeline, message,
   ("program", .text p.program) :: ("repository", .text repository) :: more⟩

def reported (p : Pipeline m) (repository : String) (f : Finished) :
    Traced (Except Fault PipelineOutput) :=
  if f.status.isSuccess then
    match (Json.ofBytes? f.output).bind ofJson? with
    | some output => .quiet (.ok output)
    | none => .quiet (.error unreadable)
  else
    ⟨.error (failure p.program f.status f.errors),
     [p.event .warn "Update pipeline exited unsuccessfully" repository
      [("status", .text f.status.text)]]⟩

/-- A program may stop reading before the end of the request: then its exit status decides. -/
def outcome (p : Pipeline m) (repository : String) (c : Completion) :
    Traced (Except Fault PipelineOutput) :=
  match c.finished with
  | .error e => .quiet (.error (.io e.text))
  | .ok f =>
      match c.written with
      | .ok () => p.reported repository f
      | .error .brokenPipe =>
          (p.reported repository f).after
            [p.event .debug "Update pipeline closed stdin before the whole request was written"
              repository []]
      | .error e => .quiet (.error (.io e.text))

def process (p : Pipeline m) (files : List ChangedFile) (options : PipelineOptions) :
    ExceptT Fault m PipelineOutput := do
  p.emit (p.event .debug "Starting update pipeline" options.repository
    [("files", .number files.length)])
  match ← p.processes.run (p.invocation files options) with
  | .error e => throw (.io e.text)
  | .ok completion =>
      let result := p.outcome options.repository completion
      result.events.forM fun e => (p.emit e : m Unit)
      ExceptT.mk (pure result.value)

end Pipeline

end IndexRefresh
