import IndexRefresh.Command.Pipeline
import IndexRefresh.Command.Pull
import IndexRefresh.GitHub.Source
import IndexRefresh.Ledger.Job
import IndexRefresh.Settings.File
import IndexRefresh.Store.Document
import IndexRefresh.Update.Collaborators

namespace IndexRefresh

structure Host (m : Type → Type) where
  files : Files m
  processes : Processes m
  wire : GitHub.Wire m
  moment : m Moment
  waitUntil : Duration → m Unit
  draws : m (List String)
  print : String → m Unit
  note : String → m Unit
  formats : FileFormats := .plain

namespace Host

variable {m : Type → Type} [Monad m]

def emit (h : Host m) (e : Event) : m Unit :=
  h.wire.emit e

def emitAll (h : Host m) (events : List Event) : m Unit :=
  events.forM h.emit

def store (h : Host m) (path : String) : DocumentStore m :=
  ⟨h.files, h.emit, path⟩

def heardBy (h : Host m) (listener : Listener) : Host m :=
  { h with wire := { h.wire with
      emit := fun e => if listener e.level e.component then h.wire.emit e else pure () } }

def collaborators (h : Host m) (path : String) (access : GitHub.Access) (program : String)
    (args : List String) : Collaborators m :=
  let store := h.store path
  let source : GitHub.Source m := ⟨access, h.wire⟩
  let copies : WorkingCopies m :=
    ⟨WorkingCopies.standardProgram, WorkingCopies.standardRemote, h.processes, h.emit⟩
  let pipeline : Pipeline m := ⟨program, args, h.processes, h.emit⟩
  { load := store.get
    head := source.head
    compare := source.compare
    pull := copies.pull
    process := fun options files => pipeline.process files options
    save := store.put }

end Host

end IndexRefresh
