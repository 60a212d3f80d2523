namespace IndexRefresh

inductive Level where
  | error
  | warn
  | info
  | debug
  | trace
  deriving DecidableEq, Repr

namespace Level

def all : List Level :=
  [.error, .warn, .info, .debug, .trace]

def name : Level → String
  | .error => "ERROR"
  | .warn => "WARN"
  | .info => "INFO"
  | .debug => "DEBUG"
  | .trace => "TRACE"

def rank : Level → Nat
  | .error => 1
  | .warn => 2
  | .info => 3
  | .debug => 4
  | .trace => 5

end Level

inductive Component where
  | service
  | guard
  | ledger
  | coordinator
  | github
  | document
  | gitPull
  | pipeline
  | commands
  deriving DecidableEq, Repr

def Component.path : Component → String
  | .service => "reposync_service::service"
  | .guard => "reposync_scheduler::guard"
  | .ledger => "reposync_scheduler::ledger"
  | .coordinator => "reposync_coordinator::coordinator"
  | .github => "reposync_coordinator::github"
  | .document => "reposync_coordinator::json_store"
  | .gitPull => "reposync_coordinator::git_sync"
  | .pipeline => "reposync_coordinator::command_pipeline"
  | .commands => "reposync_cli::commands"

inductive FieldValue where
  | number (n : Nat)
  | flag (b : Bool)
  | text (s : String)
  deriving DecidableEq, Repr

structure Event where
  level : Level
  component : Component
  message : String
  fields : List (String × FieldValue)
  deriving DecidableEq, Repr

abbrev Listener := Level → Component → Bool

namespace Listener

def silent : Listener :=
  fun _ _ => false

def everything : Listener :=
  fun _ _ => true

end Listener

structure Traced (α : Type) where
  value : α
  events : List Event

namespace Traced

variable {α β : Type}

def quiet (a : α) : Traced α :=
  ⟨a, []⟩

def map (f : α → β) (t : Traced α) : Traced β :=
  ⟨f t.value, t.events⟩

def after (events : List Event) (t : Traced α) : Traced α :=
  ⟨t.value, events ++ t.events⟩

@[simp] theorem value_quiet (a : α) : (quiet a).value = a := rfl

@[simp] theorem value_map (f : α → β) (t : Traced α) : (t.map f).value = f t.value := rfl

@[simp] theorem value_after (events : List Event) (t : Traced α) :
    (t.after events).value = t.value := rfl

end Traced

end IndexRefresh
