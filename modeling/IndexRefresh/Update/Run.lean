import IndexRefresh.Guard
import IndexRefresh.Update.Resume

namespace IndexRefresh

inductive RunState where
  | admitted
  | waits (s : Stage)
  | ended (e : Ending)
  deriving DecidableEq, Repr

structure Run where
  repository : String
  cancelled : Bool
  state : RunState
  permit : Option Permit
  deriving DecidableEq, Repr

namespace Run

def new (repository : String) (permit : Option Permit) : Run :=
  ⟨repository, false, .admitted, permit⟩

def isLive (r : Run) : Bool :=
  match r.state with
  | .ended _ => false
  | _ => true

def ending? (r : Run) : Option Ending :=
  match r.state with
  | .ended e => some e
  | _ => none

def stage? (r : Run) : Option Stage :=
  match r.state with
  | .waits s => some s
  | _ => none

def cancel (r : Run) : Run :=
  { r with cancelled := true }

def goTo (r : Run) (p : Progress) : Run :=
  match p with
  | .waits s => { r with state := .waits s }
  | .ended e => { r with state := .ended e }

def begin? (r : Run) : Option Run :=
  match r.state with
  | .admitted => some { r with state := .waits .loading }
  | _ => none

def task (r : Run) (threshold : UInt64) (listener : Listener) : UpdateTask :=
  ⟨r.repository, threshold, listener⟩

def answer? (r : Run) (threshold : UInt64) (listener : Listener) (stamp : Timestamp)
    (elapsedMs : UInt64) (reply : (s : Stage) → s.Reply) : Option (Traced Run) :=
  match r.state with
  | .waits s =>
      some (((r.task threshold listener).resume ⟨r.cancelled, stamp, elapsedMs⟩ s (reply s)).map
        r.goTo)
  | _ => none

def interrupt? (r : Run) : Option (Traced Run) :=
  match r.state with
  | .waits s =>
      if r.cancelled && s.isInterruptible then
        some ((r.task 0 .silent).interrupted.map r.goTo)
      else none
  | _ => none

def crash? (r : Run) (detail : String) : Option Run :=
  match r.state with
  | .waits _ => some { r with state := .ended (.crashed detail) }
  | _ => none

end Run

end IndexRefresh
