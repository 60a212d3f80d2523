import IndexRefresh.Event
import IndexRefresh.Ledger.Job
import IndexRefresh.Table
import IndexRefresh.Text.Cut

namespace IndexRefresh

structure Ledger where
  jobs : Table Job
  maxAge : Duration

namespace Ledger

def new (maxAge : Duration) : Ledger :=
  ⟨.empty, maxAge⟩

def get? (l : Ledger) (id : String) : Option Job :=
  l.jobs.get? id

def count (l : Ledger) : Nat :=
  l.jobs.size

def later (newest : Option Job) (j : Job) : Option Job :=
  match newest with
  | none => some j
  | some n => if j.created < n.created then some n else some j

def outstanding? (l : Ledger) (repository : String) : Option Job :=
  (l.jobs.values.filter (·.isOutstanding repository)).foldl later none

def event (level : Level) (message : String) (fields : List (String × FieldValue)) : Event :=
  ⟨level, .ledger, message, fields⟩

def evict (l : Ledger) (now : Duration) : Traced (Ledger × Nat) :=
  let kept := l.jobs.filter fun j => !j.isExpired now l.maxAge
  let evicted := l.jobs.size - kept.size
  ⟨({ l with jobs := kept }, evicted),
   if evicted = 0 then []
   else [event .debug "Evicted expired jobs"
     [("evicted", .number evicted), ("remaining", .number kept.size)]]⟩

/-- Evicts, then enters a job under the first of the drawn names that no job has; fails when all of
them are taken. -/
def create? (l : Ledger) (m : Moment) (repository : String) (draws : List String) :
    Option (Traced (Ledger × String)) :=
  let cleared := l.evict m.instant
  let l := cleared.value.1
  (draws.find? fun id => (l.get? id).isNone).map fun id =>
    ⟨({ l with jobs := l.jobs.insert id (.new id repository m) }, id),
     cleared.events ++
       [event .info "Job created" [("job_id", .text id), ("repository", .text repository)]]⟩

def advance (l : Ledger) (m : Moment) (id : String) (status : JobStatus) : Traced (Ledger × Bool) :=
  match l.get? id with
  | none => ⟨(l, false), []⟩
  | some j =>
      if j.status.isTerminal || (j.status == .running && status == .pending) then
        ⟨(l, false), [event .debug "Ignoring job transition"
          [("job_id", .text id), ("from", .text j.status.name), ("to", .text status.name)]]⟩
      else
        let j := if status == .running then { j with startedAt := some m.stamp }
          else if status.isTerminal then { j with finishedAt := some m.stamp }
          else j
        ⟨({ l with jobs := l.jobs.insert id { j with status := status } }, true),
         [event .debug "Job status updated"
          [("job_id", .text id), ("status", .text status.name)]]⟩

inductive Verdict where
  | completed (result : Report)
  | failed (message : String)
  | timedOut
  deriving DecidableEq, Repr

def Verdict.status : Verdict → JobStatus
  | .completed _ => .completed
  | .failed _ => .failed
  | .timedOut => .timedOut

def Verdict.record (v : Verdict) (j : Job) : Job :=
  match v with
  | .completed result => { j with result := some result }
  | .failed message => { j with error := some message }
  | .timedOut => { j with error := some "Update exceeded its time limit" }

def finish (l : Ledger) (m : Moment) (id : String) (v : Verdict) : Traced (Ledger × Bool) :=
  match l.get? id with
  | none =>
      ⟨(l, false), [event .warn "Finishing unknown job"
        [("job_id", .text id), ("status", .text v.status.name)]]⟩
  | some j =>
      if j.status.isTerminal then
        ⟨(l, false), [event .debug "Job already finished"
          [("job_id", .text id), ("current", .text j.status.name),
           ("requested", .text v.status.name)]]⟩
      else
        let j := { v.record j with status := v.status, finishedAt := some m.stamp }
        ⟨({ l with jobs := l.jobs.insert id j }, true),
         [event .info "Job finished"
          [("job_id", .text id), ("repository", .text j.repository),
           ("status", .text v.status.name)]]⟩

def sweepStopped : Event :=
  event .debug "Job eviction stopped" []

/-- The name of a job: when it was created, in seconds of the calendar's epoch, and a drawn number
of twenty bits. -/
def jobId (epochSeconds : Int) (drawn : Nat) : String :=
  s!"update-{epochSeconds}-" ++ String.ofList (Text.hex 5 (drawn % 0x100000))

def isJobId (id : String) : Bool :=
  match Text.split '-' id.toList with
  | [mark, seconds, suffix] =>
      mark == ['u', 'p', 'd', 'a', 't', 'e'] && !seconds.isEmpty && seconds.all Char.isDigit &&
        suffix.length == 5 &&
        suffix.all fun c => c.isDigit || ('a' ≤ c && c ≤ 'f')
  | _ => false

end Ledger

end IndexRefresh
