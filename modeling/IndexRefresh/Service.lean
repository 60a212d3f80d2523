import IndexRefresh.Guard
import IndexRefresh.Ledger
import IndexRefresh.Service.Answer
import IndexRefresh.Service.Limits
import IndexRefresh.Service.Refusal
import IndexRefresh.Text.Quoted
import IndexRefresh.Update.Run

namespace IndexRefresh

inductive Client where
  | caller
  | job (id : String)
  deriving DecidableEq, Repr

structure Watch where
  run : Nat
  repository : String
  client : Client
  deadline : Duration
  gaveUp : Bool
  deriving DecidableEq, Repr

structure Launch where
  job : String
  repository : String
  permit : Permit
  deriving DecidableEq, Repr

inductive Conclusion where
  | reported (r : Report)
  | failed (f : Failure)
  | timedOut
  | crashed (detail : String)
  deriving DecidableEq, Repr

abbrev SyncAnswer := Except Refusal UpdateAnswer

inductive Admission (α : Type) where
  | admitted (a : α)
  | refused (r : Refusal)
  | crashed (detail : String)

structure Service where
  limits : Limits
  threshold : UInt64
  guard : Guard
  ledger : Ledger
  runs : List Run
  watches : List Watch
  launches : List Launch

namespace Service

def new (limits : Limits) (threshold : UInt64) : Service where
  limits := limits
  threshold := threshold
  guard := .new limits.cooldown
  ledger := .new limits.jobMaxAge
  runs := []
  watches := []
  launches := []

def event (level : Level) (message : String) (fields : List (String × FieldValue)) : Event :=
  ⟨level, .service, message, fields⟩

def retryText (seconds : Option UInt64) : String :=
  match seconds with
  | some n => s!"Some({n})"
  | none => "None"

/-- The refusal of a trigger that the guard denies; none when its seconds need more than 64 bits. -/
def refusal? (repository : String) : Denial → Option Refusal
  | .inProgress => some (Refusal.inProgress repository none)
  | .cooldown retryAfter => Refusal.rateLimited? repository retryAfter

def denied (repository : String) (r : Refusal) : Event :=
  event .info "Update trigger denied"
    [("repository", .text repository), ("reason", .text r.code.name),
     ("retry_after_seconds", .text (retryText r.retryAfterSeconds))]

def acquire (s : Service) (m : Moment) (repository : String) :
    Traced (Service × Admission Permit) :=
  match s.guard.acquire m.instant repository with
  | .ok guard => ⟨({ s with guard := guard.value }, .admitted ⟨repository⟩), guard.events⟩
  | .error d =>
      match refusal? repository d with
      | some r => ⟨(s, .refused r), [denied repository r]⟩
      | none => .quiet (s, .crashed overflowText)

def spawn (s : Service) (m : Moment) (repository : String) (permit : Permit) (client : Client) :
    Service :=
  { s with
    runs := s.runs ++ [.new repository (some permit)]
    watches := s.watches ++
      [⟨s.runs.length, repository, client, m.instant + s.limits.timeout, false⟩] }

def triggerSync (s : Service) (m : Moment) (repository : String) :
    Traced (Service × Admission Nat) :=
  match s.ledger.outstanding? repository with
  | some j =>
      ⟨(s, .refused (.inProgress repository (some j.id))),
       [event .debug "Sync trigger refused, job outstanding"
        [("repository", .text repository), ("job_id", .text j.id)]]⟩
  | none =>
      let permit := s.acquire m repository
      match permit.value with
      | (s, .admitted p) =>
          ⟨(s.spawn m repository p .caller, .admitted s.runs.length),
           permit.events ++
             [event .info "Starting synchronous update" [("repository", .text repository)]]⟩
      | (s, .refused r) => ⟨(s, .refused r), permit.events⟩
      | (s, .crashed detail) => ⟨(s, .crashed detail), permit.events⟩

/-- Asks for an update in the background. A repository with an outstanding job is answered with
that job. No answer means that other names for the job must be drawn. -/
def triggerAsync? (s : Service) (m : Moment) (draws : List String) (repository : String) :
    Option (Traced (Service × Admission JobAnswer)) :=
  match s.ledger.outstanding? repository with
  | some j =>
      some ⟨(s, .admitted (.outstanding j.id repository)),
        [event .info "Returning outstanding job"
          [("repository", .text repository), ("job_id", .text j.id)]]⟩
  | none =>
      let permit := s.acquire m repository
      match permit.value with
      | (s, .admitted p) =>
          (s.ledger.create? m repository draws).map fun created =>
            let id := created.value.2
            ⟨({ s with
                ledger := created.value.1
                launches := s.launches ++ [⟨id, repository, p⟩] },
              .admitted (.started id repository)),
             permit.events ++ created.events⟩
      | (s, .refused r) => some ⟨(s, .refused r), permit.events⟩
      | (s, .crashed detail) => some ⟨(s, .crashed detail), permit.events⟩

def launch? (s : Service) (m : Moment) (job : String) : Option (Traced (Service × Nat)) :=
  (s.launches.find? (·.job = job)).map fun l =>
    let moved := s.ledger.advance m job .running
    let s := { s with
      ledger := moved.value.1
      launches := s.launches.erase l }
    ⟨(s.spawn m l.repository l.permit (.job job), s.runs.length), moved.events⟩

def putRun (s : Service) (m : Moment) (i : Nat) (r : Run) : Traced Service :=
  match r.isLive, r.permit with
  | false, some p =>
      (s.guard.release m.instant p).map fun guard =>
        { s with guard := guard, runs := s.runs.set i { r with permit := none } }
  | _, _ => .quiet { s with runs := s.runs.set i r }

def beginRun? (s : Service) (i : Nat) : Option Service :=
  (s.runs[i]?.bind Run.begin?).map fun r => { s with runs := s.runs.set i r }

def answerRun? (s : Service) (m : Moment) (listener : Listener) (elapsedMs : UInt64) (i : Nat)
    (reply : (st : Stage) → st.Reply) : Option (Traced Service) :=
  (s.runs[i]?.bind (·.answer? s.threshold listener m.stamp elapsedMs reply)).map fun r =>
    (s.putRun m i r.value).after r.events

def interruptRun? (s : Service) (m : Moment) (i : Nat) : Option (Traced Service) :=
  (s.runs[i]?.bind Run.interrupt?).map fun r => (s.putRun m i r.value).after r.events

def crashRun? (s : Service) (m : Moment) (i : Nat) (detail : String) : Option (Traced Service) :=
  (s.runs[i]?.bind (·.crash? detail)).map fun r => s.putRun m i r

def dropRun? (s : Service) (m : Moment) (i : Nat) : Option (Traced Service) :=
  (s.runs[i]?.filter Run.isLive).map fun r =>
    s.putRun m i { r with state := .ended (.crashed "the program ended") }

def crashText (i : Nat) (detail : String) : String :=
  s!"task {i} panicked with message " ++ Text.quoted detail

def conclusionEvents (repository : String) : Conclusion → List Event
  | .failed f =>
      [event .warn "Update failed"
        [("repository", .text repository), ("error", .text (f.message repository)),
         ("code", .text f.code)]]
  | .crashed detail =>
      [event .error "Update task crashed"
        [("repository", .text repository), ("error", .text detail)]]
  | _ => []

def syncAnswer (timeout : Duration) (repository : String) : Conclusion → SyncAnswer
  | .reported r => .ok (.ofReport r)
  | .failed f => .error (.ofFailure repository f)
  | .timedOut => .error (.timeout repository timeout)
  | .crashed detail => .error (.internal repository detail)

def verdict (repository : String) : Conclusion → Ledger.Verdict
  | .reported r => .completed r
  | .failed f => .failed (f.message repository)
  | .timedOut => .timedOut
  | .crashed detail => .failed ("Update task crashed: " ++ detail)

def conclude (s : Service) (m : Moment) (w : Watch) (c : Conclusion) :
    Traced (Service × Option SyncAnswer) :=
  let s := { s with watches := s.watches.erase w }
  let events := conclusionEvents w.repository c
  match w.client with
  | .caller => ⟨(s, some (syncAnswer s.limits.timeout w.repository c)), events⟩
  | .job id =>
      let ledger := s.ledger.finish m id (verdict w.repository c)
      ⟨({ s with ledger := ledger.value.1 }, none),
       events ++ ledger.events ++
         [event .debug "Background update finished"
          [("job_id", .text id), ("repository", .text w.repository)]]⟩

def watchOf? (s : Service) (i : Nat) : Option Watch :=
  s.watches.find? (·.run = i)

def conclusionOf (i : Nat) : Ending → Conclusion
  | .reported r => .reported r
  | .failed f => .failed f
  | .crashed detail => .crashed (crashText i detail)

def conclusion? (w : Watch) (r : Run) : Option Conclusion :=
  if w.gaveUp then some .timedOut else r.ending?.map (conclusionOf w.run)

def settle? (s : Service) (m : Moment) (i : Nat) : Option (Traced (Service × Option SyncAnswer)) := do
  let w ← s.watchOf? i
  let r ← s.runs[i]?
  let c ← conclusion? w r
  return s.conclude m w c

/-- The deadline of a watch has come while its run goes on: the run is cancelled and left to wind
down on its own. -/
def expire? (s : Service) (m : Moment) (i : Nat) : Option (Traced Service) := do
  let w ← s.watchOf? i
  let r ← s.runs[i]?
  if !w.gaveUp && r.isLive && w.deadline ≤ m.instant then
    return ⟨{ s with
        runs := s.runs.set i r.cancel
        watches := s.watches.map fun v => if v.run = i then { v with gaveUp := true } else v },
      [event .warn "Update timed out, cancelling"
        [("repository", .text w.repository),
         ("timeout_secs", .number s.limits.timeout.seconds)]]⟩
  else none

def tend? (s : Service) (m : Moment) (i : Nat) : Option (Traced (Service × Option SyncAnswer)) :=
  (s.settle? m i).or do
    let expired ← s.expire? m i
    let settled ← expired.value.settle? m i
    return settled.after expired.events

def abandon (s : Service) (i : Nat) : Service :=
  { s with watches := s.watches.filter fun w => !(w.run == i && w.client == .caller) }

def sweep (s : Service) (now : Duration) : Traced (Service × Nat) :=
  (s.ledger.evict now).map fun p => ({ s with ledger := p.1 }, p.2)

def jobStatus (s : Service) (id : String) : Except Refusal JobView :=
  match s.ledger.get? id with
  | some j => .ok j.view
  | none => .error (.jobNotFound id s.ledger.maxAge)

end Service

end IndexRefresh
