import IndexRefresh.CommandLine.Failure
import IndexRefresh.CommandLine.Host
import IndexRefresh.CommandLine.Vigil

namespace IndexRefresh.CommandLine

structure Session (m : Type → Type) where
  host : Host m
  collaborators : Collaborators m
  listener : Listener
  repository : String

namespace Session

def event (level : Level) (message : String) (fields : List (String × FieldValue)) : Event :=
  ⟨level, .commands, message, fields⟩

def callLimit : Nat :=
  6

variable {m : Type → Type} [Monad m]

def publish {α : Type} (x : Session m) (t : Traced α) : m α := do
  x.host.emitAll t.events
  return t.value

def drive (x : Session m) (q : Option Inquiry) (began : Duration) (i : Nat) : Nat → Vigil → m Vigil
  | 0, v => return v
  | calls + 1, v => do
      let some stage := v.service.runs[i]?.bind Run.stage? | return v
      let reply ← x.collaborators.reply x.repository stage
      let now ← x.host.moment
      match (v.service.watchOf? i).filter fun w => w.deadline ≤ now.instant with
      | some w => x.publish (v.upTo q { now with instant := w.deadline })
      | none => do
          let v ← x.publish (v.upTo q now)
          let elapsed := (Duration.millis (v.now.instant - began)).toUInt64
          match v.service.answerRun? v.now x.listener elapsed i (stage.replyTo reply) with
          | some t => drive x q began i calls { v with service := ← x.publish t }
          | none => return v

def finish (x : Session m) (q : Option Inquiry) (i : Nat) (v : Vigil) :
    m (Vigil × Option SyncAnswer) := do
  let begun := { v with service := (v.service.beginRun? i).getD v.service }
  let v ← x.drive q v.now.instant i callLimit begun
  match v.service.tend? v.now i with
  | some t => do
      let (s, a) ← x.publish t
      return ({ v with service := s }, a)
  | none => return (v, none)

def refuse (x : Session m) (r : Refusal) : m (Except CommandFailure Unit) := do
  x.host.print (toJson r).pretty
  return .error (.refused r)

def answer (x : Session m) : SyncAnswer → m (Except CommandFailure Unit)
  | .ok a => do
      x.host.print (toJson a).pretty
      return .ok ()
  | .error r => x.refuse r

def updateNow (x : Session m) (sweep : Sweep) (s : Service) : m (Except CommandFailure Unit) := do
  let now ← x.host.moment
  match ← x.publish (s.triggerSync now x.repository) with
  | (_, .refused r) => x.refuse r
  | (_, .crashed detail) => return .error (.crashed detail)
  | (s, .admitted i) => do
      match (← x.finish none i ⟨s, sweep, now, none⟩).2 with
      | some a => x.answer a
      | none => x.refuse (.internal x.repository "the run did not end")

def report (x : Session m) : Except Refusal JobView → m (Except CommandFailure Unit)
  | .error r => return .error (.refused r)
  | .ok v => do
      x.host.print (toJson v).pretty
      return if v.status = .completed then .ok () else .error (.jobEnded v)

/-- Reports the final answer; when a run has just ended, nobody asks before the next regular time. -/
def await (x : Session m) (q : Inquiry) (v : Vigil) : m (Except CommandFailure Unit) := do
  match v.answer with
  | some a => x.report a
  | none => do
      let time := q.next v.now.instant
      x.host.waitUntil time
      let v ← x.publish (v.ask q.job time)
      x.report (v.answer.getD (v.service.jobStatus q.job))

def attend (x : Session m) (q : Inquiry) (v : Vigil) : m (Except CommandFailure Unit) := do
  let v ← x.publish (v.ask q.job q.start)
  match v.service.launch? v.now q.job with
  | none => x.await q v
  | some t => do
      let (s, i) ← x.publish t
      x.await q (← x.finish (some q) i { v with service := s }).1

def updateInBackground (x : Session m) (pollInterval : Duration) (sweep : Sweep) (s : Service) :
    m (Except CommandFailure Unit) := do
  let created ← x.host.moment
  let draws ← x.host.draws
  let some triggered := s.triggerAsync? created draws x.repository
    | return .error (.crashed "no name is left for a job")
  match ← x.publish triggered with
  | (_, .refused r) => x.refuse r
  | (_, .crashed detail) => return .error (.crashed detail)
  | (s, .admitted a) => do
      x.host.note s!"{a.message} ({a.jobId})"
      let start ← x.host.moment
      x.attend ⟨a.jobId, start.instant, max pollInterval Inquiry.leastInterval⟩
        ⟨s, sweep, start, none⟩

def update (x : Session m) (background : Bool) (pollInterval : Duration) (s : Service) :
    m (Except CommandFailure Unit) := do
  let began ← x.host.moment
  let sweep := Sweep.start began.instant s.limits.evictionInterval
  x.host.emit (event .info "Triggering update"
    [("repository", .text x.repository), ("mode", .text (if background then "async" else "sync"))])
  let outcome ← if background then x.updateInBackground pollInterval sweep s
    else x.updateNow sweep s
  x.host.emit Ledger.sweepStopped
  return outcome

end Session

end IndexRefresh.CommandLine
