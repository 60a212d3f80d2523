import IndexRefresh.Ledger.Sweep
import IndexRefresh.Service

namespace IndexRefresh

def Moment.later (a b : Moment) : Moment :=
  if a.instant < b.instant then b else a

namespace CommandLine

structure Inquiry where
  job : String
  start : Duration
  interval : Duration
  deriving DecidableEq, Repr

namespace Inquiry

def leastInterval : Duration :=
  .ofMillis 10

def tick (q : Inquiry) (k : Nat) : Duration :=
  q.start + k * q.interval

def count (q : Inquiry) (time : Duration) : Nat :=
  (time - q.start) / q.interval

def next (q : Inquiry) (time : Duration) : Duration :=
  q.tick (q.count time + 1)

def between (q : Inquiry) (since time : Duration) : List Duration :=
  (List.range' (q.count since + 1) (q.count time - q.count since)).map q.tick

end Inquiry

structure Vigil where
  service : Service
  sweep : Sweep
  now : Moment
  answer : Option (Except Refusal JobView)

namespace Vigil

def isFinal : Except Refusal JobView → Bool
  | .ok v => v.status.isTerminal
  | .error _ => true

def polled : Except Refusal JobView → List Event
  | .ok v =>
      [⟨.debug, .commands, "Polled job",
        [("job_id", .text v.jobId), ("status", .text v.status.name)]⟩]
  | .error _ => []

def sweepTo (v : Vigil) (time : Duration) : Traced Vigil :=
  (v.sweep.upTo time v.service.ledger).map fun p =>
    { v with service := { v.service with ledger := p.1 }, sweep := p.2 }

def ask (v : Vigil) (job : String) (time : Duration) : Traced Vigil :=
  if v.answer.isSome then .quiet v
  else
    let swept := v.sweepTo time
    let told := swept.value.service.jobStatus job
    ⟨{ swept.value with answer := if isFinal told then some told else none },
     swept.events ++ polled told⟩

def askAll (v : Vigil) (job : String) : List Duration → Traced Vigil
  | [] => .quiet v
  | time :: times =>
      let asked := v.ask job time
      (askAll asked.value job times).after asked.events

def askDue (v : Vigil) (time : Duration) : Option Inquiry → Traced Vigil
  | none => .quiet v
  | some q => v.askAll q.job (q.between v.now.instant time)

/-- Time passes, and what comes due happens in its order. A clock that goes back stands still. -/
def upTo (v : Vigil) (q : Option Inquiry) (m : Moment) : Traced Vigil :=
  let now := v.now.later m
  let asked := v.askDue now.instant q
  ((asked.value.sweepTo now.instant).after asked.events).map fun v => { v with now := now }

end Vigil

end CommandLine

end IndexRefresh
