import IndexRefresh.Rehearsal.Plan
import IndexRefresh.Service

namespace IndexRefresh

namespace Rehearsal

inductive RunRef where
  | served (i : Nat)
  | apart (i : Nat)
  deriving DecidableEq, Repr

inductive Wake where
  | run (r : RunRef)
  | watch (i : Nat)
  | job (id : String)
  | caller (i : Nat)
  | cancel (i : Nat)
  | sweep (i : Nat)
  | main
  deriving DecidableEq, Repr

structure Pending where
  run : RunRef
  due : Duration
  plan : Plan

inductive TriggerAnswer (α : Type) where
  | answered (a : Except Refusal α)
  | crashed (detail : String)

inductive CallerState where
  | starting (repository : String)
  | waiting (run : Nat)
  | done (answer : TriggerAnswer UpdateAnswer)

end Rehearsal

open Rehearsal in
structure Rehearsal where
  plan : Plan
  store : MemoryStore
  service : Service
  listener : Listener
  stamp : Timestamp
  now : Duration
  apart : List Run
  tokenless : List Nat
  pending : List Pending
  ready : List Wake
  timers : List (Duration × Wake)
  answers : List (Nat × SyncAnswer)
  callers : List CallerState
  sweeps : List Bool
  drawn : Nat
  calls : List Call
  log : List Event

namespace Rehearsal

def new (limits : Limits) (threshold : UInt64) (stamp : Timestamp) (listener : Listener)
    (plan : Plan) (store : MemoryStore) : Rehearsal where
  plan := plan
  store := store
  service := .new limits threshold
  listener := listener
  stamp := stamp
  now := 0
  apart := []
  tokenless := []
  pending := []
  ready := []
  timers := []
  answers := []
  callers := []
  sweeps := []
  drawn := 0
  calls := []
  log := []

abbrev Play := StateM Rehearsal

def budget : Nat :=
  100000000

def emit (events : List Event) : Play Unit :=
  modify fun r => { r with log := events.reverse ++ r.log }

def moment : Play Moment := do
  let r ← get
  return ⟨r.now, r.stamp⟩

def wake (w : Wake) : Play Unit :=
  modify fun r => if r.ready.contains w then r else { r with ready := r.ready ++ [w] }

def setTimer (due : Duration) (w : Wake) : Play Unit :=
  modify fun r =>
    let earlier := r.timers.takeWhile fun t => t.1 ≤ due
    let later := r.timers.dropWhile fun t => t.1 ≤ due
    { r with timers := earlier ++ (due, w) :: later }

def runAt? (r : Rehearsal) : RunRef → Option Run
  | .served i => r.service.runs[i]?
  | .apart i => r.apart[i]?

def cancelApart (i : Nat) : Play Unit := do
  let r ← get
  if !r.tokenless.contains i then
    set { r with apart := r.apart.modify i Run.cancel }
    wake (.run (.apart i))

def putService (s : Traced Service) : Play Unit := do
  modify fun r => { r with service := s.value }
  emit s.events

def beginRun (ref : RunRef) : Play Unit :=
  modify fun r =>
    match ref with
    | .served i => { r with service := (r.service.beginRun? i).getD r.service }
    | .apart i => { r with apart := r.apart.modify i fun run => run.begin?.getD run }

def answerRun (ref : RunRef) (reply : (s : Stage) → s.Reply) : Play Unit := do
  let m ← moment
  let r ← get
  match ref with
  | .served i =>
      if let some s := r.service.answerRun? m r.listener 0 i reply then putService s
  | .apart i =>
      if let some t := r.apart[i]?.bind
          (·.answer? r.service.threshold r.listener m.stamp 0 reply) then
        modify fun r => { r with apart := r.apart.set i t.value }
        emit t.events

def interruptRun (ref : RunRef) : Play Unit := do
  let m ← moment
  let r ← get
  match ref with
  | .served i => if let some s := r.service.interruptRun? m i then putService s
  | .apart i =>
      if let some t := r.apart[i]?.bind Run.interrupt? then
        modify fun r => { r with apart := r.apart.set i t.value }
        emit t.events

def crashRun (ref : RunRef) (detail : String) : Play Unit := do
  let m ← moment
  let r ← get
  match ref with
  | .served i => if let some s := r.service.crashRun? m i detail then putService s
  | .apart i =>
      if let some run := r.apart[i]?.bind (·.crash? detail) then
        modify fun r => { r with apart := r.apart.set i run }

def endCall (p : Pending) (repository : String) (s : Stage) : Play Unit := do
  modify fun r => { r with pending := r.pending.filter fun q => q.run != p.run }
  let course := p.plan.course s
  match course.crash, course.fault with
  | some detail, _ => crashRun p.run detail
  | none, some f => answerRun p.run (Stage.failed f)
  | none, none =>
      let r ← get
      answerRun p.run (p.plan.success r.store repository)
      modify fun r => { r with store := Plan.storeAfter r.store s }

def makeCall (ref : RunRef) (repository : String) (s : Stage) : Play Pending := do
  let r ← get
  let course := r.plan.course s
  set { r with calls := s.call repository :: r.calls }
  if course.cancels && !r.apart.isEmpty then cancelApart (r.apart.length - 1)
  return ⟨ref, r.now + course.delay, r.plan⟩

def goOn (ref : RunRef) : Nat → Play Unit
  | 0 => pure ()
  | fuel + 1 => do
      let r ← get
      let some run := r.runAt? ref | return
      match run.state with
      | .ended _ =>
          match ref with
          | .served i => wake (.watch i)
          | .apart _ => pure ()
      | .admitted =>
          beginRun ref
          goOn ref fuel
      | .waits s =>
          if run.cancelled && s.isInterruptible then
            modify fun r => { r with pending := r.pending.filter fun q => q.run != ref }
            interruptRun ref
            goOn ref fuel
          else
            match r.pending.find? fun q => q.run = ref with
            | some p =>
                if p.due ≤ r.now then
                  endCall p run.repository s
                  goOn ref fuel
            | none =>
                let p ← makeCall ref run.repository s
                if p.due ≤ r.now then
                  endCall p run.repository s
                  goOn ref fuel
                else
                  modify fun r => { r with pending := p :: r.pending }
                  setTimer p.due (.run ref)

def noteAnswer (i : Nat) : Option SyncAnswer → Play Unit
  | none => pure ()
  | some a => do
      modify fun r => { r with
        answers := (i, a) :: r.answers
        callers := r.callers.map fun c =>
          match c with
          | .waiting run => if run = i then .done (.answered a) else c
          | _ => c }
      wake .main

def pollWatch (i : Nat) : Play Unit := do
  let m ← moment
  let r ← get
  if let some t := r.service.tend? m i then
    modify fun r => { r with service := t.value.1 }
    emit t.events
    wake (.run (.served i))
    noteAnswer i t.value.2

def watchNew (i : Nat) : Play Unit := do
  wake (.run (.served i))
  let r ← get
  if let some w := r.service.watchOf? i then
    if w.deadline ≤ r.now then pollWatch i else setTimer w.deadline (.watch i)

def pollJob (id : String) : Play Unit := do
  let m ← moment
  let r ← get
  if let some t := r.service.launch? m id then
    modify fun r => { r with service := t.value.1 }
    emit t.events
    watchNew t.value.2

def trigger (repository : String) : Play (Nat ⊕ TriggerAnswer UpdateAnswer) := do
  let m ← moment
  let r ← get
  let t := r.service.triggerSync m repository
  modify fun r => { r with service := t.value.1 }
  emit t.events
  match t.value.2 with
  | .admitted i => do
      watchNew i
      return .inl i
  | .refused refusal => return .inr (.answered (.error refusal))
  | .crashed detail => return .inr (.crashed detail)

def pollCaller (k : Nat) : Play Unit := do
  let r ← get
  match r.callers[k]? with
  | some (.starting repository) =>
      match ← trigger repository with
      | .inl i =>
          let r ← get
          let state : CallerState := match r.answers.lookup i with
            | some a => .done (.answered a)
            | none => .waiting i
          modify fun r => { r with callers := r.callers.set k state }
      | .inr a => modify fun r => { r with callers := r.callers.set k (.done a) }
  | _ => pure ()

def pollSweep (i : Nat) : Play Unit := do
  let r ← get
  if r.sweeps[i]?.getD false then
    let t := r.service.sweep r.now
    modify fun r => { r with service := t.value.1 }
    emit t.events
    setTimer (r.now + max r.service.limits.evictionInterval 1) (.sweep i)

def poll : Wake → Play Unit
  | .run ref => goOn ref 16
  | .watch i => pollWatch i
  | .job id => pollJob id
  | .caller k => pollCaller k
  | .cancel i => cancelApart i
  | .sweep i => pollSweep i
  | .main => pure ()

def playUntil (isOver : Rehearsal → Bool) : Nat → Play Unit
  | 0 => pure ()
  | fuel + 1 => do
      let r ← get
      match r.ready with
      | w :: ws =>
          set { r with ready := ws }
          poll w
          playUntil isOver fuel
      | [] =>
          if isOver r then pure ()
          else
            match r.timers with
            | [] => pure ()
            | (due, _) :: _ =>
                let fired := r.timers.takeWhile fun t => t.1 ≤ due
                set { r with
                  now := max r.now due
                  timers := r.timers.dropWhile fun t => t.1 ≤ due
                  ready := fired.map Prod.snd }
                playUntil isOver fuel

def settle : Play Unit :=
  playUntil (fun _ => true) budget

def sleep (d : Duration) : Play Unit := do
  let r ← get
  let due := r.now + d
  if 0 < d then setTimer due .main
  playUntil (fun r => due ≤ r.now) budget

def update (repository : String) (hasToken cancelled : Bool) (cancelAfter : Option Duration) :
    Play (Option Ending) := do
  let r ← get
  let i := r.apart.length
  let run := Run.new repository none
  set { r with
    apart := r.apart ++ [if cancelled && hasToken then run.cancel else run]
    tokenless := if hasToken then r.tokenless else i :: r.tokenless }
  if let some d := cancelAfter then setTimer (r.now + d) (.cancel i)
  wake (.run (.apart i))
  playUntil (fun r => (r.apart[i]?.bind Run.ending?).isSome) budget
  let r ← get
  return r.apart[i]?.bind Run.ending?

def triggerSync (repository : String) : Play (TriggerAnswer UpdateAnswer) := do
  match ← trigger repository with
  | .inr a =>
      settle
      return a
  | .inl i =>
      playUntil (fun r => (r.answers.lookup i).isSome) budget
      let r ← get
      match r.answers.lookup i with
      | some a => return .answered a
      | none => return .crashed ""

def triggerAsync (repository : String) : Play (TriggerAnswer JobAnswer) := do
  let m ← moment
  let r ← get
  let id := Ledger.jobId 1700000000 r.drawn
  match r.service.triggerAsync? m [id] repository with
  | none => return .crashed ""
  | some t =>
      set { r with
        service := t.value.1
        drawn := if (t.value.1.ledger.get? id).isSome then r.drawn + 1 else r.drawn }
      emit t.events
      if t.value.1.launches.any (·.job = id) then wake (.job id)
      settle
      match t.value.2 with
      | .admitted a => return .answered (.ok a)
      | .refused refusal => return .answered (.error refusal)
      | .crashed detail => return .crashed detail

def spawnCaller (repository : String) : Play Nat := do
  let r ← get
  let k := r.callers.length
  set { r with callers := r.callers ++ [CallerState.starting repository] }
  wake (.caller k)
  settle
  return k

def join (k : Nat) : Play (TriggerAnswer UpdateAnswer) := do
  let isDone (r : Rehearsal) : Bool := match r.callers[k]? with
    | some (.done _) => true
    | _ => false
  playUntil isDone budget
  let r ← get
  match r.callers[k]? with
  | some (.done a) => return a
  | _ => return .crashed ""

def evict : Play Nat := do
  let r ← get
  let t := r.service.sweep r.now
  set { r with service := t.value.1 }
  emit t.events
  return t.value.2

def startSweep : Play Nat := do
  let r ← get
  let i := r.sweeps.length
  set { r with sweeps := r.sweeps ++ [true] }
  setTimer (r.now + max r.service.limits.evictionInterval 1) (.sweep i)
  settle
  return i

def stopSweep (i : Nat) : Play Unit := do
  modify fun r => { r with sweeps := r.sweeps.set i false }
  emit [Ledger.sweepStopped]
  settle

def close : Play Unit := do
  let m ← moment
  let r ← get
  for i in List.range r.service.runs.length do
    let r ← get
    if let some s := r.service.dropRun? m i then putService s

end Rehearsal

end IndexRefresh
