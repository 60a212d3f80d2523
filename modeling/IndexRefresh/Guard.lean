import IndexRefresh.Duration
import IndexRefresh.Event
import IndexRefresh.Json.Form
import IndexRefresh.Table

namespace IndexRefresh

inductive Denial where
  | inProgress
  | cooldown (retryAfter : Duration)
  deriving DecidableEq, Repr

inductive DenialReason where
  | inProgress
  | cooldown
  deriving DecidableEq, Repr

namespace DenialReason

def all : List DenialReason :=
  [.inProgress, .cooldown]

def name : DenialReason → String
  | .inProgress => "in_progress"
  | .cooldown => "cooldown"

end DenialReason

instance : JsonForm DenialReason where
  toJson r := Json.ofString r.name
  ofJson? := Json.choice? (DenialReason.all.map fun r => (r.name, r))

namespace Denial

def reason : Denial → DenialReason
  | .inProgress => .inProgress
  | .cooldown _ => .cooldown

def retryAfter? : Denial → Option Duration
  | .inProgress => none
  | .cooldown d => some d

end Denial

structure Watched where
  inProgress : Bool
  completedAt : Option Duration
  cooldown : Duration
  deriving DecidableEq, Repr

def Watched.denial? (w : Watched) (now : Duration) : Option Denial :=
  if w.inProgress then some .inProgress
  else
    match w.completedAt with
    | none => none
    | some completed =>
        let elapsed := now - completed
        if elapsed < w.cooldown then some (.cooldown (w.cooldown - elapsed)) else none

structure Permit where
  repository : String
  deriving DecidableEq, Repr

structure Guard where
  watched : Table Watched
  defaultCooldown : Duration

namespace Guard

def new (cooldown : Duration) : Guard :=
  ⟨.empty, cooldown⟩

def lookup (g : Guard) (repository : String) : Watched :=
  (g.watched.get? repository).getD ⟨false, none, g.defaultCooldown⟩

def put (g : Guard) (repository : String) (w : Watched) : Guard :=
  { g with watched := g.watched.insert repository w }

def denial? (g : Guard) (now : Duration) (repository : String) : Option Denial :=
  (g.lookup repository).denial? now

def isInProgress (g : Guard) (repository : String) : Bool :=
  (g.lookup repository).inProgress

def tracked (g : Guard) : Nat :=
  g.watched.size

def setCooldown (g : Guard) (repository : String) (cooldown : Duration) : Guard :=
  g.put repository { g.lookup repository with cooldown := cooldown }

def event (message repository : String) : Event :=
  ⟨.debug, .guard, message, [("repository", .text repository)]⟩

def markInProgress (g : Guard) (repository : String) : Traced Guard :=
  ⟨g.put repository { g.lookup repository with inProgress := true },
   [event "Marked update in progress" repository]⟩

def markComplete (g : Guard) (now : Duration) (repository : String) : Traced Guard :=
  ⟨g.put repository { g.lookup repository with inProgress := false, completedAt := some now },
   [event "Marked update complete" repository]⟩

def acquire (g : Guard) (now : Duration) (repository : String) : Except Denial (Traced Guard) :=
  match g.denial? now repository with
  | some d => .error d
  | none =>
      .ok ⟨g.put repository { g.lookup repository with inProgress := true },
        [event "Acquired update permit" repository]⟩

def release (g : Guard) (now : Duration) (p : Permit) : Traced Guard :=
  g.markComplete now p.repository

def text (g : Guard) : String :=
  "ConcurrencyGuard \x7b default_cooldown: " ++ Duration.text g.defaultCooldown ++
    ", tracked_repositories: " ++ toString g.tracked ++ " \x7d"

@[simp] theorem lookup_put_self (g : Guard) (repository : String) (w : Watched) :
    (g.put repository w).lookup repository = w := by
  simp [lookup, put]

theorem lookup_put_of_ne (g : Guard) {repository other : String} (w : Watched)
    (h : ¬other = repository) : (g.put repository w).lookup other = g.lookup other := by
  simp [lookup, put, Table.get?_insert_of_ne _ _ h]

theorem lookup_put (g : Guard) (repository : String) (w : Watched) (other : String) :
    (g.put repository w).lookup other = if other = repository then w else g.lookup other := by
  split
  · next h => rw [h, lookup_put_self]
  · next h => exact lookup_put_of_ne g w h

theorem denial?_of_inProgress {g : Guard} {repository : String}
    (h : g.isInProgress repository = true) (now : Duration) :
    g.denial? now repository = some .inProgress := by
  simp_all [denial?, Watched.denial?, isInProgress]

theorem denial?_of_free {g : Guard} {repository : String}
    (h : g.isInProgress repository = false) (now : Duration) :
    g.denial? now repository = (g.lookup repository).completedAt.bind fun time =>
      if now - time < (g.lookup repository).cooldown then
        some (.cooldown ((g.lookup repository).cooldown - (now - time)))
      else none := by
  unfold isInProgress at h
  unfold denial? Watched.denial?
  rw [h]
  cases (g.lookup repository).completedAt <;> rfl

end Guard

end IndexRefresh
