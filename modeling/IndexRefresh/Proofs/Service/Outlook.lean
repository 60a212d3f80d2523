import IndexRefresh.Proofs.Service.Parties
import IndexRefresh.Proofs.Service.Requests

namespace IndexRefresh

/-- What a request is to one repository, whose jobs go without names and whose runs are numbered
among themselves. -/
inductive Concern where
  | triggerSync (m : Moment)
  | triggerAsync (m : Moment)
  | setCooldown (cooldown : Duration)
  | launch (m : Moment)
  | run (k : Nat) (c : Chore)

/-- What becomes of a trigger, when the jobs of its repository are counted and not named. -/
inductive Decision where
  | accepted
  | joined (job : Nat)
  | busy (job : Nat)
  | refused (r : Refusal)
  | crashed (detail : String)
  deriving DecidableEq

structure Attended where
  run : Run
  forJob : Option Bool

/-- All that the triggers of one repository depend on. -/
structure Outlook where
  watched : Watched
  jobs : Nat
  busy : Bool
  runs : List Attended

namespace Chore

def turn? (threshold : UInt64) : Chore → Run → Option Run
  | .begin, r => r.begin?
  | .answer m listener elapsedMs stage reply, r =>
      (r.answer? threshold listener m.stamp elapsedMs (stage.replyTo reply)).map (·.value)
  | .interrupt _, r => r.interrupt?.map (·.value)
  | .crash _ detail, r => r.crash? detail
  | .drop _, r => some { r with state := .ended (.crashed "the program ended") }
  | .expire _, r => some r.cancel
  | .settle _, _ => none
  | .abandon, _ => none

def instant : Chore → Duration
  | .answer m _ _ _ _ => m.instant
  | .interrupt m => m.instant
  | .crash m _ => m.instant
  | .drop m => m.instant
  | .expire m => m.instant
  | _ => 0

end Chore

namespace Outlook

def new (cooldown : Duration) : Outlook :=
  ⟨⟨false, none, cooldown⟩, 0, false, []⟩

def denial? (v : Outlook) (repository : String) (m : Moment) : Option Decision :=
  (v.watched.denial? m.instant).map fun d =>
    match Service.refusal? repository d with
    | some r => .refused r
    | none => .crashed overflowText

def decision? (v : Outlook) (repository : String) : Concern → Option Decision
  | .triggerSync m =>
      some (if v.busy then .busy v.jobs else (v.denial? repository m).getD .accepted)
  | .triggerAsync m =>
      some (if v.busy then .joined v.jobs else (v.denial? repository m).getD .accepted)
  | _ => none

def occupy (v : Outlook) : Outlook :=
  { v with watched := { v.watched with inProgress := true } }

def spawn (v : Outlook) (repository : String) (forJob : Bool) : Outlook :=
  { v with runs := v.runs ++ [⟨.new repository (some ⟨repository⟩), some forJob⟩] }

def putRun (v : Outlook) (now : Duration) (k : Nat) (r : Run) (forJob : Option Bool) : Outlook :=
  if r.isLive then { v with runs := v.runs.set k ⟨r, forJob⟩ }
  else
    { v with
      watched := { v.watched with inProgress := false, completedAt := some now }
      runs := v.runs.set k ⟨{ r with permit := none }, forJob⟩ }

def chore (v : Outlook) (threshold : UInt64) (k : Nat) (c : Chore) : Outlook :=
  match v.runs[k]? with
  | none => v
  | some a =>
      match c with
      | .settle _ =>
          { v with
            busy := v.busy && decide (a.forJob ≠ some true)
            runs := v.runs.set k ⟨a.run, none⟩ }
      | .abandon => { v with runs := v.runs.set k ⟨a.run, a.forJob.filter id⟩ }
      | c =>
          match c.turn? threshold a.run with
          | none => v
          | some r => v.putRun c.instant k r a.forJob

def next (v : Outlook) (threshold : UInt64) (repository : String) : Concern → Outlook
  | .triggerSync m =>
      if v.busy || (v.denial? repository m).isSome then v else v.occupy.spawn repository false
  | .triggerAsync m =>
      if v.busy || (v.denial? repository m).isSome then v
      else { v.occupy with jobs := v.jobs + 1, busy := true }
  | .setCooldown cooldown => { v with watched := { v.watched with cooldown := cooldown } }
  | .launch _ => v.spawn repository true
  | .run k c => v.chore threshold k c

def after (limits : Limits) (threshold : UInt64) (repository : String) : List Concern → Outlook
  | [] => .new limits.cooldown
  | c :: cs => (after limits threshold repository cs).next threshold repository c

def decisions (limits : Limits) (threshold : UInt64) (repository : String) :
    List Concern → List Decision
  | [] => []
  | c :: cs =>
      ((after limits threshold repository cs).decision? repository c).toList ++
        decisions limits threshold repository cs

end Outlook

namespace Service

def rank (s : Service) (repository : String) (i : Nat) : Nat :=
  (s.runs.take i).countP (·.repository = repository)

def concern? (s : Service) (repository : String) : Request → Option Concern
  | .triggerSync m other => if other = repository then some (.triggerSync m) else none
  | .triggerAsync m _ other => if other = repository then some (.triggerAsync m) else none
  | .setCooldown other cooldown =>
      if other = repository then some (.setCooldown cooldown) else none
  | .launch m job =>
      if (s.launches.find? (·.job = job)).any (·.repository = repository) then some (.launch m)
      else none
  | .run i c =>
      if s.runs[i]?.any (·.repository = repository) then some (.run (s.rank repository i) c)
      else none
  | .sweep _ => none

end Service

namespace Entry

def concern? (e : Entry) (repository : String) : Option Concern :=
  e.source.concern? repository e.request

def entered? (e : Entry) (repository : String) : Option String :=
  match e.request, e.response with
  | .triggerAsync _ _ other, .background (.admitted a) =>
      if other = repository ∧ e.source.ledger.outstanding? repository = none then some a.jobId
      else none
  | _, _ => none

def isTrigger (e : Entry) (repository : String) : Bool :=
  match e.request with
  | .triggerSync _ other => other = repository
  | .triggerAsync _ _ other => other = repository
  | _ => false

end Entry

def concerns (repository : String) (es : List Entry) : List Concern :=
  es.filterMap (·.concern? repository)

def jobsOf (repository : String) (es : List Entry) : List String :=
  es.filterMap (·.entered? repository)

def triggers (repository : String) : List Entry → List (List String × Response)
  | [] => []
  | e :: es =>
      if e.isTrigger repository then (jobsOf repository es, e.response) :: triggers repository es
      else triggers repository es

/-- What a response to a trigger tells a client who knows the jobs of the repository. -/
inductive Tells (repository : String) : List String × Response → Decision → Prop where
  | admitted {ids : List String} {i : Nat} :
      Tells repository (ids, .admission (.admitted i)) .accepted
  | entered {ids : List String} {id : String} :
      Tells repository (ids, .background (.admitted (.started id repository))) .accepted
  | joined {ids : List String} {id : String} :
      Tells repository (id :: ids, .background (.admitted (.outstanding id repository)))
        (.joined (ids.length + 1))
  | busy {ids : List String} {id : String} :
      Tells repository (id :: ids, .admission (.refused (.inProgress repository (some id))))
        (.busy (ids.length + 1))
  | refusedSync {ids : List String} {d : Denial} {r : Refusal}
      (h : Service.refusal? repository d = some r) :
      Tells repository (ids, .admission (.refused r)) (.refused r)
  | refusedAsync {ids : List String} {d : Denial} {r : Refusal}
      (h : Service.refusal? repository d = some r) :
      Tells repository (ids, .background (.refused r)) (.refused r)
  | crashedSync {ids : List String} {detail : String} :
      Tells repository (ids, .admission (.crashed detail)) (.crashed detail)
  | crashedAsync {ids : List String} {detail : String} :
      Tells repository (ids, .background (.crashed detail)) (.crashed detail)

namespace Service

variable {repository : String} {s t : Service} {as : List Attended} {i j : Nat} {r q : Run}

theorem rank_eq_count (s : Service) (repository : String) (i : Nat) :
    s.rank repository i = ((s.runs.map Run.repository).take i).countP (· = repository) := by
  rw [rank, ← List.map_take, List.countP_map]
  rfl

theorem map_repository_set {runs : List Run} (hr : runs[i]? = some r)
    (hq : q.repository = r.repository) :
    (runs.set i q).map Run.repository = runs.map Run.repository := by
  obtain ⟨hi, rfl⟩ := List.getElem?_eq_some_iff.1 hr
  have hi' : i < (runs.map Run.repository).length := by simpa using hi
  rw [List.map_set, hq, ← List.getElem_map Run.repository (h := hi'), List.set_getElem_self]

theorem rank_lt (hr : s.runs[i]? = some r) (hrepository : r.repository = repository)
    (hij : i < j) : s.rank repository i < s.rank repository j := by
  have hnext : s.rank repository (i + 1) = s.rank repository i + 1 := by
    unfold rank
    rw [List.take_add_one, hr]
    simp [hrepository]
  have hle : s.rank repository (i + 1) ≤ s.rank repository j :=
    ((List.take_prefix_take_left hij).sublist).countP_le
  omega

theorem rank_ne (hr : s.runs[i]? = some r) (hi : r.repository = repository)
    (hq : s.runs[j]? = some q) (hj : q.repository = repository) (hne : i ≠ j) :
    s.rank repository i ≠ s.rank repository j := by
  rcases Nat.lt_or_gt_of_ne hne with hlt | hlt
  · exact Nat.ne_of_lt (rank_lt hr hi hlt)
  · exact (Nat.ne_of_lt (rank_lt hq hj hlt)).symm

structure Roll (repository : String) (s : Service) (as : List Attended) : Prop where
  counted : as.length = s.runs.countP (·.repository = repository)
  listed : ∀ i r, s.runs[i]? = some r → r.repository = repository →
    as[s.rank repository i]? = some ⟨r, s.party? i⟩

theorem Roll.congr (h : Roll repository s as) (hruns : t.runs = s.runs)
    (hparty : ∀ i < s.runs.length, t.party? i = s.party? i) : Roll repository t as where
  counted := by rw [hruns, h.counted]
  listed i r hr hrepository := by
    rw [hruns] at hr
    rw [hparty i (List.getElem?_eq_some_iff.1 hr).1, rank, hruns]
    exact h.listed i r hr hrepository

theorem Roll.append (h : Roll repository s as) (hruns : t.runs = s.runs ++ [r])
    (hparty : ∀ i < s.runs.length, t.party? i = s.party? i) :
    Roll repository t
      (if r.repository = repository then as ++ [⟨r, t.party? s.runs.length⟩] else as) where
  counted := by
    rw [hruns, List.countP_append, List.countP_singleton, ← h.counted]
    by_cases hr : r.repository = repository <;> simp [hr]
  listed i q hq hrepository := by
    rw [hruns] at hq
    by_cases hi : i < s.runs.length
    · rw [List.getElem?_append_left hi] at hq
      have hold := h.listed i q hq hrepository
      have hrank : t.rank repository i = s.rank repository i := by
        rw [rank, hruns, List.take_append_of_le_length (Nat.le_of_lt hi), rank]
      rw [hrank, hparty i hi]
      split
      · rw [List.getElem?_append_left (List.getElem?_eq_some_iff.1 hold).1]
        exact hold
      · exact hold
    · obtain rfl : i = s.runs.length := by
        have := (List.getElem?_eq_some_iff.1 hq).1
        simp only [List.length_append, List.length_singleton] at this
        omega
      obtain rfl : r = q := by simpa using hq
      have hrank : t.rank repository s.runs.length = as.length := by
        rw [rank, hruns, List.take_append_of_le_length (Nat.le_refl _), List.take_length, h.counted]
      rw [if_pos hrepository, hrank, List.getElem?_concat_length]

theorem Roll.set (h : Roll repository s as) (hr : s.runs[i]? = some r)
    (hq : q.repository = r.repository) (hruns : t.runs = s.runs.set i q)
    (hparty : ∀ j, j ≠ i → t.party? j = s.party? j) :
    Roll repository t
      (if r.repository = repository then as.set (s.rank repository i) ⟨q, t.party? i⟩
       else as) where
  counted := by
    have hset := Counting.countP_set_add (p := fun r => decide (r.repository = repository)) hr q
    have hcounted := h.counted
    simp only [hq] at hset
    rw [hruns]
    split
    · rw [List.length_set]
      omega
    · omega
  listed j q' hq' hrepository := by
    have hrank (k : Nat) : t.rank repository k = s.rank repository k := by
      rw [rank_eq_count, hruns, map_repository_set hr hq, rank_eq_count]
    rw [hruns] at hq'
    rw [hrank]
    by_cases hji : j = i
    · subst hji
      rw [List.getElem?_set_self (List.getElem?_eq_some_iff.1 hr).1] at hq'
      cases hq'
      have hown := hq.symm.trans hrepository
      rw [if_pos hown, List.getElem?_set_self]
      exact (List.getElem?_eq_some_iff.1 (h.listed j r hr hown)).1
    · rw [List.getElem?_set_ne (Ne.symm hji)] at hq'
      have hold := h.listed j q' hq' hrepository
      rw [hparty j hji]
      split
      · next hown =>
          rw [List.getElem?_set_ne (rank_ne hr hown hq' hrepository (Ne.symm hji))]
          exact hold
      · exact hold

structure Latest (repository : String) (ids : List String) (l : Ledger) (busy : Bool) : Prop where
  outstanding : ∀ id, l.IsOutstanding repository id ↔ busy = true ∧ ids.head? = some id
  entered : busy = true → ids ≠ []

/-- How a service with the given jobs of a repository looks to that repository. -/
structure Shows (repository : String) (ids : List String) (s : Service) (v : Outlook) : Prop where
  watched : s.guard.lookup repository = v.watched
  counted : ids.length = v.jobs
  latest : Latest repository ids s.ledger v.busy
  roll : Roll repository s v.runs

variable {limits : Limits} {threshold : UInt64} {history : List Deed} {ids : List String}
  {v : Outlook} {m : Moment} {other : String} {c : Chore} {a : Response} {l : Ledger} {busy : Bool}

theorem shows_new (limits : Limits) (threshold : UInt64) (repository : String) :
    Shows repository [] (.new limits threshold) (.new limits.cooldown) where
  watched := rfl
  counted := rfl
  latest := ⟨fun id => by simp [Ledger.IsOutstanding, new, Ledger.new, Ledger.get?, Outlook.new],
    fun h => by cases h⟩
  roll := ⟨rfl, fun i r hr => by simp [new] at hr⟩

theorem Latest.outstanding?_eq_none (h : Latest repository ids l false) :
    l.outstanding? repository = none := by
  rw [Ledger.outstanding?_eq_none_iff]
  intro id j hj
  cases hout : j.isOutstanding repository with
  | false => rfl
  | true =>
      simp only [Job.isOutstanding, Bool.and_eq_true, beq_iff_eq, Bool.not_eq_true'] at hout
      cases ((h.outstanding id).1 ⟨j, hj, hout.1, hout.2⟩).1

theorem Latest.exists_outstanding? (h : Latest repository ids l true) (hs : l.Sound) :
    ∃ j earlier, l.outstanding? repository = some j ∧ ids = j.id :: earlier := by
  cases ids with
  | nil => exact absurd rfl (h.entered rfl)
  | cons id earlier =>
      obtain ⟨j, hj, hrepository, hopen⟩ := (h.outstanding id).2 ⟨rfl, rfl⟩
      refine ⟨j, earlier, ?_, by rw [hs.named id j hj]⟩
      rw [← hrepository]
      exact hs.outstanding?_eq_some hj hopen

theorem Latest.congr {l' : Ledger} (h : Latest repository ids l busy)
    (hsame : ∀ id, l'.IsOutstanding repository id ↔ l.IsOutstanding repository id) :
    Latest repository ids l' busy where
  outstanding id := (hsame id).trans (h.outstanding id)
  entered := h.entered

theorem Shows.congr (h : Shows repository ids s v) (hguard : t.guard = s.guard)
    (hsame : ∀ id, t.ledger.IsOutstanding repository id ↔ s.ledger.IsOutstanding repository id)
    (hruns : t.runs = s.runs) (hwatches : t.watches = s.watches) : Shows repository ids t v where
  watched := by rw [hguard, h.watched]
  counted := h.counted
  latest := h.latest.congr hsame
  roll := h.roll.congr hruns fun i _ => party?_congr hwatches i

theorem Shows.denial?_eq (h : Shows repository ids s v) (m : Moment) :
    s.guard.denial? m.instant repository = v.watched.denial? m.instant := by
  rw [Guard.denial?, h.watched]

theorem Shows.put (h : Shows repository ids s v) (other : String)
    (f : IndexRefresh.Watched → IndexRefresh.Watched) :
    Shows repository ids { s with guard := s.guard.put other (f (s.guard.lookup other)) }
      (if other = repository then { v with watched := f v.watched } else v) := by
  have hlookup := Guard.lookup_put s.guard other (f (s.guard.lookup other)) repository
  split
  · next heq =>
      subst heq
      refine ⟨hlookup.trans ?_, h.counted, h.latest, h.roll.congr rfl fun _ _ => rfl⟩
      rw [if_pos rfl, h.watched]
  · next hne =>
      refine ⟨hlookup.trans ?_, h.counted, h.latest, h.roll.congr rfl fun _ _ => rfl⟩
      rw [if_neg (Ne.symm hne), h.watched]

theorem Shows.occupy (h : Shows repository ids s v) (other : String) :
    Shows repository ids { s with guard := (s.guard.markInProgress other).value }
      (if other = repository then v.occupy else v) :=
  h.put other fun w => { w with inProgress := true }

theorem Shows.spawn (h : Shows repository ids s v) (hw : s.Watchful) (m : Moment) (other : String)
    (client : Client) :
    Shows repository ids (s.spawn m other ⟨other⟩ client)
      (if other = repository then v.spawn repository client.isJob else v) := by
  have hroll := h.roll.append (t := s.spawn m other ⟨other⟩ client) rfl
    fun i hi => party?_spawn_of_lt hi m other ⟨other⟩ client
  rw [party?_spawn_self hw] at hroll
  split
  · next heq =>
      subst heq
      refine ⟨h.watched, h.counted, h.latest, ?_⟩
      simpa [Run.new, Outlook.spawn] using hroll
  · next hne =>
      refine ⟨h.watched, h.counted, h.latest, ?_⟩
      simpa [Run.new, hne] using hroll

end Service

end IndexRefresh
