import IndexRefresh.Proofs.Service.Outcomes
import IndexRefresh.Proofs.Update.Cancellation

namespace IndexRefresh

def Deed.changed? : Deed → Option Nat
  | .work run _ => some run
  | .expire run => some run
  | _ => none

namespace Service

inductive Ran (s t : Service) (i : Nat) : Deed → Run → Prop where
  | new {d : Deed} {repository : String} {permit : Option Permit} (hi : s.runs[i]? = none)
      (hd : d.changed? ≠ some i) : Ran s t i d (.new repository permit)
  | kept {d : Deed} {r : Run} (hr : s.runs[i]? = some r) (hd : d.changed? ≠ some i) : Ran s t i d r
  | expired {r : Run} (hr : s.runs[i]? = some r) (hlive : r.isLive = true) :
      Ran s t i (.expire i) r.cancel
  | turned {r q : Run} {w : Work} {permit : Option Permit} (hr : s.runs[i]? = some r)
      (hlive : r.isLive = true) (h : s.Turn i r t w q) :
      Ran s t i (.work i w) { q with permit := permit }

/-- What the work on a run found in the transitions of a log, as polls of a run whose token nobody
fires. -/
inductive Replay (i : Nat) : List Transition → List (Poll Unit) → Prop where
  | new : Replay i [] []
  | idle {log : List Transition} {ps : List (Poll Unit)} {x : Transition} (h : Replay i log ps)
      (hx : x.deed.changed? ≠ some i) : Replay i (log ++ [x]) ps
  | begin {log : List Transition} {ps : List (Poll Unit)} {s t : Service} (h : Replay i log ps) :
      Replay i (log ++ [⟨s, .work i .begin, t⟩])
        (ps ++ [⟨false, .pending, .silent, .ofEpoch 0 0, 0, id⟩])
  | answer {log : List Transition} {ps : List (Poll Unit)} {s t : Service} {st : Stage}
      {m : Moment} {listener : Listener} {elapsedMs : UInt64} {reply : (st : Stage) → st.Reply}
      {x : Traced Service} (h : Replay i log ps)
      (hx : s.answerRun? m listener elapsedMs i reply = some x) (ht : x.value = t) :
      Replay i (log ++ [⟨s, .work i (.answer st), t⟩])
        (ps ++ [⟨false, .answered reply false, listener, m.stamp, elapsedMs, id⟩])
  | crash {log : List Transition} {ps : List (Poll Unit)} {s t : Service} {st : Stage}
      {m : Moment} {detail : String} {x : Traced Service} (h : Replay i log ps)
      (hx : s.crashRun? m i detail = some x) (ht : x.value = t) :
      Replay i (log ++ [⟨s, .work i (.crash st), t⟩])
        (ps ++ [⟨false, .crashed detail, .silent, m.stamp, 0, id⟩])

variable {limits : Limits} {threshold : UInt64} {log : List Transition} {s t : Service} {d : Deed}
  {i : Nat} {w : Work} {r q : Run}

theorem Recorded.threshold_eq (h : Recorded limits threshold log s) : s.threshold = threshold := by
  induction h with
  | new => rfl
  | step _ hs ih => exact hs.effect.threshold_eq.trans ih

theorem Step.exists_turned (hs : Step s (.work i w) t) :
    ∃ r q permit, s.runs[i]? = some r ∧ r.isLive = true ∧ s.Turn i r t w q ∧
      t.runs[i]? = some { q with permit := permit } := by
  obtain ⟨m, r, q, hr, hlive, hturn, rfl⟩ := hs.turn
  obtain ⟨permit, hq⟩ := getElem?_putRun_self (List.getElem?_eq_some_iff.1 hr).1 m q
  exact ⟨r, q, permit, hr, hlive, hturn, hq⟩

theorem Step.ran (hs : Step s d t) (hq : t.runs[i]? = some q) : Ran s t i d q := by
  have appended {repository : String} {permit : Option Permit} (hd : d.changed? = none)
      (hq : (s.runs ++ [.new repository permit])[i]? = some q) : Ran s t i d q := by
    rw [List.getElem?_append] at hq
    split at hq
    · exact .kept hq (by simp [hd])
    · next hge =>
        rw [List.mem_singleton.1 (List.mem_of_getElem? hq)]
        exact .new (List.getElem?_eq_none (Nat.not_lt.1 hge)) (by simp [hd])
  cases hs.effect with
  | accept => exact appended rfl hq
  | launch => exact appended rfl hq
  | @work m j w p p' =>
      by_cases hij : j = i
      · subst hij
        obtain ⟨r, q', permit, hr, hlive, hturn, ht⟩ := hs.exists_turned
        cases ht.symm.trans hq
        exact .turned hr hlive hturn
      · rw [getElem?_putRun_of_ne hij] at hq
        exact .kept hq (by simp [Deed.changed?, hij])
  | @expire w r hw hr hlive =>
      by_cases hij : w.run = i
      · subst hij
        rw [List.getElem?_set_self (List.getElem?_eq_some_iff.1 hr).1] at hq
        cases hq
        exact .expired hr hlive
      · rw [List.getElem?_set_ne hij] at hq
        exact .kept hq (by simp [Deed.changed?, hij])
  | settle =>
      rw [runs_conclude] at hq
      exact .kept hq (by simp [Deed.changed?])
  | _ => exact .kept hq (by simp [Deed.changed?])

theorem Effect.exists_changed (he : Effect s d t) (hd : d.changed? = some i) :
    ∃ r, s.runs[i]? = some r := by
  cases he with
  | work hr =>
      cases hd
      exact ⟨_, hr⟩
  | expire _ hr =>
      cases hd
      exact ⟨_, hr⟩
  | _ => cases hd

theorem Turn.same (h : s.Turn i r t w q) :
    q.repository = r.repository ∧ q.cancelled = r.cancelled := by
  obtain ⟨p, rfl⟩ := h.exists_goTo
  simp

theorem Turn.ne_cancelled (h : s.Turn i r t w q) (hoff : r.cancelled = false) :
    q.state ≠ .ended (.failed .cancelled) := by
  cases h with
  | begin => exact RunState.noConfusion
  | @answer m listener elapsedMs reply x st =>
      cases hp : ((r.task s.threshold listener).resume ⟨r.cancelled, m.stamp, elapsedMs⟩ st
          (reply st)).value with
      | waits next => exact RunState.noConfusion
      | ended e =>
          intro hend
          cases hend
          cases UpdateTask.ends_of_resume hp with
          | failed hf => exact hf rfl
          | cancelled hon => cases hoff.symm.trans hon
  | interrupt _ hon => cases hoff.symm.trans hon
  | crash =>
      intro hend
      cases hend
  | drop =>
      intro hend
      cases hend

theorem Recorded.uncancelled (h : Recorded limits threshold log s) (hr : s.runs[i]? = some r)
    (hexpire : .expire i ∉ deeds log) :
    r.cancelled = false ∧ r.state ≠ .ended (.failed .cancelled) := by
  induction h generalizing r with
  | new => simp [Service.new] at hr
  | @step log s t d h hs ih =>
      rw [deeds_append_singleton, List.mem_append, List.mem_singleton, not_or] at hexpire
      cases hs.ran hr with
      | new => exact ⟨rfl, RunState.noConfusion⟩
      | kept hbefore => exact ih hbefore hexpire.1
      | expired => exact absurd rfl hexpire.2
      | turned hbefore _ hturn =>
          obtain ⟨hoff, -⟩ := ih hbefore hexpire.1
          exact ⟨hturn.same.2.trans hoff, hturn.ne_cancelled hoff⟩

def Mirrors (c : Course Unit) (r : Run) : Prop :=
  c.run = { r with permit := none }

theorem goTo_without_permit (r : Run) (p : Progress) :
    ({ r with permit := none } : Run).goTo p = { r.goTo p with permit := none } := by
  cases p <;> rfl

theorem Mirrors.waits {c : Course Unit} {st : Stage} (h : Mirrors c r) (hst : r.state = .waits st) :
    c.run.state = .waits st := by
  rw [h]
  exact hst

theorem Mirrors.poll_eq {c : Course Unit} {st : Stage} {finding : Finding} {listener : Listener}
    {stamp : Timestamp} {elapsedMs : UInt64} (h : Mirrors c r) (hst : r.state = .waits st)
    (hoff : r.cancelled = false) :
    c.poll threshold ⟨false, finding, listener, stamp, elapsedMs, id⟩ =
      c.found threshold st ⟨false, finding, listener, stamp, elapsedMs, id⟩ := by
  have hoff : c.run.cancelled = false := by
    rw [h]
    exact hoff
  rw [Course.poll_of_waits (h.waits hst) (by simp [hoff])]
  rfl

theorem Mirrors.begin {c : Course Unit} (h : Mirrors c r) (hs : r.state = .admitted) :
    Mirrors (c.poll threshold ⟨false, .pending, .silent, .ofEpoch 0 0, 0, id⟩)
      (r.goTo (.waits .loading)) := by
  have hadmitted : c.run.state = .admitted := by
    rw [h]
    exact hs
  rw [Course.poll_of_admitted hadmitted]
  change c.run.goTo (.waits .loading) = _
  rw [h]
  rfl

theorem Mirrors.answer {c : Course Unit} {st : Stage} {stamp : Timestamp} {listener : Listener}
    {elapsedMs : UInt64} {reply : (st : Stage) → st.Reply} (h : Mirrors c r)
    (hst : r.state = .waits st) (hoff : r.cancelled = false) :
    Mirrors (c.poll threshold ⟨false, .answered reply false, listener, stamp, elapsedMs, id⟩)
      (r.goTo ((r.task threshold listener).resume ⟨r.cancelled, stamp, elapsedMs⟩ st
        (reply st)).value) := by
  rw [h.poll_eq hst hoff, Course.found_of_answered (h.waits hst) rfl]
  change c.run.goTo ((c.run.task threshold listener).resume ⟨c.run.cancelled, stamp, elapsedMs⟩ st
    (reply st)).value = _
  rw [h]
  exact goTo_without_permit r _

theorem Mirrors.crash {c : Course Unit} {st : Stage} {stamp : Timestamp} {detail : String}
    (h : Mirrors c r) (hst : r.state = .waits st) (hoff : r.cancelled = false) :
    Mirrors (c.poll threshold ⟨false, .crashed detail, .silent, stamp, 0, id⟩)
      (r.goTo (.ended (.crashed detail))) := by
  rw [h.poll_eq hst hoff, Course.found_of_crashed (h.waits hst) rfl]
  change c.run.goTo (.ended (.crashed detail)) = _
  rw [h]
  rfl

theorem replay_nil_of_unknown (h : Recorded limits threshold log s) (hi : s.runs[i]? = none) :
    Replay i log [] := by
  induction h with
  | new => exact .new
  | @step log s t d h hs ih =>
      have hle := hs.effect.length_le
      have hi : s.runs[i]? = none := by
        rw [List.getElem?_eq_none_iff] at hi ⊢
        omega
      apply (ih hi).idle
      intro hd
      obtain ⟨r, hr⟩ := hs.effect.exists_changed hd
      cases hi.symm.trans hr

/-- As long as the time of a run is not up, it does what it would do if nobody could cancel it. -/
theorem Recorded.replay (h : Recorded limits threshold log s) (hr : s.runs[i]? = some r)
    (hexpire : .expire i ∉ deeds log) (hdrop : .work i .drop ∉ deeds log) :
    ∃ ps, Replay i log ps ∧
      Mirrors ((⟨r.repository, threshold, none, ()⟩ : Errand Unit).after ps) r := by
  induction h generalizing r with
  | new => simp [Service.new] at hr
  | @step log s t d h hs ih =>
      rw [deeds_append_singleton, List.mem_append, List.mem_singleton, not_or] at hexpire hdrop
      cases hs.ran hr with
      | new hi hd => exact ⟨[], (replay_nil_of_unknown h hi).idle hd, rfl⟩
      | kept hr hd =>
          obtain ⟨ps, hreplay, hmirrors⟩ := ih hr hexpire.1 hdrop.1
          exact ⟨ps, hreplay.idle hd, hmirrors⟩
      | expired => exact absurd rfl hexpire.2
      | @turned r q w permit hbefore hlive hturn =>
          obtain ⟨ps, hreplay, hmirrors⟩ := ih hbefore hexpire.1 hdrop.1
          obtain ⟨hoff, -⟩ := h.uncancelled hbefore hexpire.1
          obtain rfl := h.threshold_eq
          have polled {p : Poll Unit} (hreplay : Replay i (log ++ [⟨s, .work i w, t⟩]) (ps ++ [p]))
              (hq : Mirrors (((⟨r.repository, s.threshold, none, ()⟩ : Errand Unit).after ps).poll
                s.threshold p) q) :
              ∃ ps, Replay i (log ++ [⟨s, .work i w, t⟩]) ps ∧
                Mirrors ((⟨q.repository, s.threshold, none, ()⟩ : Errand Unit).after ps) q := by
            refine ⟨_, hreplay, ?_⟩
            rw [Errand.after_append, hturn.same.1]
            exact hq
          cases hturn with
          | begin hstate => exact polled hreplay.begin (hmirrors.begin hstate)
          | answer hst hx ht => exact polled (hreplay.answer hx ht) (hmirrors.answer hst hoff)
          | interrupt _ hon => cases hoff.symm.trans hon
          | crash hst hx ht => exact polled (hreplay.crash hx ht) (hmirrors.crash hst hoff)
          | drop => exact absurd rfl hdrop.2

end Service

end IndexRefresh
