import IndexRefresh.Proofs.Update.Exits

namespace IndexRefresh

/-- What a run finds when it looks at the call that it waits for. A token that fires during the look
itself comes too late for this call and is seen right after it. -/
inductive Finding where
  | pending
  | answered (reply : (s : Stage) → s.Reply) (fires : Bool)
  | crashed (detail : String)

structure Poll (σ : Type) where
  fired : Bool
  finding : Finding
  listener : Listener
  stamp : Timestamp
  elapsedMs : UInt64
  stored : σ → σ

namespace Finding

def unfired : Finding → Finding
  | .answered reply _ => .answered reply false
  | f => f

end Finding

def Poll.unfired {σ : Type} (p : Poll σ) : Poll σ :=
  { p with fired := false, finding := p.finding.unfired }

def Call.isStore : Call → Bool
  | .load _ => true
  | .save _ => true
  | _ => false

namespace UpdateTask

variable {t : UpdateTask} {w : Surroundings} {next : Stage}

theorem enterRemote_ne_waits (hw : w.cancelled = true) (s : Stage) :
    (t.enterRemote w s).value ≠ .waits next := by
  simp [enterRemote, hw]

theorem enterLocal_ne_waits (hw : w.cancelled = true) (s : Stage) :
    (t.enterLocal w s).value ≠ .waits next := by
  simp [enterLocal, hw]

theorem rank_of_resume_cancelled (hw : w.cancelled = true) {s : Stage} {reply : s.Reply}
    (h : (t.resume w s reply).value = .waits next) : 4 ≤ s.rank := by
  cases s with
  | loading =>
      change (t.afterLoad w reply).value = _ at h
      unfold afterLoad at h
      split at h
      · cases h
      · cases h
      · split at h
        · cases h
        · split at h
          · cases h
          · exact absurd h (enterRemote_ne_waits hw _)
  | resolving o =>
      change (t.afterHead w o reply).value = _ at h
      unfold afterHead at h
      split at h
      · cases h
      · split at h
        · cases h
        · exact absurd h (enterRemote_ne_waits hw _)
  | comparing o head =>
      change (t.afterCompare w o head reply).value = _ at h
      unfold afterCompare at h
      split at h
      · split at h <;> cases h
      · dsimp only at h
        split at h
        · cases h
        · split at h
          · cases h
          · exact absurd h (enterLocal_ne_waits hw _)
  | pulling o head changes =>
      change (t.afterPull w o head changes reply).value = _ at h
      unfold afterPull at h
      split at h
      · cases h
      · exact absurd h (enterLocal_ne_waits hw _)
  | processing => exact Nat.le_refl 4
  | saving => exact Nat.le_succ 4

theorem resume_of_late {s : Stage} (hs : 4 ≤ s.rank) (reply : s.Reply) (cancelled : Bool) :
    t.resume { w with cancelled := cancelled } s reply = t.resume w s reply := by
  cases s with
  | processing => rfl
  | saving => rfl
  | _ => simp [Stage.rank] at hs

end UpdateTask

namespace Course

variable {σ : Type} {repository : String} {threshold : UInt64} {store : σ} {c : Course σ}
  {p : Poll σ} {s : Stage}

def fire (c : Course σ) (fired : Bool) : Course σ :=
  if fired then { c with run := c.run.cancel } else c

def stored (c : Course σ) (s : Stage) (f : σ → σ) : Course σ :=
  match s with
  | .saving _ _ _ _ => { c with store := f c.store }
  | _ => c

def found (threshold : UInt64) (c : Course σ) (s : Stage) (p : Poll σ) : Course σ :=
  let c := c.stored s p.stored
  match p.finding with
  | .pending => c
  | .crashed detail => { c with run := (c.run.crash? detail).getD c.run }
  | .answered reply fires =>
      match (c.fire fires).run.answer? threshold p.listener p.stamp p.elapsedMs reply with
      | some t => c.moved [⟨s, reply s⟩] t.value
      | none => c

/-- A run that may break off where it waits looks at its token first, and only then at its call. -/
def poll (threshold : UInt64) (c : Course σ) (p : Poll σ) : Course σ :=
  let c := c.fire p.fired
  match c.run.state with
  | .admitted => (c.run.begin?.map (c.moved [])).getD c
  | .waits s =>
      match c.run.interrupt? with
      | some t => { c with run := t.value }
      | none => c.found threshold s p
  | .ended _ => c

@[simp] theorem state_fire (c : Course σ) (fired : Bool) :
    (c.fire fired).run.state = c.run.state := by
  cases fired <;> rfl

@[simp] theorem repository_fire (c : Course σ) (fired : Bool) :
    (c.fire fired).run.repository = c.run.repository := by
  cases fired <;> rfl

@[simp] theorem cancelled_fire (c : Course σ) (fired : Bool) :
    (c.fire fired).run.cancelled = (fired || c.run.cancelled) := by
  cases fired <;> rfl

@[simp] theorem calls_fire (c : Course σ) (fired : Bool) : (c.fire fired).calls = c.calls := by
  cases fired <;> rfl

@[simp] theorem answers_fire (c : Course σ) (fired : Bool) :
    (c.fire fired).answers = c.answers := by
  cases fired <;> rfl

@[simp] theorem store_fire (c : Course σ) (fired : Bool) : (c.fire fired).store = c.store := by
  cases fired <;> rfl

@[simp] theorem run_stored (c : Course σ) (s : Stage) (f : σ → σ) : (c.stored s f).run = c.run := by
  cases s <;> rfl

@[simp] theorem calls_stored (c : Course σ) (s : Stage) (f : σ → σ) :
    (c.stored s f).calls = c.calls := by
  cases s <;> rfl

theorem poll_of_ended {e : Ending} (hs : c.run.state = .ended e) (p : Poll σ) :
    c.poll threshold p = c.fire p.fired := by
  simp [poll, hs]

theorem poll_of_admitted (hs : c.run.state = .admitted) (p : Poll σ) :
    c.poll threshold p =
      (c.fire p.fired).moved [] { (c.fire p.fired).run with state := .waits .loading } := by
  simp [poll, hs, Run.begin?]

theorem poll_of_interrupted (hs : c.run.state = .waits s) (hopen : s.isInterruptible = true)
    (hfired : (p.fired || c.run.cancelled) = true) :
    c.poll threshold p = { c.fire p.fired with
      run := { (c.fire p.fired).run with state := .ended (.failed .cancelled) } } := by
  simp [poll, hs, Run.interrupt?, hopen, hfired, UpdateTask.interrupted, Run.goTo]

theorem poll_of_waits (hs : c.run.state = .waits s)
    (hopen : ((p.fired || c.run.cancelled) && s.isInterruptible) = false) :
    c.poll threshold p = (c.fire p.fired).found threshold s p := by
  simp [poll, hs, Run.interrupt?, hopen]

theorem found_of_pending (hf : p.finding = .pending) :
    c.found threshold s p = c.stored s p.stored := by
  simp only [found, hf]

theorem found_of_crashed {detail : String} (hs : c.run.state = .waits s)
    (hf : p.finding = .crashed detail) :
    c.found threshold s p = { c.stored s p.stored with
      run := { c.run with state := .ended (.crashed detail) } } := by
  simp [found, hf, Run.crash?, hs]

theorem found_of_answered {reply : (s : Stage) → s.Reply} {fires : Bool}
    (hs : c.run.state = .waits s) (hf : p.finding = .answered reply fires) :
    c.found threshold s p = (c.stored s p.stored).moved [⟨s, reply s⟩]
      ((c.fire fires).run.goTo ((c.run.task threshold p.listener).resume
        ⟨fires || c.run.cancelled, p.stamp, p.elapsedMs⟩ s (reply s)).value) := by
  have hrun : ((c.stored s p.stored).fire fires).run = (c.fire fires).run := by
    cases fires <;> simp [fire]
  simp [found, hf, hrun, Run.answer?, hs, Run.task]

theorem Reached.fire (h : Reached repository threshold store c) (fired : Bool) :
    Reached repository threshold store (c.fire fired) := by
  cases fired with
  | false => exact h
  | true => exact h.step .cancel

theorem Reached.stored (h : Reached repository threshold store c) (hs : c.run.state = .waits s)
    (f : σ → σ) : Reached repository threshold store (c.stored s f) := by
  cases s with
  | saving => exact h.step (.write (by rw [Run.stage?, hs]))
  | _ => exact h

theorem Reached.found (h : Reached repository threshold store c) (hs : c.run.state = .waits s)
    (hopen : (c.run.cancelled && s.isInterruptible) = false) :
    Reached repository threshold store (c.found threshold s p) := by
  have hstored := h.stored hs p.stored
  have hstage : (c.stored s p.stored).run.stage? = some s := by
    simp [Run.stage?, hs]
  cases hf : p.finding with
  | pending =>
      rw [found_of_pending hf]
      exact hstored
  | crashed detail =>
      rw [found_of_crashed hs hf]
      have hcrash : (c.stored s p.stored).run.crash? detail =
          some { c.run with state := .ended (.crashed detail) } := by
        simp [Run.crash?, hs]
      exact hstored.step (.crash hcrash)
  | answered reply fires =>
      have hanswer : (if fires then (c.stored s p.stored).run.cancel
          else (c.stored s p.stored).run).answer? threshold p.listener p.stamp p.elapsedMs reply =
          some (((c.run.task threshold p.listener).resume
            ⟨fires || c.run.cancelled, p.stamp, p.elapsedMs⟩ s (reply s)).map
              (c.fire fires).run.goTo) := by
        cases fires <;> simp [Run.answer?, Run.cancel, Run.task, Course.fire, hs]
      have hstep := hstored.step (.answer hstage (by simpa using hopen) hanswer)
      rw [found_of_answered hs hf]
      exact hstep

theorem Reached.poll (h : Reached repository threshold store c) (p : Poll σ) :
    Reached repository threshold store (c.poll threshold p) := by
  have hfired := h.fire p.fired
  cases hs : c.run.state with
  | admitted =>
      rw [poll_of_admitted hs]
      exact hfired.step (.begin (by simp [Run.begin?, hs]))
  | waits s =>
      cases hopen : (p.fired || c.run.cancelled) && s.isInterruptible with
      | true =>
          rw [Bool.and_eq_true] at hopen
          obtain ⟨t, ht, hv⟩ : ∃ t, (c.fire p.fired).run.interrupt? = some t ∧ t.value =
              { (c.fire p.fired).run with state := .ended (.failed .cancelled) } := by
            simp [Run.interrupt?, hs, hopen.1, hopen.2, UpdateTask.interrupted, Run.goTo]
          rw [poll_of_interrupted hs hopen.2 hopen.1, ← hv]
          exact hfired.step (.interrupt ht)
      | false =>
          rw [poll_of_waits hs hopen]
          exact hfired.found (by simpa using hs) (by simpa using hopen)
  | ended e =>
      rw [poll_of_ended hs]
      exact hfired

theorem cancelled_poll (hc : c.run.cancelled = true) (p : Poll σ) :
    (c.poll threshold p).run.cancelled = true := by
  cases hs : c.run.state with
  | admitted => simp [poll_of_admitted hs, moved, hc]
  | ended e => simp [poll_of_ended hs, hc]
  | waits s =>
      cases hopen : s.isInterruptible with
      | true => simp [poll_of_interrupted hs hopen (by simp [hc]), hc]
      | false =>
          have hs' : (c.fire p.fired).run.state = .waits s := by simpa using hs
          rw [poll_of_waits hs (by simp [hopen])]
          cases hf : p.finding with
          | pending => simp [found_of_pending hf, hc]
          | crashed detail => simp [found_of_crashed hs' hf, hc]
          | answered reply fires => simp [found_of_answered hs' hf, moved, hc]

theorem foldl_poll_ended {e : Ending} (hs : c.run.state = .ended e) (ps : List (Poll σ)) :
    ∃ fired, ps.foldl (poll threshold) c = c.fire fired := by
  induction ps generalizing c with
  | nil => exact ⟨false, rfl⟩
  | cons p ps ih =>
      rw [List.foldl_cons, poll_of_ended hs]
      obtain ⟨fired, h⟩ := ih (c := c.fire p.fired) (by simpa using hs)
      refine ⟨p.fired || fired, h.trans ?_⟩
      cases p.fired <;> cases fired <;> rfl

theorem calls_poll (hc : (c.poll threshold p).run.cancelled = true) :
    ∃ later, (c.poll threshold p).calls = c.calls ++ later ∧ ∀ call ∈ later, call.isStore = true := by
  cases hs : c.run.state with
  | admitted =>
      refine ⟨[.load c.run.repository], ?_, by simp [Call.isStore]⟩
      simp [poll_of_admitted hs, moved, Run.stage?, Stage.call]
  | ended e => exact ⟨[], by simp [poll_of_ended hs], by simp⟩
  | waits s =>
      cases hopen : (p.fired || c.run.cancelled) && s.isInterruptible with
      | true =>
          rw [Bool.and_eq_true] at hopen
          exact ⟨[], by simp [poll_of_interrupted hs hopen.2 hopen.1], by simp⟩
      | false =>
          have hs' : (c.fire p.fired).run.state = .waits s := by simpa using hs
          rw [poll_of_waits hs hopen] at hc ⊢
          cases hf : p.finding with
          | pending => exact ⟨[], by simp [found_of_pending hf], by simp⟩
          | crashed detail => exact ⟨[], by simp [found_of_crashed hs' hf], by simp⟩
          | answered reply fires =>
              rw [found_of_answered hs' hf] at hc ⊢
              have hw : (fires || (c.fire p.fired).run.cancelled) = true := by
                simpa [moved] using hc
              cases hp : (((c.fire p.fired).run.task threshold p.listener).resume
                  ⟨fires || (c.fire p.fired).run.cancelled, p.stamp, p.elapsedMs⟩ s
                  (reply s)).value with
              | ended e => exact ⟨[], by simp [moved, Run.goTo, Run.stage?], by simp⟩
              | waits next =>
                  have hlate := UpdateTask.rank_of_resume_cancelled hw hp
                  have hrank := (UpdateTask.follows_of_resume hp).rank_eq
                  obtain ⟨o, head, output, updated, rfl⟩ :=
                    next.eq_saving_of_rank (by omega)
                  refine ⟨[.save updated], ?_, by simp [Call.isStore]⟩
                  simp [moved, Run.goTo, Run.stage?, Stage.call]

theorem calls_foldl_poll (hc : c.run.cancelled = true) (ps : List (Poll σ)) :
    ∃ later, (ps.foldl (poll threshold) c).calls = c.calls ++ later ∧
      ∀ call ∈ later, call.isStore = true := by
  induction ps generalizing c with
  | nil => exact ⟨[], by simp, by simp⟩
  | cons p ps ih =>
      have hp : (c.poll threshold p).run.cancelled = true := cancelled_poll hc p
      obtain ⟨first, hfirst, hstore⟩ := calls_poll hp
      obtain ⟨later, hlater, hstores⟩ := ih hp
      refine ⟨first ++ later, ?_, ?_⟩
      · rw [List.foldl_cons, hlater, hfirst, List.append_assoc]
      · intro call hcall
        rcases List.mem_append.1 hcall with hcall | hcall
        · exact hstore call hcall
        · exact hstores call hcall

def uncancelled (c : Course σ) : Course σ :=
  { c with run := { c.run with cancelled := false } }

def Late (c : Course σ) : Prop :=
  c.run.state ≠ .admitted ∧ ∀ s, c.run.state = .waits s → 4 ≤ s.rank

theorem isInterruptible_of_late (hs : 4 ≤ s.rank) : s.isInterruptible = false := by
  cases s <;> simp_all [Stage.rank, Stage.isInterruptible]

theorem uncancelled_fire (c : Course σ) (fired : Bool) :
    (c.fire fired).uncancelled = c.uncancelled := by
  cases fired <;> rfl

theorem uncancelled_found (hs : c.run.state = .waits s) (hlate : 4 ≤ s.rank) (p : Poll σ) :
    (c.found threshold s p).uncancelled = c.uncancelled.found threshold s p.unfired := by
  have hs' : c.uncancelled.run.state = .waits s := hs
  have hstored (f : σ → σ) : (c.stored s f).uncancelled = c.uncancelled.stored s f := by
    cases s <;> rfl
  cases hf : p.finding with
  | pending =>
      have hf' : p.unfired.finding = .pending := by simp [Poll.unfired, hf, Finding.unfired]
      rw [found_of_pending hf, found_of_pending hf']
      exact hstored p.stored
  | crashed detail =>
      have hf' : p.unfired.finding = .crashed detail := by
        simp [Poll.unfired, hf, Finding.unfired]
      rw [found_of_crashed hs hf, found_of_crashed hs' hf']
      cases s <;> rfl
  | answered reply fires =>
      have hf' : p.unfired.finding = .answered reply false := by
        simp [Poll.unfired, hf, Finding.unfired]
      rw [found_of_answered hs hf, found_of_answered hs' hf']
      have hsame := UpdateTask.resume_of_late (t := c.run.task threshold p.listener)
        (w := ⟨false, p.stamp, p.elapsedMs⟩) hlate (reply s) (fires || c.run.cancelled)
      have hright : (c.uncancelled.run.task threshold p.unfired.listener).resume
          ⟨false || c.uncancelled.run.cancelled, p.unfired.stamp, p.unfired.elapsedMs⟩ s (reply s) =
          (c.run.task threshold p.listener).resume ⟨false, p.stamp, p.elapsedMs⟩ s (reply s) := rfl
      rw [hsame, hright]
      generalize ((c.run.task threshold p.listener).resume ⟨false, p.stamp, p.elapsedMs⟩ s
        (reply s)).value = progress
      cases progress with
      | waits next => cases fires <;> cases s <;> rfl
      | ended e => cases fires <;> cases s <;> rfl

theorem uncancelled_poll (h : c.Late) (p : Poll σ) :
    (c.poll threshold p).uncancelled = c.uncancelled.poll threshold p.unfired := by
  cases hs : c.run.state with
  | admitted => exact absurd hs h.1
  | ended e =>
      have hs' : c.uncancelled.run.state = .ended e := hs
      rw [poll_of_ended hs, poll_of_ended hs', uncancelled_fire]
      rfl
  | waits s =>
      have hlate := h.2 s hs
      have hopen := isInterruptible_of_late hlate
      have hs' : c.uncancelled.run.state = .waits s := hs
      have hfired : (c.fire p.fired).run.state = .waits s := by simpa using hs
      rw [poll_of_waits hs (by simp [hopen]), poll_of_waits hs' (by simp [hopen]),
        uncancelled_found hfired hlate, uncancelled_fire]
      rfl

theorem Late.poll (h : c.Late) (p : Poll σ) : (c.poll threshold p).Late := by
  cases hs : c.run.state with
  | admitted => exact absurd hs h.1
  | ended e => simp [poll_of_ended hs, Late, hs]
  | waits s =>
      have hlate := h.2 s hs
      have hfired : (c.fire p.fired).run.state = .waits s := by simpa using hs
      rw [poll_of_waits hs (by simp [isInterruptible_of_late hlate])]
      cases hf : p.finding with
      | pending => simpa [found_of_pending hf, Late, hs] using hlate
      | crashed detail => simp [found_of_crashed hfired hf, Late]
      | answered reply fires =>
          rw [found_of_answered hfired hf]
          cases hp : (((c.fire p.fired).run.task threshold p.listener).resume
              ⟨fires || (c.fire p.fired).run.cancelled, p.stamp, p.elapsedMs⟩ s
              (reply s)).value with
          | ended e => simp [moved, Run.goTo, Late]
          | waits next =>
              have hrank := (UpdateTask.follows_of_resume hp).rank_eq
              simp [moved, Run.goTo, Late]
              omega

theorem uncancelled_foldl_poll (h : c.Late) (ps : List (Poll σ)) :
    (ps.foldl (poll threshold) c).uncancelled =
      (ps.map Poll.unfired).foldl (poll threshold) c.uncancelled := by
  induction ps generalizing c with
  | nil => rfl
  | cons p ps ih =>
      rw [List.foldl_cons, List.map_cons, List.foldl_cons, ← uncancelled_poll h]
      exact ih (h.poll p)

theorem cancelled_foldl_poll (hc : c.run.cancelled = true) (ps : List (Poll σ)) :
    (ps.foldl (poll threshold) c).run.cancelled = true := by
  induction ps generalizing c with
  | nil => exact hc
  | cons p ps ih => exact ih (cancelled_poll hc p)

theorem poll_unfired (hc : (c.poll threshold p).run.cancelled = false) :
    c.poll threshold p = c.poll threshold p.unfired := by
  have hfired : p.fired = false := by
    cases hp : p.fired with
    | false => rfl
    | true =>
        have hon : ((c.fire p.fired).poll threshold { p with fired := false }).run.cancelled = true :=
          cancelled_poll (by simp [hp]) _
        exact hon.symm.trans hc
  have hbefore : c.run.cancelled = false := by
    cases hb : c.run.cancelled with
    | false => rfl
    | true => exact (cancelled_poll hb p).symm.trans hc
  have hfire : c.fire p.fired = c.fire p.unfired.fired := by
    rw [hfired]
    rfl
  cases hs : c.run.state with
  | admitted => rw [poll_of_admitted hs, poll_of_admitted hs, hfire]
  | ended e => rw [poll_of_ended hs, poll_of_ended hs, hfire]
  | waits s =>
      have hs' : (c.fire p.fired).run.state = .waits s := by simpa using hs
      rw [poll_of_waits hs (by simp [hfired, hbefore])] at hc ⊢
      rw [poll_of_waits hs (by simp [Poll.unfired, hbefore]), ← hfire]
      cases hf : p.finding with
      | pending => simp only [found, Poll.unfired, Finding.unfired, hf]
      | crashed detail => simp only [found, Poll.unfired, Finding.unfired, hf]
      | answered reply fires =>
          cases fires with
          | false => simp only [found, Poll.unfired, Finding.unfired, hf]
          | true =>
              rw [found_of_answered hs' hf] at hc
              simp [moved, fire, Run.cancel] at hc

theorem foldl_poll_unfired {ps : List (Poll σ)}
    (hc : (ps.foldl (poll threshold) c).run.cancelled = false) :
    ps.foldl (poll threshold) c = (ps.map Poll.unfired).foldl (poll threshold) c := by
  induction ps generalizing c with
  | nil => rfl
  | cons p ps ih =>
      have hp : (c.poll threshold p).run.cancelled = false := by
        cases hb : (c.poll threshold p).run.cancelled with
        | false => rfl
        | true => exact (cancelled_foldl_poll hb ps).symm.trans hc
      rw [List.map_cons, List.foldl_cons, List.foldl_cons, ← poll_unfired hp]
      exact ih hc

theorem rank_of_process_mem {answers : List Exchange} {options : PipelineOptions}
    {files : List ChangedFile} (hpath : Path threshold answers s)
    (h : Call.process options files ∈ callsTo repository answers s) : 4 ≤ s.rank := by
  obtain ⟨t, hcall, hrank⟩ := stage_of_mem_callsTo hpath h
  cases t with
  | processing =>
      rcases hrank with rfl | hrank
      · exact Nat.le_refl 4
      · exact Nat.le_of_lt hrank
  | _ => cases hcall

theorem Sound.late (h : c.Sound repository threshold store) {options : PipelineOptions}
    {files : List ChangedFile} (hprocess : Call.process options files ∈ c.calls) : c.Late := by
  cases h with
  | admitted => cases hprocess
  | waits hpath =>
      constructor
      · simp
      · intro s hs
        cases hs
        exact rank_of_process_mem hpath hprocess
  | stopped => simp [Late]
  | answered => simp [Late]

end Course

structure Errand (σ : Type) where
  repository : String
  threshold : UInt64
  permit : Option Permit
  store : σ

namespace Errand

open Course (uncancelled)

variable {σ : Type}

def after (b : Errand σ) (ps : List (Poll σ)) : Course σ :=
  ps.foldl (Course.poll b.threshold) ⟨.new b.repository b.permit, [], [], b.store⟩

theorem after_append (b : Errand σ) (ps qs : List (Poll σ)) :
    b.after (ps ++ qs) = qs.foldl (Course.poll b.threshold) (b.after ps) :=
  List.foldl_append

theorem reached_after (b : Errand σ) (ps : List (Poll σ)) :
    Course.Reached b.repository b.threshold b.store (b.after ps) := by
  suffices h : ∀ c, Course.Reached b.repository b.threshold b.store c →
      Course.Reached b.repository b.threshold b.store (ps.foldl (Course.poll b.threshold) c) from
    h _ .new
  induction ps with
  | nil => exact fun c hc => hc
  | cons p ps ih => exact fun c hc => ih _ (hc.poll p)

/-- A token that fires before the pipeline is started keeps the run from any further remote call, pull
and pipeline, and breaks off a head lookup or comparison that is pending even if it would be answered
in the same poll. A token that fires later changes nothing. -/
theorem token_heeded_until_processing (b : Errand σ) (ps : List (Poll σ)) :
    (∀ p qs, (b.after (ps ++ [p])).run.cancelled = true →
      ∃ later, (b.after (ps ++ p :: qs)).calls = (b.after ps).calls ++ later ∧
        ∀ call ∈ later, call.isStore = true) ∧
    (∀ s p qs, (b.after ps).run.state = .waits s →
      ((∃ o, s = .resolving o) ∨ ∃ o head, s = .comparing o head) →
      (p.fired = true ∨ (b.after ps).run.cancelled = true) →
      (b.after (ps ++ p :: qs)).run.state = .ended (.failed .cancelled) ∧
      (b.after (ps ++ p :: qs)).calls = (b.after ps).calls ∧
      (b.after (ps ++ p :: qs)).answers = (b.after ps).answers ∧
      (b.after (ps ++ p :: qs)).store = (b.after ps).store) ∧
    (∀ qs options files, (b.after ps).run.cancelled = false →
      Call.process options files ∈ (b.after ps).calls →
      (b.after ((ps ++ qs).map Poll.unfired)).run.cancelled = false ∧
      (b.after (ps ++ qs)).run.state = (b.after ((ps ++ qs).map Poll.unfired)).run.state ∧
      (b.after (ps ++ qs)).calls = (b.after ((ps ++ qs).map Poll.unfired)).calls ∧
      (b.after (ps ++ qs)).answers = (b.after ((ps ++ qs).map Poll.unfired)).answers ∧
      (b.after (ps ++ qs)).store = (b.after ((ps ++ qs).map Poll.unfired)).store) := by
  refine ⟨?_, ?_, ?_⟩
  · intro p qs hc
    rw [after_append] at hc ⊢
    obtain ⟨first, hfirst, hstore⟩ := Course.calls_poll hc
    obtain ⟨later, hlater, hstores⟩ := Course.calls_foldl_poll hc qs
    refine ⟨first ++ later, ?_, ?_⟩
    · rw [← List.append_assoc, ← hfirst]
      exact hlater
    · intro call hcall
      rcases List.mem_append.1 hcall with hcall | hcall
      · exact hstore call hcall
      · exact hstores call hcall
  · intro s p qs hs hremote hfired
    have hopen : s.isInterruptible = true := by
      rcases hremote with ⟨o, rfl⟩ | ⟨o, head, rfl⟩ <;> rfl
    have hp : (b.after ps).poll b.threshold p = { (b.after ps).fire p.fired with
        run := { ((b.after ps).fire p.fired).run with state := .ended (.failed .cancelled) } } :=
      Course.poll_of_interrupted hs hopen (by simpa using hfired)
    have hended : ((b.after ps).poll b.threshold p).run.state = .ended (.failed .cancelled) := by
      rw [hp]
    obtain ⟨fired, hlast⟩ := Course.foldl_poll_ended hended qs
    rw [after_append, List.foldl_cons, hlast, hp]
    simp
  · intro qs options files hc hprocess
    -- the pipeline was started, so nothing reads the token any more and only the flag can differ
    have hlate := (b.reached_after ps).sound.late hprocess
    have hsame : b.after ps = b.after (ps.map Poll.unfired) := Course.foldl_poll_unfired hc
    have hrun : (b.after (ps ++ qs)).uncancelled = b.after ((ps ++ qs).map Poll.unfired) := by
      have hquiet : (b.after ps).uncancelled = b.after ps := by
        simp only [uncancelled, ← hc]
      rw [after_append, Course.uncancelled_foldl_poll hlate, hquiet, List.map_append, after_append,
        ← hsame]
    rw [← hrun]
    exact ⟨rfl, rfl, rfl, rfl, rfl⟩

theorem token_heeded_until_processing_then_ignored :
    ∃ (b : Errand Unit) (asked begun : List (Poll Unit)) (p q : Poll Unit),
      p.fired = true ∧ (∃ reply, p.finding = .answered reply false) ∧
      (∃ o head, (b.after asked).run.state = .waits (.comparing o head)) ∧
      (b.after (asked ++ [p])).run.state = .ended (.failed .cancelled) ∧
      (b.after (asked ++ [p])).calls = (b.after asked).calls ∧
      (b.after begun).run.cancelled = false ∧ q.fired = true ∧
      (∃ u, Call.save u ∈ (b.after (begun ++ [q])).calls) ∧
      (b.after (begun ++ [q])).calls = (b.after ((begun ++ [q]).map Poll.unfired)).calls := by
  let snapshot : Snapshot :=
    { Snapshot.fresh "a" "https://host/owner/repo" "main" "/work" with indexedSha := some "old" }
  let o : Origin := ⟨snapshot, "old", ⟨"owner", "repo"⟩⟩
  let head : HeadCommit := ⟨"new", "message"⟩
  let changes : Comparison := ⟨"old", "new", 1, [.plain "file" .added], false⟩
  let output : PipelineOutput := ⟨{ Stats.zero with filesAdded := 1 }, []⟩
  let answered (s : Stage) (reply : s.Reply) : Poll Unit :=
    ⟨false, .answered (s.replyTo reply) false, .silent, .ofEpoch 0 0, 0, id⟩
  let p : Poll Unit := { answered (.comparing o head) (.ok changes) with fired := true }
  let q : Poll Unit := { answered (.processing o head changes) (.ok output) with fired := true }
  let b : Errand Unit := ⟨"a", 10, none, ()⟩
  let asked : List (Poll Unit) :=
    [answered .loading (.ok snapshot), answered .loading (.ok snapshot),
      answered (.resolving o) (.ok head)]
  let begun : List (Poll Unit) :=
    asked ++ [answered (.comparing o head) (.ok changes), answered (.pulling o head changes) (.ok ())]
  have hasked : (b.after asked).run.state = .waits (.comparing o head) := by decide
  have hbegun : (b.after begun).run.cancelled = false := by decide
  have hprocess : Call.process ⟨"a", "/work", "old", "new"⟩ changes.files ∈
      (b.after begun).calls := by
    decide
  obtain ⟨hended, hcalls, -, -⟩ := (b.token_heeded_until_processing asked).2.1 _ p [] hasked
    (.inr ⟨o, head, rfl⟩) (.inl rfl)
  obtain ⟨-, -, hsame, -⟩ := (b.token_heeded_until_processing begun).2.2 [q] _ _ hbegun hprocess
  let updated : Snapshot := { snapshot with
    indexedSha := some "new", updateCount := 1, updatedAt := some (.ofEpoch 0 0), fileCount := 1,
    status := .ready }
  have hsave : Call.save updated ∈ (b.after (begun ++ [q])).calls := by
    decide
  exact ⟨b, asked, begun, p, q, rfl, ⟨_, rfl⟩, ⟨o, head, hasked⟩, hended, hcalls, hbegun,
    rfl, ⟨updated, hsave⟩, hsame⟩

end Errand

end IndexRefresh
