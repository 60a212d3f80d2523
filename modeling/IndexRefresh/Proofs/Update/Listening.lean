import IndexRefresh.Proofs.Update.Cancellation

namespace IndexRefresh

def Stats.overflows (s : Stats) : Bool :=
  UInt64.size ≤ s.filesAdded.toNat + s.filesModified.toNat + s.filesDeleted.toNat

theorem Stats.filesProcessed?_eq_none_iff {s : Stats} :
    s.filesProcessed? = none ↔ s.overflows = true := by
  unfold filesProcessed? overflows
  rw [decide_eq_true_eq]
  cases hsum : addCounter? s.filesAdded s.filesModified with
  | none =>
      rw [addCounter?_eq_none_iff] at hsum
      simp only [Option.bind_none, true_iff]
      omega
  | some sum => rw [Option.bind_some, addCounter?_eq_none_iff, toNat_of_addCounter? hsum]

def Listener.overhears (l : Listener) : (s : Stage) → s.Reply → Bool
  | .saving _ _ output _, reply =>
      match (reply : Except Fault Unit) with
      | .ok () => l (if output.errors.isEmpty then .info else .warn) .coordinator &&
          output.stats.overflows
      | .error _ => false
  | _, _ => false

namespace UpdateTask

variable {t : UpdateTask} {w : Surroundings}

def muted (t : UpdateTask) : UpdateTask :=
  { t with listener := .silent }

theorem value_afterSave_muted (t : UpdateTask) (w : Surroundings) (head : HeadCommit)
    (output : PipelineOutput) :
    (t.muted.afterSave w head output (.ok ())).value =
      .ended (.reported (t.report w head output)) := by
  simp [afterSave, muted, Listener.silent, report]

theorem value_afterSave (t : UpdateTask) (w : Surroundings) (o : Origin) (head : HeadCommit)
    (output : PipelineOutput) (updated : Snapshot) (reply : Except Fault Unit) :
    (t.afterSave w head output reply).value =
      if t.listener.overhears (.saving o head output updated) reply then
        .ended (.crashed overflowText)
      else (t.muted.afterSave w head output reply).value := by
  cases reply with
  | error f => rfl
  | ok u =>
      cases u
      rw [value_afterSave_muted]
      by_cases hl : t.listener (if output.errors.isEmpty then .info else .warn) .coordinator = true
      · cases hfiles : output.stats.filesProcessed? with
        | none =>
            have hover := Stats.filesProcessed?_eq_none_iff.1 hfiles
            simp only [afterSave, Listener.overhears, hl, hfiles, hover]
            rfl
        | some files =>
            have hfits : output.stats.overflows = false := by
              rw [← Bool.not_eq_true, ← Stats.filesProcessed?_eq_none_iff, hfiles]
              exact nofun
            simp only [afterSave, Listener.overhears, hl, hfiles, hfits]
            rfl
      · rw [Bool.not_eq_true] at hl
        simp only [afterSave, Listener.overhears, hl]
        rfl

theorem value_resume (t : UpdateTask) (w : Surroundings) (s : Stage) (reply : s.Reply) :
    (t.resume w s reply).value =
      if t.listener.overhears s reply then .ended (.crashed overflowText)
      else (t.muted.resume w s reply).value := by
  cases s with
  | saving o head output updated => exact t.value_afterSave w o head output updated reply
  | _ => rfl

theorem value_resume_muted {s : Stage} {reply : s.Reply}
    (h : t.listener.overhears s reply = false) :
    (t.muted.resume w s reply).value = (t.resume w s reply).value := by
  rw [value_resume t, if_neg (by simp [h])]

theorem value_resume_of_overhears {s : Stage} {reply : s.Reply}
    (h : t.listener.overhears s reply = true) :
    (t.resume w s reply).value = .ended (.crashed overflowText) := by
  rw [value_resume t, if_pos h]

theorem exists_report_of_overhears {s : Stage} {reply : s.Reply}
    (h : t.listener.overhears s reply = true) :
    ∃ report, (t.muted.resume w s reply).value = .ended (.reported report) := by
  cases s with
  | saving o head output updated =>
      cases hreply : (reply : Except Fault Unit) with
      | error f =>
          subst hreply
          cases h
      | ok u =>
          subst hreply
          exact ⟨_, t.value_afterSave_muted w head output⟩
  | _ => cases h

end UpdateTask

def Poll.muted {σ : Type} (p : Poll σ) : Poll σ :=
  { p with listener := .silent }

namespace Course

variable {σ : Type} {threshold : UInt64} {c d : Course σ} {p : Poll σ} {s : Stage}

def overhears (c : Course σ) (p : Poll σ) : Bool :=
  match c.run.state, p.finding with
  | .waits s, .answered reply _ => p.listener.overhears s (reply s)
  | _, _ => false

def overheard (threshold : UInt64) (c : Course σ) : List (Poll σ) → Bool
  | [] => false
  | p :: ps => c.overhears p || overheard threshold (c.poll threshold p) ps

theorem overhears_of_waits {reply : (s : Stage) → s.Reply} {fires : Bool}
    (hs : c.run.state = .waits s) (hf : p.finding = .answered reply fires) :
    c.overhears p = p.listener.overhears s (reply s) := by
  simp only [overhears, hs, hf]

theorem found_muted (hs : c.run.state = .waits s) (h : c.overhears p = false) :
    c.found threshold s p.muted = c.found threshold s p := by
  cases hf : p.finding with
  | pending => rw [found_of_pending hf, found_of_pending (p := p.muted) hf]; rfl
  | crashed detail =>
      rw [found_of_crashed hs hf, found_of_crashed (p := p.muted) hs hf]
      rfl
  | answered reply fires =>
      rw [overhears_of_waits hs hf] at h
      have hsame := UpdateTask.value_resume_muted (t := c.run.task threshold p.listener)
        (w := ⟨fires || c.run.cancelled, p.stamp, p.elapsedMs⟩) h
      rw [found_of_answered hs hf, found_of_answered (p := p.muted) hs hf, ← hsame]
      rfl

theorem poll_muted (h : c.overhears p = false) :
    c.poll threshold p.muted = c.poll threshold p := by
  cases hs : c.run.state with
  | admitted => rw [poll_of_admitted hs, poll_of_admitted hs]; rfl
  | ended e => rw [poll_of_ended hs, poll_of_ended hs]; rfl
  | waits s =>
      cases hopen : (p.fired || c.run.cancelled) && s.isInterruptible with
      | true =>
          rw [Bool.and_eq_true] at hopen
          rw [poll_of_interrupted hs hopen.2 hopen.1,
            poll_of_interrupted (p := p.muted) hs hopen.2 hopen.1]
          rfl
      | false =>
          have hfired : (c.fire p.fired).run.state = .waits s := by simpa using hs
          have hunheard : (c.fire p.fired).overhears p = false := by
            rw [← h, overhears, overhears, state_fire]
          rw [poll_of_waits hs hopen, poll_of_waits (p := p.muted) hs hopen]
          exact found_muted hfired hunheard

/-- Two courses of one run that part in how it ended, by a crash and by a report. -/
structure Parted (c d : Course σ) : Prop where
  calls : d.calls = c.calls
  answers : d.answers = c.answers
  store : d.store = c.store
  crashed : c.run.state = .ended (.crashed overflowText)
  reported : ∃ report, d.run.state = .ended (.reported report)

theorem Parted.poll (h : Parted c d) (p : Poll σ) :
    Parted (c.poll threshold p) (d.poll threshold p.muted) := by
  obtain ⟨report, hreported⟩ := h.reported
  rw [poll_of_ended h.crashed, poll_of_ended hreported]
  exact ⟨by simp [h.calls], by simp [h.answers], by simp [h.store], by simp [h.crashed],
    report, by simp [hreported]⟩

theorem parted_moved (c : Course σ) (answers : List Exchange) (r : Run) (report : Report) :
    Parted (c.moved answers (r.goTo (.ended (.crashed overflowText))))
      (c.moved answers (r.goTo (.ended (.reported report)))) :=
  ⟨rfl, rfl, rfl, rfl, report, rfl⟩

theorem parted_of_overhears (h : c.overhears p = true) :
    Parted (c.poll threshold p) (c.poll threshold p.muted) := by
  unfold overhears at h
  split at h
  · next s reply fires hs hf =>
      have hlate : s.isInterruptible = false := by
        cases s with
        | resolving => cases h
        | comparing => cases h
        | _ => rfl
      have hopen : ((p.fired || c.run.cancelled) && s.isInterruptible) = false := by
        rw [hlate, Bool.and_false]
      have hfired : (c.fire p.fired).run.state = .waits s := by simpa using hs
      let w : Surroundings := ⟨fires || (c.fire p.fired).run.cancelled, p.stamp, p.elapsedMs⟩
      have hheard := UpdateTask.value_resume_of_overhears
        (t := (c.fire p.fired).run.task threshold p.listener) (w := w) h
      obtain ⟨report, hsilent⟩ := UpdateTask.exists_report_of_overhears
        (t := (c.fire p.fired).run.task threshold p.listener) (w := w) h
      have hparted := parted_moved ((c.fire p.fired).stored s p.stored) [⟨s, reply s⟩]
        ((c.fire p.fired).fire fires).run report
      rw [← hheard, ← hsilent] at hparted
      have hfound : (c.fire p.fired).found threshold s p.muted = _ :=
        found_of_answered hfired hf
      rw [poll_of_waits hs hopen, poll_of_waits (p := p.muted) hs hopen,
        found_of_answered hfired hf]
      exact hfound ▸ hparted
  · cases h

theorem Parted.foldl_poll (h : Parted c d) (ps : List (Poll σ)) :
    Parted (ps.foldl (Course.poll threshold) c)
      ((ps.map Poll.muted).foldl (Course.poll threshold) d) := by
  induction ps generalizing c d with
  | nil => exact h
  | cons p ps ih => exact ih (h.poll p)

theorem foldl_poll_muted (ps : List (Poll σ)) (h : overheard threshold c ps = false) :
    (ps.map Poll.muted).foldl (poll threshold) c = ps.foldl (poll threshold) c := by
  induction ps generalizing c with
  | nil => rfl
  | cons p ps ih =>
      rw [overheard, Bool.or_eq_false_iff] at h
      rw [List.map_cons, List.foldl_cons, List.foldl_cons, poll_muted h.1]
      exact ih h.2

theorem parted_of_overheard (ps : List (Poll σ)) (h : overheard threshold c ps = true) :
    Parted (ps.foldl (poll threshold) c) ((ps.map Poll.muted).foldl (poll threshold) c) := by
  induction ps generalizing c with
  | nil => cases h
  | cons p ps ih =>
      rw [List.map_cons, List.foldl_cons, List.foldl_cons]
      cases hp : c.overhears p with
      | true => exact (parted_of_overhears hp).foldl_poll ps
      | false =>
          rw [overheard, hp, Bool.false_or] at h
          rw [poll_muted hp]
          exact ih h

end Course

def Errand.overheard {σ : Type} (b : Errand σ) (ps : List (Poll σ)) : Bool :=
  Course.overheard b.threshold (b.after []) ps

end IndexRefresh
