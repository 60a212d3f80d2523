import IndexRefresh.Update.Run

namespace IndexRefresh

theorem toNat_cutSub (a b : UInt64) : (cutSub a b).toNat = a.toNat - b.toNat := by
  unfold cutSub
  split
  · next hle => exact UInt64.toNat_sub_of_le a b hle
  · next hlt =>
      have hlt : a.toNat < b.toNat := by
        rw [UInt64.le_iff_toNat_le] at hlt
        omega
      simp only [UInt64.toNat_zero]
      omega

theorem addCounter?_of_lt {a b : UInt64} (h : a.toNat + b.toNat < UInt64.size) :
    addCounter? a b = some (a + b) :=
  if_pos h

structure AppliedTo (s : Snapshot) (headSha : String) (output : PipelineOutput) (stamp : Timestamp)
    (updated : Snapshot) : Prop where
  name : updated.name = s.name
  url : updated.url = s.url
  branch : updated.branch = s.branch
  localPath : updated.localPath = s.localPath
  indexedSha : updated.indexedSha = some headSha
  fileCount : updated.fileCount.toNat =
    s.fileCount.toNat + output.stats.filesAdded.toNat - output.stats.filesDeleted.toNat
  chunkCount : updated.chunkCount.toNat =
    s.chunkCount.toNat + output.stats.chunksUpserted.toNat - output.stats.chunksDeleted.toNat
  status : updated.status = if output.errors = [] then .ready else .error
  indexedAt : updated.indexedAt = s.indexedAt
  updateCount : updated.updateCount.toNat = s.updateCount.toNat + 1
  updatedAt : updated.updatedAt = some stamp

structure Fits (s : Snapshot) (output : PipelineOutput) : Prop where
  updates : s.updateCount.toNat + 1 < UInt64.size
  files : s.fileCount.toNat + output.stats.filesAdded.toNat < UInt64.size
  chunks : s.chunkCount.toNat + output.stats.chunksUpserted.toNat < UInt64.size

theorem appliedTo_of_applied? {s updated : Snapshot} {headSha : String} {output : PipelineOutput}
    {stamp : Timestamp} (h : UpdateTask.applied? s headSha output stamp = some updated) :
    AppliedTo s headSha output stamp updated := by
  simp only [UpdateTask.applied?, Option.bind_eq_bind, Option.bind_eq_some_iff, Option.pure_def,
    Option.some.injEq] at h
  obtain ⟨updates, hupdates, files, hfiles, chunks, hchunks, rfl⟩ := h
  have hupdates := toNat_of_addCounter? hupdates
  have hfiles := toNat_of_addCounter? hfiles
  have hchunks := toNat_of_addCounter? hchunks
  exact {
    name := rfl
    url := rfl
    branch := rfl
    localPath := rfl
    indexedSha := rfl
    fileCount := by rw [toNat_cutSub, hfiles]
    chunkCount := by rw [toNat_cutSub, hchunks]
    status := by simp only [List.isEmpty_iff]
    indexedAt := rfl
    updateCount := hupdates
    updatedAt := rfl }

theorem applied?_isSome_iff {s : Snapshot} {headSha : String} {output : PipelineOutput}
    {stamp : Timestamp} :
    (UpdateTask.applied? s headSha output stamp).isSome = true ↔ Fits s output := by
  constructor
  · intro h
    obtain ⟨updated, h⟩ := Option.isSome_iff_exists.1 h
    simp only [UpdateTask.applied?, Option.bind_eq_bind, Option.bind_eq_some_iff, Option.pure_def,
      Option.some.injEq] at h
    obtain ⟨updates, hupdates, files, hfiles, chunks, hchunks, -⟩ := h
    have fits {a b c : UInt64} (hc : addCounter? a b = some c) : a.toNat + b.toNat < UInt64.size := by
      rw [← toNat_of_addCounter? hc]
      exact c.toNat_lt
    exact ⟨fits hupdates, fits hfiles, fits hchunks⟩
  · intro h
    simp [UpdateTask.applied?, addCounter?_of_lt (b := 1) h.updates, addCounter?_of_lt h.files,
      addCounter?_of_lt h.chunks]

inductive Stage.Follows (threshold : UInt64) : (s : Stage) → s.Reply → Stage → Prop where
  | resolving {snapshot : Snapshot} {base : String} {address : Address}
      (hbase : snapshot.baseSha? = some base) (haddress : Address.ofUrl? snapshot.url = some address) :
      Follows threshold .loading (.ok (some snapshot) : Except Fault (Option Snapshot))
        (.resolving ⟨snapshot, base, address⟩)
  | comparing {o : Origin} {head : HeadCommit} (hnew : head.sha ≠ o.base) :
      Follows threshold (.resolving o) (.ok head : Except Fault HeadCommit) (.comparing o head)
  | pulling {o : Origin} {head : HeadCommit} {changes : Comparison}
      (hfew : changes.files.length ≤ threshold.toNat) (hcomplete : changes.truncated = false) :
      Follows threshold (.comparing o head) (.ok changes : Except Fault Comparison)
        (.pulling o head changes)
  | processing {o : Origin} {head : HeadCommit} {changes : Comparison} :
      Follows threshold (.pulling o head changes) (.ok () : Except Fault Unit)
        (.processing o head changes)
  | saving {o : Origin} {head : HeadCommit} {changes : Comparison} {output : PipelineOutput}
      {stamp : Timestamp} {updated : Snapshot}
      (happlied : UpdateTask.applied? o.snapshot head.sha output stamp = some updated) :
      Follows threshold (.processing o head changes) (.ok output : Except Fault PipelineOutput)
        (.saving o head output updated)

theorem Stage.Follows.of_loading {threshold : UInt64} {reply : Except Fault (Option Snapshot)}
    {t : Stage} (h : Stage.Follows threshold .loading reply t) :
    ∃ snapshot base address, reply = .ok (some snapshot) ∧
      t = .resolving ⟨snapshot, base, address⟩ := by
  cases h with
  | resolving => exact ⟨_, _, _, rfl, rfl⟩

theorem Stage.Follows.rank_eq {threshold : UInt64} {s t : Stage} {reply : s.Reply}
    (h : s.Follows threshold reply t) : t.rank = s.rank + 1 := by
  cases h <;> rfl

theorem Stage.eq_saving_of_rank {s : Stage} (h : 4 < s.rank) :
    ∃ o head output updated, s = .saving o head output updated := by
  cases s with
  | saving o head output updated => exact ⟨o, head, output, updated, rfl⟩
  | _ => simp [Stage.rank] at h

def Stage.Reports (s : Stage) (report : Report) : Prop :=
  report.outcome = .noChanges ∨ ∃ o head output updated, s = .saving o head output updated ∧
    report.commitSha = head.sha ∧ report.stats = output.stats ∧ report.errors = output.errors

inductive Stage.Ends (cancelled : Bool) : Stage → Ending → Prop where
  | reported {s : Stage} {report : Report} (h : s.Reports report) (hs : s.rank ≠ 4) :
      Ends cancelled s (.reported report)
  | failed {s : Stage} {f : Failure} (hf : f ≠ .cancelled)
      (hlate : s.rank = 4 → ∃ fault, f = .pipeline fault) : Ends cancelled s (.failed f)
  | cancelled {s : Stage} (hon : cancelled = true) (hearly : s.rank < 4) :
      Ends cancelled s (.failed .cancelled)
  | crashed {s : Stage} {detail : String} : Ends cancelled s (.crashed detail)

namespace UpdateTask

variable {t : UpdateTask} {w : Surroundings} {next : Stage}

theorem enterRemote_eq_waits {s : Stage} (h : (t.enterRemote w s).value = .waits next) :
    next = s := by
  unfold enterRemote at h
  split at h
  · cases h
  · cases h
    rfl

theorem enterLocal_eq_waits {s : Stage} (h : (t.enterLocal w s).value = .waits next) :
    next = s := by
  unfold enterLocal at h
  split at h
  · cases h
  · cases h
    rfl

theorem afterLoad_eq_waits {reply : Except Fault (Option Snapshot)}
    (h : (t.afterLoad w reply).value = .waits next) :
    ∃ s base address, reply = .ok (some s) ∧ s.baseSha? = some base ∧
      Address.ofUrl? s.url = some address ∧ next = .resolving ⟨s, base, address⟩ := by
  unfold afterLoad at h
  split at h
  · cases h
  · cases h
  · next s =>
      split at h
      · cases h
      · next base hbase =>
          split at h
          · cases h
          · next address haddress =>
              exact ⟨s, base, address, rfl, hbase, haddress, enterRemote_eq_waits h⟩

theorem afterHead_eq_waits {o : Origin} {reply : Except Fault HeadCommit}
    (h : (t.afterHead w o reply).value = .waits next) :
    ∃ head, reply = .ok head ∧ head.sha ≠ o.base ∧ next = .comparing o head := by
  unfold afterHead at h
  split at h
  · cases h
  · next head =>
      split at h
      · cases h
      · next hnew => exact ⟨head, rfl, hnew, enterRemote_eq_waits h⟩

theorem afterCompare_eq_waits {o : Origin} {head : HeadCommit} {reply : Except Fault Comparison}
    (h : (t.afterCompare w o head reply).value = .waits next) :
    ∃ changes, reply = .ok changes ∧ changes.files.length ≤ t.threshold.toNat ∧
      changes.truncated = false ∧ next = .pulling o head changes := by
  unfold afterCompare at h
  split at h
  · split at h <;> cases h
  · next changes =>
      dsimp only at h
      split at h
      · cases h
      · next hfew =>
          split at h
          · cases h
          · next hcomplete =>
              rw [Traced.value_after] at h
              exact ⟨changes, rfl, Nat.not_lt.1 hfew, by simpa using hcomplete,
                enterLocal_eq_waits h⟩

theorem afterPull_eq_waits {o : Origin} {head : HeadCommit} {changes : Comparison}
    {reply : Except Fault Unit} (h : (t.afterPull w o head changes reply).value = .waits next) :
    reply = .ok () ∧ next = .processing o head changes := by
  unfold afterPull at h
  split at h
  · cases h
  · exact ⟨rfl, enterLocal_eq_waits h⟩

theorem afterProcess_eq_waits {o : Origin} {head : HeadCommit}
    {reply : Except Fault PipelineOutput} (h : (afterProcess w o head reply).value = .waits next) :
    ∃ output updated, reply = .ok output ∧
      applied? o.snapshot head.sha output w.stamp = some updated ∧
      next = .saving o head output updated := by
  unfold afterProcess at h
  split at h
  · cases h
  · next output =>
      split at h
      · cases h
      · next updated happlied =>
          cases h
          exact ⟨output, updated, rfl, happlied, rfl⟩

theorem afterSave_ne_waits {head : HeadCommit} {output : PipelineOutput}
    {reply : Except Fault Unit} : (t.afterSave w head output reply).value ≠ .waits next := by
  intro h
  unfold afterSave at h
  split at h
  · cases h
  · dsimp only at h
    generalize t.listener _ _ = listens at h
    cases listens with
    | false => cases h
    | true =>
        cases hfiles : output.stats.filesProcessed? with
        | none => simp [hfiles, Traced.quiet] at h
        | some files => simp [hfiles] at h

theorem follows_of_resume {s : Stage} {reply : s.Reply}
    (h : (t.resume w s reply).value = .waits next) : s.Follows t.threshold reply next := by
  cases s with
  | loading =>
      obtain ⟨snapshot, base, address, rfl, hbase, haddress, rfl⟩ := afterLoad_eq_waits h
      exact .resolving hbase haddress
  | resolving o =>
      obtain ⟨head, rfl, hnew, rfl⟩ := afterHead_eq_waits h
      exact .comparing hnew
  | comparing o head =>
      obtain ⟨changes, rfl, hfew, hcomplete, rfl⟩ := afterCompare_eq_waits h
      exact .pulling hfew hcomplete
  | pulling o head changes =>
      obtain ⟨rfl, rfl⟩ := afterPull_eq_waits h
      exact .processing
  | processing o head changes =>
      obtain ⟨output, updated, rfl, happlied, rfl⟩ := afterProcess_eq_waits h
      exact .saving happlied
  | saving o head output updated => exact absurd h afterSave_ne_waits

theorem enterRemote_eq_ended {s : Stage} {e : Ending}
    (h : (t.enterRemote w s).value = .ended e) : w.cancelled = true ∧ e = .failed .cancelled := by
  unfold enterRemote at h
  split at h
  · next hon =>
      cases h
      exact ⟨hon, rfl⟩
  · cases h

theorem enterLocal_eq_ended {s : Stage} {e : Ending}
    (h : (t.enterLocal w s).value = .ended e) : w.cancelled = true ∧ e = .failed .cancelled := by
  unfold enterLocal at h
  split at h
  · next hon =>
      cases h
      exact ⟨hon, rfl⟩
  · cases h

theorem afterSave_eq_ended {head : HeadCommit} {output : PipelineOutput}
    {reply : Except Fault Unit} {e : Ending}
    (h : (t.afterSave w head output reply).value = .ended e) :
    (∃ f, e = .failed (.metadata f)) ∨ e = .reported (t.report w head output) ∨
      ∃ detail, e = .crashed detail := by
  unfold afterSave at h
  split at h
  · cases h
    exact .inl ⟨_, rfl⟩
  · dsimp only at h
    generalize t.listener _ _ = listens at h
    cases listens with
    | false =>
        cases h
        exact .inr (.inl rfl)
    | true =>
        cases hfiles : output.stats.filesProcessed? with
        | none =>
            simp only [hfiles, if_true] at h
            cases h
            exact .inr (.inr ⟨_, rfl⟩)
        | some files =>
            simp only [hfiles, if_true] at h
            cases h
            exact .inr (.inl rfl)

theorem ends_of_resume {s : Stage} {reply : s.Reply} {e : Ending}
    (h : (t.resume w s reply).value = .ended e) : s.Ends w.cancelled e := by
  have failed {s : Stage} {f : Failure} (hs : s.rank ≠ 4) (hf : f ≠ .cancelled) :
      s.Ends w.cancelled (.failed f) := .failed hf fun hrank => absurd hrank hs
  cases s with
  | loading =>
      change (t.afterLoad w reply).value = _ at h
      unfold afterLoad at h
      split at h
      · cases h
        exact failed (by decide) Failure.noConfusion
      · cases h
        exact failed (by decide) Failure.noConfusion
      · split at h
        · cases h
          exact failed (by decide) Failure.noConfusion
        · split at h
          · cases h
            exact failed (by decide) Failure.noConfusion
          · obtain ⟨hon, rfl⟩ := enterRemote_eq_ended h
            exact .cancelled hon (by decide)
  | resolving o =>
      have early : (Stage.resolving o).rank < 4 := by simp [Stage.rank]
      change (t.afterHead w o reply).value = _ at h
      unfold afterHead at h
      split at h
      · cases h
        exact failed (Nat.ne_of_lt early) Failure.noConfusion
      · split at h
        · cases h
          exact .reported (.inl rfl) (Nat.ne_of_lt early)
        · obtain ⟨hon, rfl⟩ := enterRemote_eq_ended h
          exact .cancelled hon early
  | comparing o head =>
      have early : (Stage.comparing o head).rank < 4 := by simp [Stage.rank]
      change (t.afterCompare w o head reply).value = _ at h
      unfold afterCompare at h
      split at h
      · split at h
        · cases h
          exact failed (Nat.ne_of_lt early) Failure.noConfusion
        · cases h
          exact failed (Nat.ne_of_lt early) Failure.noConfusion
      · dsimp only at h
        split at h
        · cases h
          exact failed (Nat.ne_of_lt early) Failure.noConfusion
        · split at h
          · cases h
            exact failed (Nat.ne_of_lt early) Failure.noConfusion
          · obtain ⟨hon, rfl⟩ := enterLocal_eq_ended h
            exact .cancelled hon early
  | pulling o head changes =>
      have early : (Stage.pulling o head changes).rank < 4 := by simp [Stage.rank]
      change (t.afterPull w o head changes reply).value = _ at h
      unfold afterPull at h
      split at h
      · cases h
        exact failed (Nat.ne_of_lt early) Failure.noConfusion
      · obtain ⟨hon, rfl⟩ := enterLocal_eq_ended h
        exact .cancelled hon early
  | processing o head changes =>
      change (afterProcess w o head reply).value = _ at h
      unfold afterProcess at h
      split at h
      · cases h
        exact .failed Failure.noConfusion fun _ => ⟨_, rfl⟩
      · split at h
        · cases h
          exact .crashed
        · cases h
  | saving o head output updated =>
      rcases afterSave_eq_ended h with ⟨f, rfl⟩ | rfl | ⟨detail, rfl⟩
      · exact failed (by simp [Stage.rank]) Failure.noConfusion
      · exact .reported (.inr ⟨o, head, output, updated, rfl, rfl, rfl, rfl⟩) (by simp [Stage.rank])
      · exact .crashed

theorem reports_of_resume {s : Stage} {reply : s.Reply} {report : Report}
    (h : (t.resume w s reply).value = .ended (.reported report)) : s.Reports report := by
  cases ends_of_resume h with
  | reported hreports => exact hreports

theorem resume_of_follows {threshold : UInt64} {s : Stage} {reply : s.Reply}
    (h : s.Follows threshold reply next) (repository : String) (listener : Listener) :
    ∃ stamp, ((⟨repository, threshold, listener⟩ : UpdateTask).resume ⟨false, stamp, 0⟩ s
      reply).value = .waits next := by
  cases h with
  | resolving hbase haddress =>
      exact ⟨.ofEpoch 0 0, by simp [resume, afterLoad, hbase, haddress, enterRemote, Traced.quiet]⟩
  | comparing hnew =>
      exact ⟨.ofEpoch 0 0, by simp [resume, afterHead, hnew, enterRemote, Traced.quiet]⟩
  | pulling hfew hcomplete =>
      have hfew := Nat.not_lt.2 hfew
      exact ⟨.ofEpoch 0 0,
        by simp [resume, afterCompare, hfew, hcomplete, enterLocal, Traced.quiet]⟩
  | processing => exact ⟨.ofEpoch 0 0, by simp [resume, afterPull, enterLocal, Traced.quiet]⟩
  | @saving o head changes output stamp updated happlied =>
      exact ⟨stamp, by simp [resume, afterProcess, happlied, Traced.quiet]⟩

end UpdateTask

namespace Run

@[simp] theorem repository_goTo (r : Run) (p : Progress) : (r.goTo p).repository = r.repository := by
  cases p <;> rfl

@[simp] theorem cancelled_goTo (r : Run) (p : Progress) : (r.goTo p).cancelled = r.cancelled := by
  cases p <;> rfl

@[simp] theorem permit_goTo (r : Run) (p : Progress) : (r.goTo p).permit = r.permit := by
  cases p <;> rfl

theorem begin?_cases {r q : Run} (h : r.begin? = some q) :
    r.state = .admitted ∧ q = r.goTo (.waits .loading) := by
  unfold begin? at h
  split at h
  · next hs => cases h; exact ⟨hs, rfl⟩
  · cases h

theorem answer?_cases {r : Run} {threshold : UInt64} {listener : Listener} {stamp : Timestamp}
    {elapsedMs : UInt64} {reply : (s : Stage) → s.Reply} {t : Traced Run}
    (h : r.answer? threshold listener stamp elapsedMs reply = some t) :
    ∃ s, r.state = .waits s ∧ t.value = r.goTo
      ((r.task threshold listener).resume ⟨r.cancelled, stamp, elapsedMs⟩ s (reply s)).value := by
  unfold answer? at h
  split at h
  · next s hs => cases h; exact ⟨s, hs, rfl⟩
  · cases h

theorem interrupt?_cases {r : Run} {t : Traced Run} (h : r.interrupt? = some t) :
    ∃ s, r.state = .waits s ∧ r.cancelled = true ∧ s.isInterruptible = true ∧
      t.value = r.goTo (.ended (.failed .cancelled)) := by
  unfold interrupt? at h
  split at h
  · next s hs =>
      split at h
      · next hc =>
          cases h
          simp only [Bool.and_eq_true] at hc
          exact ⟨s, hs, hc.1, hc.2, rfl⟩
      · cases h
  · cases h

theorem crash?_cases {r r' : Run} {detail : String} (h : r.crash? detail = some r') :
    ∃ s, r.state = .waits s ∧ r' = r.goTo (.ended (.crashed detail)) := by
  unfold crash? at h
  split at h
  · next s hs => cases h; exact ⟨s, hs, rfl⟩
  · cases h

theorem stage?_eq_some {r : Run} {s : Stage} (h : r.stage? = some s) : r.state = .waits s := by
  unfold stage? at h
  split at h
  · next hs => cases h; exact hs
  · cases h

theorem isLive_of_waits {r : Run} {s : Stage} (h : r.state = .waits s) : r.isLive = true := by
  simp [isLive, h]

end Run

end IndexRefresh
