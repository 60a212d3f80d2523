import IndexRefresh.Proofs.Update.Exits

namespace IndexRefresh

theorem Path.of_processed {threshold : UInt64} {answers : List Exchange} {s : Stage} {o : Origin}
    {head : HeadCommit} {changes : Comparison} {output : PipelineOutput}
    (h : Path threshold answers s)
    (hx : ⟨.processing o head changes, (.ok output : Except Fault PipelineOutput)⟩ ∈ answers) :
    ∃ stamp updated, s = .saving o head output updated ∧
      UpdateTask.applied? o.snapshot head.sha output stamp = some updated := by
  have hrank : 4 < s.rank := h.rank_lt hx
  cases s with
  | saving o' head' output' updated =>
      obtain ⟨changes', stamp, rfl, -, -, -, happlied⟩ := h.of_saving
      simp only [List.mem_cons, List.not_mem_nil, or_false] at hx
      rcases hx with hx | hx | hx | hx | hx
      all_goals cases hx
      exact ⟨stamp, updated, rfl, happlied⟩
  | _ => simp [Stage.rank] at hrank

namespace Course

variable {σ : Type} {repository : String} {threshold : UInt64} {store : σ} {c : Course σ}
  {o : Origin} {head : HeadCommit} {changes : Comparison} {output : PipelineOutput}

/-- What became of a run whose pipeline succeeded: either its sums fit and it saves, or it crashed
before. -/
inductive Recorded (store : σ) (c : Course σ) (o : Origin) (head : HeadCommit)
    (output : PipelineOutput) : Prop where
  | saved {stamp : Timestamp} {updated : Snapshot} (hsave : Call.save updated ∈ c.calls)
      (honly : ∀ u, Call.save u ∈ c.calls → u = updated)
      (happlied : UpdateTask.applied? o.snapshot head.sha output stamp = some updated)
  | crashed {stamp : Timestamp} (hsave : ∀ u, Call.save u ∉ c.calls)
      (hstate : c.run.state = .ended (.crashed overflowText)) (hstore : c.store = store)
      (hnone : UpdateTask.applied? o.snapshot head.sha output stamp = none)

theorem recorded_of_path {answers : List Exchange} {s : Stage} (hpath : Path threshold answers s)
    (hcalls : c.calls = callsTo repository answers s)
    (hx : ⟨.processing o head changes, (.ok output : Except Fault PipelineOutput)⟩ ∈ answers) :
    Recorded store c o head output := by
  obtain ⟨stamp, updated, rfl, happlied⟩ := hpath.of_processed hx
  apply Recorded.saved _ _ happlied
  · rw [hcalls]
    exact List.mem_append_right _ (List.mem_singleton_self _)
  · intro u hu
    rw [hcalls] at hu
    cases save_mem_callsTo hpath hu
    rfl

theorem Sound.recorded (h : c.Sound repository threshold store)
    (hx : ⟨.processing o head changes, (.ok output : Except Fault PipelineOutput)⟩ ∈ c.answers) :
    Recorded store c o head output := by
  cases h with
  | admitted => cases hx
  | waits hpath => exact recorded_of_path hpath rfl hx
  | stopped hpath => exact recorded_of_path hpath rfl hx
  | @answered cancelled permit answers s reply now e listener w hpath hstore hend =>
      rcases List.mem_append.1 hx with hx | hx
      · exact recorded_of_path hpath rfl hx
      · cases List.mem_singleton.1 hx
        cases happlied : UpdateTask.applied? o.snapshot head.sha output w.stamp with
        | some updated =>
            simp [UpdateTask.resume, UpdateTask.afterProcess, happlied, Traced.quiet] at hend
        | none =>
            simp only [UpdateTask.resume, UpdateTask.afterProcess, happlied, Traced.value_quiet,
              Progress.ended.injEq] at hend
            apply Recorded.crashed _ (congrArg RunState.ended hend.symm) _ happlied
            · intro u hu
              cases save_mem_callsTo hpath hu
            · exact hstore (by simp [Stage.rank])

theorem exists_processed (ho : o.Known) (hnew : head.sha ≠ o.base)
    (hchanges : changes.Accepted threshold) (output : PipelineOutput) :
    ∃ c : Course σ, Reached repository threshold store c ∧
      ⟨.processing o head changes, (.ok output : Except Fault PipelineOutput)⟩ ∈ c.answers := by
  have processing : Reached repository threshold store _ :=
    reached_of_path (Path.to_processing ho hnew hchanges) none
  have processed := processing.step
    (@Step.answer _ _ _ _ (Stage.replyTo (.processing o head changes) (.ok output)) false .silent
      (.ofEpoch 0 0) 0 _ rfl rfl rfl)
  exact ⟨_, processed, List.mem_append_right _ (by simp [Stage.replyTo])⟩

/-- A run whose pipeline succeeded goes on to save the new commit exactly when the sums fit into 64
bits; else it crashes, and the old commit stays stored. -/
theorem saves_iff_fits (h : Reached repository threshold store c)
    (hx : ⟨.processing o head changes, (.ok output : Except Fault PipelineOutput)⟩ ∈ c.answers) :
    ((∃ u, Call.save u ∈ c.calls) ↔ Fits o.snapshot output) ∧
    (∀ u, Call.save u ∈ c.calls → u.indexedSha = some head.sha ∧
      ∃ stamp, AppliedTo o.snapshot head.sha output stamp u) ∧
    (¬Fits o.snapshot output → c.run.state = .ended (.crashed overflowText) ∧ c.store = store) := by
  cases h.sound.recorded hx with
  | @saved stamp updated hsave honly happlied =>
      have hfits : Fits o.snapshot output := by
        rw [← applied?_isSome_iff, happlied]
        rfl
      refine ⟨⟨fun _ => hfits, fun _ => ⟨updated, hsave⟩⟩, ?_, fun hover => absurd hfits hover⟩
      intro u hu
      rw [honly u hu]
      have hrecord := appliedTo_of_applied? happlied
      exact ⟨hrecord.indexedSha, stamp, hrecord⟩
  | crashed hsave hstate hstore hnone =>
      have hover : ¬Fits o.snapshot output := by
        rw [← applied?_isSome_iff, hnone]
        exact Bool.false_ne_true
      refine ⟨⟨?_, fun hfits => absurd hfits hover⟩, ?_, fun _ => ⟨hstate, hstore⟩⟩
      · rintro ⟨u, hu⟩
        exact absurd hu (hsave u)
      · intro u hu
        exact absurd hu (hsave u)

theorem saves_iff_fits_up_to_limit :
    ∃ (c : Course Unit) (o : Origin) (head : HeadCommit) (changes : Comparison)
      (output : PipelineOutput),
      Reached "a" 10 () c ∧
      ⟨.processing o head changes, (.ok output : Except Fault PipelineOutput)⟩ ∈ c.answers ∧
      o.snapshot.chunkCount.toNat + output.stats.chunksUpserted.toNat + 1 = UInt64.size ∧
      ∃ u, Call.save u ∈ c.calls ∧ u.indexedSha = some head.sha := by
  let o : Origin := ⟨{ Snapshot.fresh "a" "https://host/owner/repo" "main" "/work" with
    indexedSha := some "old", chunkCount := 1 }, "old", ⟨"owner", "repo"⟩⟩
  let head : HeadCommit := ⟨"new", "message"⟩
  let changes : Comparison := ⟨"old", "new", 1, [.plain "file" .added], false⟩
  let output : PipelineOutput := ⟨{ Stats.zero with chunksUpserted := 18446744073709551614 }, []⟩
  have haddress : Address.ofUrl? "https://host/owner/repo" = some ⟨"owner", "repo"⟩ := rfl
  have ho : o.Known := ⟨rfl, haddress⟩
  have hchanges : changes.Accepted 10 := ⟨by decide, rfl⟩
  obtain ⟨c, processed, hx⟩ : ∃ c : Course Unit, Reached "a" 10 () c ∧
      ⟨.processing o head changes, (.ok output : Except Fault PipelineOutput)⟩ ∈ c.answers :=
    exists_processed ho (by decide) hchanges output
  obtain ⟨hiff, hsaved, -⟩ := saves_iff_fits processed hx
  obtain ⟨u, hu⟩ := hiff.2 (by decide)
  exact ⟨c, o, head, changes, output, processed, hx, by decide, u, hu, (hsaved u hu).1⟩

/-- With one chunk more the pipeline has applied the new commit, but the run crashes and never saves
it. -/
theorem no_save_past_limit :
    ∃ (c : Course Unit) (o : Origin) (head : HeadCommit) (changes : Comparison)
      (output : PipelineOutput),
      Reached "a" 10 () c ∧
      ⟨.processing o head changes, (.ok output : Except Fault PipelineOutput)⟩ ∈ c.answers ∧
      o.snapshot.chunkCount = 1 ∧ output.stats.chunksUpserted = 18446744073709551615 ∧
      c.run.state = .ended (.crashed "attempt to add with overflow") ∧
      ∀ u, Call.save u ∉ c.calls := by
  let o : Origin := ⟨{ Snapshot.fresh "a" "https://host/owner/repo" "main" "/work" with
    indexedSha := some "old", chunkCount := 1 }, "old", ⟨"owner", "repo"⟩⟩
  let head : HeadCommit := ⟨"new", "message"⟩
  let changes : Comparison := ⟨"old", "new", 1, [.plain "file" .added], false⟩
  let output : PipelineOutput := ⟨{ Stats.zero with chunksUpserted := 18446744073709551615 }, []⟩
  have haddress : Address.ofUrl? "https://host/owner/repo" = some ⟨"owner", "repo"⟩ := rfl
  have ho : o.Known := ⟨rfl, haddress⟩
  have hchanges : changes.Accepted 10 := ⟨by decide, rfl⟩
  obtain ⟨c, processed, hx⟩ : ∃ c : Course Unit, Reached "a" 10 () c ∧
      ⟨.processing o head changes, (.ok output : Except Fault PipelineOutput)⟩ ∈ c.answers :=
    exists_processed ho (by decide) hchanges output
  refine ⟨c, o, head, changes, output, processed, hx, rfl, rfl, ?_⟩
  cases processed.sound.recorded hx with
  | saved _ _ happlied =>
      have hfits : Fits o.snapshot output := by
        rw [← applied?_isSome_iff, happlied]
        rfl
      exact absurd hfits (by decide)
  | crashed hsave hstate => exact ⟨hstate, hsave⟩

end Course

end IndexRefresh
