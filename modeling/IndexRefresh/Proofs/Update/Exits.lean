import IndexRefresh.Proofs.Update.Itinerary

namespace IndexRefresh

instance (s : Snapshot) (output : PipelineOutput) : Decidable (Fits s output) :=
  decidable_of_iff
    (s.updateCount.toNat + 1 < UInt64.size ∧
      s.fileCount.toNat + output.stats.filesAdded.toNat < UInt64.size ∧
      s.chunkCount.toNat + output.stats.chunksUpserted.toNat < UInt64.size)
    ⟨fun h => ⟨h.1, h.2.1, h.2.2⟩, fun h => ⟨h.updates, h.files, h.chunks⟩⟩

structure Replies where
  load : Except Fault (Option Snapshot)
  head : Except Fault HeadCommit
  compare : Except Fault Comparison
  pull : Except Fault Unit
  process : Except Fault PipelineOutput
  save : Except Fault Unit

namespace Replies

def reply (a : Replies) : (s : Stage) → s.Reply
  | .loading => a.load
  | .resolving _ => a.head
  | .comparing _ _ => a.compare
  | .pulling _ _ _ => a.pull
  | .processing _ _ _ => a.process
  | .saving _ _ _ _ => a.save

variable {a : Replies} {t : UpdateTask} {w : Surroundings} {e : Ending} {o : Origin}
  {head : HeadCommit} {changes : Comparison}

end Replies

theorem Path.rank_lt {threshold : UInt64} {answers : List Exchange} {s : Stage}
    (h : Path threshold answers s) {x : Exchange} (hx : x ∈ answers) : x.stage.rank < s.rank := by
  induction h with
  | loading => cases hx
  | @next answers s t reply h hs ih =>
      have hrank := hs.rank_eq
      rcases List.mem_append.1 hx with hx | hx
      · have := ih hx
        omega
      · rw [List.mem_singleton.1 hx]
        dsimp only
        omega

namespace Course

variable {σ : Type} {repository : String} {threshold : UInt64} {store : σ} {c : Course σ}

theorem exists_mem_callsTo {answers : List Exchange} {s : Stage} (h : 4 < s.rank) :
    ∃ u, Call.save u ∈ callsTo repository answers s := by
  cases s with
  | saving o head output updated =>
      exact ⟨updated, List.mem_append_right _ (List.mem_singleton_self _)⟩
  | _ => simp [Stage.rank] at h

theorem Sound.saves (h : c.Sound repository threshold store) {o : Origin} {head : HeadCommit}
    {changes : Comparison} {output : PipelineOutput}
    (hx : ⟨.processing o head changes, (.ok output : Except Fault PipelineOutput)⟩ ∈ c.answers)
    (hfits : Fits o.snapshot output) : ∃ u, Call.save u ∈ c.calls := by
  cases h with
  | admitted => cases hx
  | waits hpath => exact exists_mem_callsTo (hpath.rank_lt hx)
  | stopped hpath => exact exists_mem_callsTo (hpath.rank_lt hx)
  | @answered cancelled permit answers s reply now e listener w hpath _ hend =>
      rcases List.mem_append.1 hx with hx | hx
      · exact exists_mem_callsTo (hpath.rank_lt hx)
      · cases List.mem_singleton.1 hx
        have happlied : (UpdateTask.applied? o.snapshot head.sha output w.stamp).isSome = true :=
          applied?_isSome_iff.2 hfits
        obtain ⟨updated, hupdated⟩ := Option.isSome_iff_exists.1 happlied
        simp [UpdateTask.resume, UpdateTask.afterProcess, hupdated, Traced.quiet] at hend

theorem stage_of_mem_callsTo {answers : List Exchange} {s : Stage} {call : Call}
    (hpath : Path threshold answers s) (h : call ∈ callsTo repository answers s) :
    ∃ t : Stage, t.call repository = call ∧ (t = s ∨ t.rank < s.rank) := by
  rcases List.mem_append.1 h with h | h
  · obtain ⟨x, hx, hcall⟩ := List.mem_map.1 h
    exact ⟨x.stage, hcall, .inr (hpath.rank_lt hx)⟩
  · exact ⟨s, (List.mem_singleton.1 h).symm, .inl rfl⟩

theorem save_mem_callsTo {answers : List Exchange} {s : Stage} {u : Snapshot}
    (hpath : Path threshold answers s) (hu : Call.save u ∈ callsTo repository answers s) :
    s.call repository = .save u := by
  obtain ⟨t, hcall, rfl | hrank⟩ := stage_of_mem_callsTo hpath hu
  · exact hcall
  · cases t with
    | saving => cases s <;> simp [Stage.rank] at hrank
    | _ => cases hcall

theorem callsTo_save {answers : List Exchange} {s : Stage} {u : Snapshot}
    (hpath : Path threshold answers s) (hu : Call.save u ∈ callsTo repository answers s) :
    ∃ o head changes output stamp,
      ⟨.loading, (.ok (some o.snapshot) : Except Fault (Option Snapshot))⟩ ∈ answers ∧
      ⟨.resolving o, (.ok head : Except Fault HeadCommit)⟩ ∈ answers ∧
      ⟨.processing o head changes, (.ok output : Except Fault PipelineOutput)⟩ ∈ answers ∧
      AppliedTo o.snapshot head.sha output stamp u := by
  have hcall := save_mem_callsTo hpath hu
  cases s with
  | saving o head output updated =>
      cases hcall
      obtain ⟨changes, stamp, rfl, -, -, -, happlied⟩ := hpath.of_saving
      exact ⟨o, head, changes, output, stamp, by simp, by simp, by simp,
        appliedTo_of_applied? happlied⟩
  | _ => cases hcall

theorem Sound.saved (h : c.Sound repository threshold store) {u : Snapshot}
    (hu : Call.save u ∈ c.calls) :
    ∃ o head changes output stamp,
      ⟨.loading, (.ok (some o.snapshot) : Except Fault (Option Snapshot))⟩ ∈ c.answers ∧
      ⟨.resolving o, (.ok head : Except Fault HeadCommit)⟩ ∈ c.answers ∧
      ⟨.processing o head changes, (.ok output : Except Fault PipelineOutput)⟩ ∈ c.answers ∧
      AppliedTo o.snapshot head.sha output stamp u := by
  cases h with
  | admitted => cases hu
  | waits hpath => exact callsTo_save hpath hu
  | stopped hpath => exact callsTo_save hpath hu
  | answered hpath =>
      obtain ⟨o, head, changes, output, stamp, hload, hhead, hprocess, happlied⟩ :=
        callsTo_save hpath hu
      exact ⟨o, head, changes, output, stamp, List.mem_append_left _ hload,
        List.mem_append_left _ hhead, List.mem_append_left _ hprocess, happlied⟩

end Course

end IndexRefresh
