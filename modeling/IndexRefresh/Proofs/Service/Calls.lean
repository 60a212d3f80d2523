import IndexRefresh.Proofs.Service.Replay

namespace IndexRefresh

inductive Ventured (repository : String) (threshold : UInt64) : List Call → RunState → Prop where
  | admitted : Ventured repository threshold [] .admitted
  | waits {answers : List Exchange} {st : Stage} (hpath : Path threshold answers st) :
      Ventured repository threshold (callsTo repository answers st) (.waits st)
  | ended {answers : List Exchange} {st : Stage} {e : Ending} (hpath : Path threshold answers st)
      (he : st.rank = 4 → (∃ f, e = .failed (.pipeline f)) ∨ ∃ detail, e = .crashed detail) :
      Ventured repository threshold (callsTo repository answers st) (.ended e)
  | dropped {detail : String} : Ventured repository threshold [] (.ended (.crashed detail))

theorem Ventured.stop {repository : String} {threshold : UInt64} {calls : List Call} {st : Stage}
    {e : Ending} (h : Ventured repository threshold calls (.waits st))
    (he : st.rank = 4 → (∃ f, e = .failed (.pipeline f)) ∨ ∃ detail, e = .crashed detail) :
    Ventured repository threshold calls (.ended e) := by
  cases h with
  | waits hpath => exact .ended hpath he

inductive Committed (repository : String) (calls : List Call) (options : PipelineOptions)
    (files : List ChangedFile) : RunState → Prop where
  | processing {o : Origin} {head : HeadCommit} {changes : Comparison}
      (hcall : (Stage.processing o head changes).call repository = .process options files) :
      Committed repository calls options files (.waits (.processing o head changes))
  | saved {state : RunState} {u : Snapshot} (hu : Call.save u ∈ calls)
      (hsha : u.indexedSha = some options.headSha) : Committed repository calls options files state
  | failed {f : Fault} : Committed repository calls options files (.ended (.failed (.pipeline f)))
  | crashed {detail : String} : Committed repository calls options files (.ended (.crashed detail))

section

variable {repository : String} {threshold : UInt64} {calls : List Call} {state : RunState}
  {st : Stage} {answers : List Exchange} {options : PipelineOptions} {files : List ChangedFile}

theorem exists_process_mem_callsTo (h : Path threshold answers st) (hst : 4 ≤ st.rank) :
    ∃ options files, Call.process options files ∈ callsTo repository answers st := by
  cases st with
  | processing o head changes => exact ⟨_, _, List.mem_append_right _ (List.mem_singleton_self _)⟩
  | saving o head output updated =>
      obtain ⟨changes, stamp, rfl, -⟩ := h.of_saving
      refine ⟨⟨repository, o.snapshot.localPath, o.base, head.sha⟩, changes.files, ?_⟩
      simp [callsTo, Stage.call]
  | _ => simp [Stage.rank] at hst

theorem Ventured.process_mem_iff (h : Ventured repository threshold calls (.waits st)) :
    (∃ options files, Call.process options files ∈ calls) ↔ 4 ≤ st.rank := by
  cases h with
  | waits hpath =>
      constructor
      · rintro ⟨options, files, hmem⟩
        exact Course.rank_of_process_mem hpath hmem
      · exact exists_process_mem_callsTo hpath

theorem committed_of_path (h : Path threshold answers st)
    (hmem : Call.process options files ∈ callsTo repository answers st) :
    (∃ o head changes, st = .processing o head changes ∧
        st.call repository = .process options files) ∨
      ∃ u, Call.save u ∈ callsTo repository answers st ∧ u.indexedSha = some options.headSha := by
  have hrank := Course.rank_of_process_mem h hmem
  cases st with
  | processing o head changes =>
      obtain ⟨rfl, -⟩ := h.of_processing
      refine .inl ⟨o, head, changes, rfl, ?_⟩
      simpa [callsTo, Stage.call, eq_comm] using hmem
  | saving o head output updated =>
      obtain ⟨changes, stamp, rfl, -, -, -, happlied⟩ := h.of_saving
      refine .inr ⟨updated, List.mem_append_right _ (List.mem_singleton_self _), ?_⟩
      have hoptions : options = ⟨repository, o.snapshot.localPath, o.base, head.sha⟩ ∧
          files = changes.files := by
        simpa [callsTo, Stage.call] using hmem
      rw [(appliedTo_of_applied? happlied).indexedSha, hoptions.1]
  | _ => simp [Stage.rank] at hrank

theorem Ventured.committed (h : Ventured repository threshold calls state)
    (hmem : Call.process options files ∈ calls) :
    Committed repository calls options files state := by
  cases h with
  | admitted => cases hmem
  | waits hpath =>
      rcases committed_of_path hpath hmem with ⟨o, head, changes, rfl, hcall⟩ | ⟨u, hu, hsha⟩
      · exact .processing hcall
      · exact .saved hu hsha
  | ended hpath he =>
      rcases committed_of_path hpath hmem with ⟨o, head, changes, rfl, hcall⟩ | ⟨u, hu, hsha⟩
      · rcases he rfl with ⟨f, rfl⟩ | ⟨detail, rfl⟩
        · exact .failed
        · exact .crashed
      · exact .saved hu hsha
  | dropped => cases hmem

end

namespace Service

def Transition.call? (x : Transition) (i : Nat) : Option Call := do
  let r ← x.target.runs[i]?
  let st ← r.stage?
  if x.source.runs[i]?.bind Run.stage? = some st then none else some (st.call r.repository)

def callsOf (i : Nat) (log : List Transition) : List Call :=
  log.filterMap (·.call? i)

variable {limits : Limits} {threshold : UInt64} {log : List Transition} {s t : Service} {d : Deed}
  {i : Nat} {w : Work} {r q : Run} {calls : List Call} {repository : String}

theorem callsOf_append_singleton (i : Nat) (log : List Transition) (x : Transition) :
    callsOf i (log ++ [x]) = callsOf i log ++ (x.call? i).toList := by
  unfold callsOf
  rw [List.filterMap_append]
  cases h : x.call? i <;> simp [h]

theorem call?_of_not_waits (hq : t.runs[i]? = some q) (hst : q.stage? = none) :
    (⟨s, d, t⟩ : Transition).call? i = none := by
  simp [Transition.call?, hq, hst]

theorem call?_of_same (hr : s.runs[i]? = some r) (hq : t.runs[i]? = some q)
    (hst : q.stage? = r.stage?) : (⟨s, d, t⟩ : Transition).call? i = none := by
  cases hstage : r.stage? with
  | none => exact call?_of_not_waits hq (hst.trans hstage)
  | some st => simp [Transition.call?, hr, hq, hst, hstage]

theorem call?_of_waits {st : Stage} (hr : s.runs[i]? = some r) (hq : t.runs[i]? = some q)
    (hst : q.state = .waits st) (hne : r.stage? ≠ some st) :
    (⟨s, d, t⟩ : Transition).call? i = some (st.call q.repository) := by
  simp [Transition.call?, hr, hq, Run.stage?, hst] at hne ⊢
  exact hne

theorem Turn.ventured {permit : Option Permit} (h : s.Turn i r t w q) (hr : s.runs[i]? = some r)
    (hlive : r.isLive = true) (hq : t.runs[i]? = some { q with permit := permit })
    (hv : Ventured r.repository s.threshold calls r.state) :
    Ventured q.repository s.threshold (calls ++ ((⟨s, d, t⟩ : Transition).call? i).toList)
      q.state := by
  obtain ⟨hrepository, -⟩ := h.same
  rw [hrepository]
  have ended {e : Ending} (hend : q.state = .ended e)
      (hv : Ventured r.repository s.threshold calls (.ended e)) :
      Ventured r.repository s.threshold (calls ++ ((⟨s, d, t⟩ : Transition).call? i).toList)
        q.state := by
    rw [call?_of_not_waits hq (by simp [Run.stage?, hend]), hend, Option.toList_none,
      List.append_nil]
    exact hv
  cases h with
  | begin hs =>
      rw [hs] at hv
      cases hv
      rw [call?_of_waits hr hq rfl (by simp [Run.stage?, hs])]
      exact .waits .loading
  | @answer m listener elapsedMs reply x st hst hx ht =>
      rw [hst] at hv
      cases hp : ((r.task s.threshold listener).resume ⟨r.cancelled, m.stamp, elapsedMs⟩ st
          (reply st)).value with
      | waits next =>
          have hfollows : st.Follows s.threshold (reply st) next := UpdateTask.follows_of_resume hp
          have hne : r.stage? ≠ some next := by
            have hrank := hfollows.rank_eq
            intro heq
            obtain rfl : st = next := by simpa [Run.stage?, hst] using heq
            omega
          cases hv with
          | waits hpath =>
              rw [hp] at hq
              rw [call?_of_waits hr hq rfl hne]
              simpa [callsTo, Run.goTo] using Ventured.waits (hpath.next hfollows)
      | ended e =>
          rw [hp] at ended
          refine ended rfl (hv.stop fun hrank => ?_)
          cases UpdateTask.ends_of_resume hp with
          | reported _ hs => exact absurd hrank hs
          | failed _ hlate =>
              obtain ⟨fault, rfl⟩ := hlate hrank
              exact .inl ⟨fault, rfl⟩
          | cancelled _ hearly => omega
          | crashed => exact .inr ⟨_, rfl⟩
  | @interrupt st hst hon hopen =>
      rw [hst] at hv
      refine ended rfl (hv.stop fun hrank => ?_)
      rw [Course.isInterruptible_of_late (Nat.le_of_eq hrank.symm)] at hopen
      cases hopen
  | crash hst =>
      rw [hst] at hv
      exact ended rfl (hv.stop fun _ => .inr ⟨_, rfl⟩)
  | drop =>
      refine ended rfl ?_
      cases hs : r.state with
      | admitted =>
          rw [hs] at hv
          cases hv
          exact .dropped
      | waits st =>
          rw [hs] at hv
          exact hv.stop fun _ => .inr ⟨_, rfl⟩
      | ended e => simp [Run.isLive, hs] at hlive

theorem Recorded.ventured (h : Recorded limits threshold log s) :
    (s.runs[i]? = none → callsOf i log = []) ∧
      ∀ r, s.runs[i]? = some r → Ventured r.repository threshold (callsOf i log) r.state := by
  induction h with
  | new => exact ⟨fun _ => rfl, by simp [Service.new]⟩
  | @step log s t d h hs ih =>
      constructor
      · intro hnone
        have hle := hs.effect.length_le
        have hbefore : s.runs[i]? = none := by
          rw [List.getElem?_eq_none_iff] at hnone ⊢
          omega
        rw [callsOf_append_singleton, ih.1 hbefore]
        simp [Transition.call?, hnone]
      · intro q hq
        rw [callsOf_append_singleton]
        cases hs.ran hq with
        | new hi =>
            rw [ih.1 hi, call?_of_not_waits hq rfl]
            exact .admitted
        | kept hr =>
            rw [call?_of_same hr hq rfl, Option.toList_none, List.append_nil]
            exact ih.2 q hr
        | @expired r hr =>
            rw [call?_of_same hr hq rfl, Option.toList_none, List.append_nil]
            exact ih.2 r hr
        | @turned r q w permit hr hlive hturn =>
            have hv := ih.2 r hr
            rw [← h.threshold_eq] at hv ⊢
            exact hturn.ventured hr hlive hq hv

end Service

end IndexRefresh
