import IndexRefresh.Proofs.Service.Permits
import IndexRefresh.Proofs.Service.Runs
import IndexRefresh.Store.Memory

namespace IndexRefresh

structure Write where
  run : Nat
  repository : String
  headSha : String
  output : PipelineOutput

def Write.Of (x : Write) (report : Report) : Prop :=
  x.headSha = report.commitSha ∧ x.output.stats = report.stats ∧ x.output.errors = report.errors

/-- What the runs of a repository change in its snapshot, in numbers without a bound. -/
structure Tally where
  indexedSha : Option String
  updates : Nat
  files : Nat
  chunks : Nat

def Snapshot.tally (s : Snapshot) : Tally :=
  ⟨s.indexedSha, s.updateCount.toNat, s.fileCount.toNat, s.chunkCount.toNat⟩

def Tally.after (t : Tally) (x : Write) : Tally where
  indexedSha := some x.headSha
  updates := t.updates + 1
  files := t.files + x.output.stats.filesAdded.toNat - x.output.stats.filesDeleted.toNat
  chunks := t.chunks + x.output.stats.chunksUpserted.toNat - x.output.stats.chunksDeleted.toNat

theorem tally_of_appliedTo {s updated : Snapshot} {headSha : String} {output : PipelineOutput}
    {stamp : Timestamp} (h : AppliedTo s headSha output stamp updated) (run : Nat)
    (repository : String) :
    updated.tally = s.tally.after ⟨run, repository, headSha, output⟩ := by
  simp only [Snapshot.tally, Tally.after, h.indexedSha, h.updateCount, h.fileCount, h.chunkCount]

inductive Folded (first : Option Snapshot) : List Write → Option Snapshot → Prop where
  | nil : Folded first [] first
  | snoc {xs : List Write} {x : Write} {s updated : Snapshot} {stamp : Timestamp}
      (h : Folded first xs (some s))
      (happlied : UpdateTask.applied? s x.headSha x.output stamp = some updated) :
      Folded first (xs ++ [x]) (some updated)

theorem Folded.tally {first last : Option Snapshot} {xs : List Write} (h : Folded first xs last) :
    last.map Snapshot.tally = first.map fun s => xs.foldl Tally.after s.tally := by
  induction h with
  | nil => rfl
  | @snoc xs x s updated stamp _ happlied ih =>
      have hafter := tally_of_appliedTo (appliedTo_of_applied? happlied) x.run x.repository
      cases first with
      | none => cases ih
      | some first =>
          have hbefore : s.tally = xs.foldl Tally.after first.tally := Option.some.inj ih
          rw [Option.map_some, Option.map_some, List.foldl_append, ← hbefore, hafter]
          rfl

def writesOf (name : String) (writes : List Write) : List Write :=
  writes.filter fun x => x.repository = name

/-- What is stored is what was stored first with all writes applied to it, each to the entry of its
repository. -/
def Accounted (initial now : MemoryStore) (writes : List Write) : Prop :=
  ∀ name, Folded (initial.get? name) (writesOf name writes) (now.get? name)

def MemoryStore.Named (s : MemoryStore) : Prop :=
  ∀ name snapshot, s.get? name = some snapshot → snapshot.name = name

theorem MemoryStore.Named.put {store : MemoryStore} (h : store.Named) (snapshot : Snapshot) :
    (store.put snapshot).Named := by
  intro name s hs
  unfold MemoryStore.put at hs
  rw [Table.get?_insert] at hs
  split at hs
  · next heq =>
      cases hs
      exact heq.symm
  · exact h name s hs

theorem MemoryStore.named_ofSnapshots (snapshots : List Snapshot) :
    (MemoryStore.ofSnapshots snapshots).Named := by
  have hfold : ∀ store : MemoryStore, store.Named → (snapshots.foldl put store).Named := by
    induction snapshots with
    | nil => exact fun _ h => h
    | cons s snapshots ih => exact fun store h => ih _ (h.put s)
  refine hfold Table.empty fun name s hs => ?_
  rw [Table.get?_empty] at hs
  cases hs

theorem accounted_nil (initial : MemoryStore) : Accounted initial initial [] :=
  fun _ => .nil

theorem Accounted.put {initial now : MemoryStore} {writes : List Write}
    (h : Accounted initial now writes) {x : Write} {s updated : Snapshot} {stamp : Timestamp}
    (hs : now.get? x.repository = some s) (hupdated : updated.name = x.repository)
    (happlied : UpdateTask.applied? s x.headSha x.output stamp = some updated) :
    Accounted initial (now.put updated) (writes ++ [x]) := by
  intro name
  have hbefore := h name
  unfold MemoryStore.put
  rw [Table.get?_insert, hupdated]
  split
  · next heq =>
      have hwrites : writesOf name (writes ++ [x]) = writesOf name writes ++ [x] := by
        simp [writesOf, heq]
      rw [heq, hs, ← heq] at hbefore
      rw [hwrites]
      exact .snoc hbefore happlied
  · next hne =>
      have hwrites : writesOf name (writes ++ [x]) = writesOf name writes := by
        have hne : ¬x.repository = name := fun heq => hne heq.symm
        simp [writesOf, hne]
      rw [hwrites]
      exact hbefore

namespace Stage

def origin? : Stage → Option Origin
  | .loading => none
  | .resolving o => some o
  | .comparing o _ => some o
  | .pulling o _ _ => some o
  | .processing o _ _ => some o
  | .saving o _ _ _ => some o

def callsStore : Stage → Bool
  | .loading => true
  | .saving _ _ _ _ => true
  | _ => false

theorem Follows.origin?_eq {threshold : UInt64} {s t : Stage} {reply : s.Reply}
    (h : s.Follows threshold reply t) (hs : s.callsStore = false) : t.origin? = s.origin? := by
  cases h with
  | resolving => cases hs
  | _ => rfl

end Stage

def Deed.answersStore : Deed → Bool
  | .work _ (.answer s) => s.callsStore
  | _ => false

structure MemoryWorld where
  service : Service
  store : MemoryStore
  writes : List Write

namespace MemoryWorld

inductive Step (w : MemoryWorld) : MemoryWorld → Prop where
  | serve {d : Deed} {t : Service} (h : Service.Step w.service d t) (hd : d.answersStore = false) :
      Step w { w with service := t }
  | load {m : Moment} {listener : Listener} {elapsedMs : UInt64} {i : Nat} {r : Run}
      {x : Traced Service} (hr : w.service.runs[i]? = some r) (hstate : r.state = .waits .loading)
      (h : w.service.answerRun? m listener elapsedMs i
        (Stage.replyTo .loading (.ok (w.store.get? r.repository))) = some x) :
      Step w { w with service := x.value }
  | save {i : Nat} {r : Run} {o : Origin} {head : HeadCommit} {output : PipelineOutput}
      {updated : Snapshot} (hr : w.service.runs[i]? = some r)
      (hstate : r.state = .waits (.saving o head output updated))
      (hfresh : ∀ x ∈ w.writes, x.run ≠ i) :
      Step w { w with
        store := w.store.put updated
        writes := w.writes ++ [⟨i, r.repository, head.sha, output⟩] }
  | saved {m : Moment} {listener : Listener} {elapsedMs : UInt64} {i : Nat} {r : Run}
      {o : Origin} {head : HeadCommit} {output : PipelineOutput} {updated : Snapshot}
      {x : Traced Service} (hr : w.service.runs[i]? = some r)
      (hstate : r.state = .waits (.saving o head output updated))
      (hdone : ∃ x ∈ w.writes, x.run = i)
      (h : w.service.answerRun? m listener elapsedMs i
        (Stage.replyTo (.saving o head output updated) (.ok ())) = some x) :
      Step w { w with service := x.value }

inductive Reached (limits : Limits) (threshold : UInt64) (initial : MemoryStore) :
    MemoryWorld → Prop where
  | new : Reached limits threshold initial ⟨.new limits threshold, initial, []⟩
  | step {w v : MemoryWorld} (h : Reached limits threshold initial w) (hs : Step w v) :
      Reached limits threshold initial v

/-- A run that has not written holds what is stored of its repository, once it has loaded it; only a
run that saves can have written, and one that reports an update has. -/
structure RunKept (store : MemoryStore) (writes : List Write) (i : Nat) (r : Run) : Prop where
  fresh : r.isLive = true → (∃ o head output updated, r.state = .waits (.saving o head output updated)) ∨
    ∀ x ∈ writes, x.run ≠ i
  current : ∀ s o, r.state = .waits s → s.origin? = some o → (∀ x ∈ writes, x.run ≠ i) →
    store.get? r.repository = some o.snapshot
  applied : ∀ o head output updated, r.state = .waits (.saving o head output updated) →
    ∃ stamp, UpdateTask.applied? o.snapshot head.sha output stamp = some updated
  logged : ∀ o head output updated, r.state = .waits (.saving o head output updated) →
    ∀ x ∈ writes, x.run = i → x.headSha = head.sha ∧ x.output = output
  reported : ∀ report, r.state = .ended (.reported report) → report.outcome ≠ .noChanges →
    ∃ x ∈ writes, x.run = i ∧ x.Of report

structure Kept (limits : Limits) (threshold : UInt64) (initial : MemoryStore) (w : MemoryWorld) :
    Prop where
  reached : ∃ history, Service.Reached limits threshold history w.service
  named : w.store.Named
  written : ∀ x ∈ w.writes, ∃ r, w.service.runs[x.run]? = some r ∧ r.repository = x.repository
  distinct : (w.writes.map Write.run).Nodup
  runs : ∀ i r, w.service.runs[i]? = some r → RunKept w.store w.writes i r
  accounted : Accounted initial w.store w.writes

variable {limits : Limits} {threshold : UInt64} {initial store : MemoryStore}
  {writes : List Write} {w v : MemoryWorld} {i : Nat} {r q : Run}

theorem RunKept.of_state_eq (h : RunKept store writes i r) (hrepository : q.repository = r.repository)
    (hstate : q.state = r.state) : RunKept store writes i q where
  fresh hlive := by
    rw [hstate]
    exact h.fresh (by simpa [Run.isLive, hstate] using hlive)
  current s o hs := by
    rw [hrepository]
    exact h.current s o (hstate ▸ hs)
  applied o head output updated hs := h.applied o head output updated (hstate ▸ hs)
  logged o head output updated hs := h.logged o head output updated (hstate ▸ hs)
  reported report hs := h.reported report (hstate ▸ hs)

theorem RunKept.of_ended {e : Ending} (hstate : r.state = .ended e)
    (hreported : ∀ report, e = .reported report → report.outcome ≠ .noChanges →
      ∃ x ∈ writes, x.run = i ∧ x.Of report) :
    RunKept store writes i r where
  fresh hlive := by simp [Run.isLive, hstate] at hlive
  current s o hs := by simp [hstate] at hs
  applied o head output updated hs := by simp [hstate] at hs
  logged o head output updated hs := by simp [hstate] at hs
  reported report hs := hreported report (RunState.ended.inj (hstate.symm.trans hs))

theorem RunKept.of_fresh (hlive : r.isLive = true) (hfresh : ∀ x ∈ writes, x.run ≠ i)
    (hcurrent : ∀ s o, r.state = .waits s → s.origin? = some o →
      store.get? r.repository = some o.snapshot)
    (happlied : ∀ o head output updated, r.state = .waits (.saving o head output updated) →
      ∃ stamp, UpdateTask.applied? o.snapshot head.sha output stamp = some updated) :
    RunKept store writes i r where
  fresh _ := .inr hfresh
  current s o hs ho _ := hcurrent s o hs ho
  applied := happlied
  logged _ _ _ _ _ x hx hrun := absurd hrun (hfresh x hx)
  reported report hs := by simp [Run.isLive, hs] at hlive

theorem RunKept.of_admitted (hstate : r.state = .admitted) (hfresh : ∀ x ∈ writes, x.run ≠ i) :
    RunKept store writes i r := by
  refine .of_fresh (by simp [Run.isLive, hstate]) hfresh (fun s o hs => ?_)
    fun o head output updated hs => ?_
  · simp [hstate] at hs
  · simp [hstate] at hs

theorem RunKept.fresh_of_not_saving (h : RunKept store writes i r) (hlive : r.isLive = true)
    (hstate : ∀ o head output updated, r.state ≠ .waits (.saving o head output updated)) :
    ∀ x ∈ writes, x.run ≠ i := by
  rcases h.fresh hlive with ⟨o, head, output, updated, hs⟩ | hfresh
  · exact absurd hs (hstate o head output updated)
  · exact hfresh

theorem RunKept.of_follows {work : Work} (h : RunKept store writes i r)
    (hrepository : q.repository = r.repository)
    (hstate : r.state.Follows threshold work q.state)
    (hstore : Deed.answersStore (.work i work) = false) : RunKept store writes i q := by
  generalize hr : r.state = before at hstate
  generalize hq : q.state = after at hstate
  cases hstate with
  | begin =>
      have hfresh : ∀ x ∈ writes, x.run ≠ i :=
        h.fresh_of_not_saving (by simp [Run.isLive, hr]) (by simp [hr])
      refine .of_fresh (Run.isLive_of_waits hq) hfresh (fun s o hs ho => ?_)
        fun o head output updated hs => ?_
      · cases hq.symm.trans hs
        cases ho
      · simp [hq] at hs
  | @goOn s t reply hfollows =>
      have hstore : s.callsStore = false := hstore
      have hfresh : ∀ x ∈ writes, x.run ≠ i := by
        refine h.fresh_of_not_saving (Run.isLive_of_waits hr) fun o head output updated hs => ?_
        cases hr.symm.trans hs
        cases hstore
      refine .of_fresh (Run.isLive_of_waits hq) hfresh (fun t' o ht ho => ?_)
        fun o head output updated ht => ?_
      · cases hq.symm.trans ht
        rw [hrepository]
        exact h.current s o hr ((hfollows.origin?_eq hstore).symm.trans ho) hfresh
      · cases hq.symm.trans ht
        cases hfollows with
        | saving happlied => exact ⟨_, happlied⟩
  | @conclude s e he =>
      have hstore : s.callsStore = false := hstore
      refine .of_ended hq fun report hreport houtcome => ?_
      rcases he report hreport with hnone | ⟨o, head, output, updated, rfl, -⟩
      · exact absurd hnone houtcome
      · cases hstore
  | interrupt => exact .of_ended hq fun report hreport => by cases hreport
  | crash => exact .of_ended hq fun report hreport => by cases hreport
  | drop => exact .of_ended hq fun report hreport => by cases hreport

theorem ne_of_mem_append {x y : Write} (hfresh : ∀ x ∈ writes, x.run ≠ i) (hx : x.run ≠ i)
    (hy : y ∈ writes ++ [x]) : y.run ≠ i := by
  rcases List.mem_append.1 hy with hy | hy
  · exact hfresh y hy
  · rw [List.mem_singleton.1 hy]
    exact hx

theorem RunKept.of_write {o : Origin} {head : HeadCommit} {output : PipelineOutput}
    {updated : Snapshot} {other : MemoryStore} {repository : String}
    (h : RunKept store writes i r) (hstate : r.state = .waits (.saving o head output updated))
    (hfresh : ∀ x ∈ writes, x.run ≠ i) :
    RunKept other (writes ++ [⟨i, repository, head.sha, output⟩]) i r where
  fresh _ := .inl ⟨o, head, output, updated, hstate⟩
  current _ _ _ _ hunwritten :=
    absurd rfl (hunwritten _ (List.mem_append_right _ (List.mem_singleton_self _)))
  applied := h.applied
  logged o' head' output' updated' hs x hx hrun := by
    cases hstate.symm.trans hs
    rcases List.mem_append.1 hx with hx | hx
    · exact absurd hrun (hfresh x hx)
    · rw [List.mem_singleton.1 hx]
      exact ⟨rfl, rfl⟩
  reported report hs := by simp [hstate] at hs

theorem RunKept.of_other_write {x : Write} {other : MemoryStore} (h : RunKept store writes i r)
    (hne : x.run ≠ i)
    (hother : ∀ s, r.state = .waits s → other.get? r.repository = store.get? r.repository) :
    RunKept other (writes ++ [x]) i r where
  fresh hlive := (h.fresh hlive).imp_right fun hfresh y hy => ne_of_mem_append hfresh hne hy
  current s o hs ho hunwritten := by
    rw [hother s hs]
    exact h.current s o hs ho fun y hy => hunwritten y (List.mem_append_left _ hy)
  applied := h.applied
  logged o head output updated hs y hy hrun := by
    rcases List.mem_append.1 hy with hy | hy
    · exact h.logged o head output updated hs y hy hrun
    · rw [List.mem_singleton.1 hy] at hrun
      exact absurd hrun hne
  reported report hs houtcome := by
    obtain ⟨y, hy, hof⟩ := h.reported report hs houtcome
    exact ⟨y, List.mem_append_left _ hy, hof⟩

theorem Kept.serve (h : Kept limits threshold initial w) {d : Deed} {t : Service}
    (hs : Service.Step w.service d t)
    (hwork : ∀ i work r q, d = .work i work → w.service.runs[i]? = some r →
      t.runs[i]? = some q → q.repository = r.repository →
      r.state.Follows w.service.threshold work q.state → RunKept w.store w.writes i r →
      RunKept w.store w.writes i q) :
    Kept limits threshold initial { w with service := t } where
  reached := by
    obtain ⟨history, hreached⟩ := h.reached
    exact ⟨_, hreached.step hs⟩
  named := h.named
  written x hx := by
    obtain ⟨r, hr, hrepository⟩ := h.written x hx
    obtain ⟨q, hq, hsame⟩ := hs.effect.exists_run hr
    exact ⟨q, hq, hsame.trans hrepository⟩
  distinct := h.distinct
  runs i q hq := by
    rcases hs.effect.state_cases hq with ⟨hge, hadmitted⟩ | ⟨r, hr, hrepository, hstate⟩
    · refine .of_admitted hadmitted fun x hx heq => ?_
      obtain ⟨r, hr, -⟩ := h.written x hx
      have hlt := (List.getElem?_eq_some_iff.1 hr).1
      omega
    · rcases hstate with hsame | ⟨work, hd, hfollows⟩
      · exact (h.runs i r hr).of_state_eq hrepository hsame
      · exact hwork i work r q hd hr hq hrepository hfollows (h.runs i r hr)
  accounted := h.accounted

theorem stage?_of_state {s : Service} {st : Stage} (hr : s.runs[i]? = some r)
    (hstate : r.state = .waits st) : s.runs[i]?.bind Run.stage? = some st := by
  simp [hr, Run.stage?, hstate]

theorem Kept.eq_of_waits (h : Kept limits threshold initial w) {j : Nat} {s t : Stage}
    (hr : w.service.runs[i]? = some r) (hs : r.state = .waits s)
    (hq : w.service.runs[j]? = some q) (ht : q.state = .waits t)
    (hrepository : r.repository = q.repository) : i = j := by
  obtain ⟨history, hreached⟩ := h.reached
  exact hreached.guarded.eq_of_isLive ⟨hr, Run.isLive_of_waits hs⟩ ⟨hq, Run.isLive_of_waits ht⟩
    hrepository

theorem Kept.name_of_saving (h : Kept limits threshold initial w) {o : Origin} {head : HeadCommit}
    {output : PipelineOutput} {updated : Snapshot} (hr : w.service.runs[i]? = some r)
    (hstate : r.state = .waits (.saving o head output updated))
    (hfresh : ∀ x ∈ w.writes, x.run ≠ i) :
    updated.name = r.repository := by
  obtain ⟨stamp, happlied⟩ := (h.runs i r hr).applied o head output updated hstate
  have hstored := (h.runs i r hr).current _ o hstate rfl hfresh
  have hname : o.snapshot.name = r.repository := h.named _ _ hstored
  exact (appliedTo_of_applied? happlied).name.trans hname

theorem Kept.save (h : Kept limits threshold initial w) {o : Origin} {head : HeadCommit}
    {output : PipelineOutput} {updated : Snapshot} (hr : w.service.runs[i]? = some r)
    (hstate : r.state = .waits (.saving o head output updated))
    (hfresh : ∀ x ∈ w.writes, x.run ≠ i) :
    Kept limits threshold initial
      { w with
        store := w.store.put updated
        writes := w.writes ++ [⟨i, r.repository, head.sha, output⟩] } := by
  obtain ⟨stamp, happlied⟩ := (h.runs i r hr).applied o head output updated hstate
  have hstored : w.store.get? r.repository = some o.snapshot :=
    (h.runs i r hr).current _ o hstate rfl hfresh
  have hupdated : updated.name = r.repository := h.name_of_saving hr hstate hfresh
  refine ⟨h.reached, h.named.put updated, ?_, ?_, ?_, h.accounted.put hstored hupdated happlied⟩
  · intro x hx
    rcases List.mem_append.1 hx with hx | hx
    · exact h.written x hx
    · rw [List.mem_singleton.1 hx]
      exact ⟨r, hr, rfl⟩
  · rw [List.map_append, List.map_singleton, List.nodup_append]
    refine ⟨h.distinct, List.nodup_cons.2 ⟨List.not_mem_nil, List.nodup_nil⟩, ?_⟩
    intro a ha b hb
    obtain ⟨x, hx, rfl⟩ := List.mem_map.1 ha
    rw [List.mem_singleton.1 hb]
    exact hfresh x hx
  · intro j q hq
    have hkept := h.runs j q hq
    by_cases hij : j = i
    · subst hij
      obtain rfl : q = r := Option.some.inj (hq.symm.trans hr)
      exact hkept.of_write hstate hfresh
    · refine hkept.of_other_write (fun heq => hij heq.symm) fun s hs => ?_
      have hother : ¬q.repository = updated.name := fun heq =>
        hij (h.eq_of_waits hq hs hr hstate (heq.trans hupdated))
      unfold MemoryStore.put
      rw [Table.get?_insert, if_neg hother]

theorem Kept.step (h : Kept limits threshold initial w) (hs : Step w v) :
    Kept limits threshold initial v := by
  cases hs with
  | serve hs hd =>
      refine h.serve hs fun i work r q hwork hr hq hrepository hfollows hkept => ?_
      exact hkept.of_follows hrepository hfollows (hwork ▸ hd)
  | @load m listener elapsedMs i r x hr hstate ha =>
      refine h.serve (.answer (stage?_of_state hr hstate) ha) ?_
      intro j work r' q hwork hr' hq hrepository hfollows hkept
      cases hwork
      obtain rfl : r' = r := Option.some.inj (hr'.symm.trans hr)
      have hfresh : ∀ x ∈ w.writes, x.run ≠ i :=
        hkept.fresh_of_not_saving (Run.isLive_of_waits hstate) (by simp [hstate])
      rcases (Service.answerRun?_state ha hr hstate hq).2 with ⟨next, hnext, hloaded⟩ | ⟨e, hend⟩
      · obtain ⟨snapshot, base, address, hreply, rfl⟩ := hloaded.of_loading
        have hstored : w.store.get? r'.repository = some snapshot :=
          Except.ok.inj ((Stage.replyTo_self .loading _).symm.trans hreply)
        refine .of_fresh (Run.isLive_of_waits hnext) hfresh (fun s o hs ho => ?_)
          fun o head output updated hs => ?_
        · cases hnext.symm.trans hs
          cases ho
          rw [hrepository]
          exact hstored
        · simp [hnext] at hs
      · rw [hend] at hfollows
        refine .of_ended hend fun report hreport houtcome => ?_
        rcases hfollows.reports hreport with hnone | ⟨o, head, output, updated, hs, -⟩
        · exact absurd hnone houtcome
        · cases hs
  | save hr hstate hfresh => exact h.save hr hstate hfresh
  | @saved m listener elapsedMs i r o head output updated x hr hstate hdone ha =>
      refine h.serve (.answer (stage?_of_state hr hstate) ha) ?_
      intro j work r' q hwork hr' hq hrepository hfollows hkept
      cases hwork
      obtain rfl : r' = r := Option.some.inj (hr'.symm.trans hr)
      rcases (Service.answerRun?_state ha hr hstate hq).2 with ⟨next, -, hsaved⟩ | ⟨e, hend⟩
      · cases hsaved
      · rw [hend] at hfollows
        refine .of_ended hend fun report hreport houtcome => ?_
        rcases hfollows.reports hreport with hnone | ⟨o, head, output, updated, hs, hsha, hstats, herrors⟩
        · exact absurd hnone houtcome
        · cases hs
          obtain ⟨y, hy, hrun⟩ := hdone
          obtain ⟨hheadSha, houtput⟩ := hkept.logged _ _ _ _ hstate y hy hrun
          refine ⟨y, hy, hrun, hheadSha.trans hsha.symm, ?_, ?_⟩
          · rw [houtput, hstats]
          · rw [houtput, herrors]

theorem Reached.kept (hnamed : initial.Named) (h : Reached limits threshold initial w) :
    Kept limits threshold initial w := by
  induction h with
  | new =>
      exact {
        reached := ⟨[], .new⟩
        named := hnamed
        written := fun x hx => by cases hx
        distinct := List.nodup_nil
        runs := fun i r hr => by simp [Service.new] at hr
        accounted := accounted_nil initial }
  | step _ hs ih => exact ih.step hs

end MemoryWorld

end IndexRefresh
