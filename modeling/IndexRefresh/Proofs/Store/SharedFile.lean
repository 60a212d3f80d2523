import IndexRefresh.Proofs.Store.Files
import IndexRefresh.Proofs.Store.Memory

namespace IndexRefresh

open DocumentStore (Loading Saving quiet)

inductive StoreCall where
  | load (p : FileProgram (Except Fault (Option Snapshot)))
  | save (p : FileProgram (Except Fault Unit))

def setCall (calls : Nat → Option StoreCall) (i : Nat) (call : Option StoreCall) :
    Nat → Option StoreCall :=
  fun j => if j = i then call else calls j

theorem setCall_cases {calls : Nat → Option StoreCall} {i j : Nat} {call c : Option StoreCall}
    (h : setCall calls i call j = c) : j = i ∧ call = c ∨ j ≠ i ∧ calls j = c := by
  unfold setCall at h
  split at h
  · next heq => exact .inl ⟨heq, h⟩
  · next hne => exact .inr ⟨hne, h⟩

structure DocumentWorld where
  service : Service
  disk : Disk
  writer : Option Nat
  calls : Nat → Option StoreCall
  writes : List Write

namespace DocumentWorld

/-- One step of a service or of a file operation, none of which fails. A call that has begun is
carried out in full; the file counts as written when it is replaced. -/
inductive Step (path : String) (w : DocumentWorld) : DocumentWorld → Prop where
  | serve {d : Deed} {t : Service} (h : Service.Step w.service d t)
      (hd : d.answersStore = false) (hidle : ∀ i work, d = .work i work → w.calls i = none) :
      Step path w { w with service := t }
  | load {i : Nat} {r : Run} (hr : w.service.runs[i]? = some r)
      (hstate : r.state = .waits .loading) (hidle : w.calls i = none) :
      Step path w
        { w with calls := setCall w.calls i (some (.load ((quiet path).get r.repository).run)) }
  | save {i : Nat} {r : Run} {o : Origin} {head : HeadCommit} {output : PipelineOutput}
      {updated : Snapshot} (hr : w.service.runs[i]? = some r)
      (hstate : r.state = .waits (.saving o head output updated)) (hidle : w.calls i = none)
      (hfree : w.writer = none) :
      Step path w
        { w with
          writer := some i
          calls := setCall w.calls i (some (.save ((quiet path).put updated).run)) }
  | loadFile {i : Nat} {p q : FileProgram (Except Fault (Option Snapshot))} {e : Disk}
      (hcall : w.calls i = some (.load p)) (h : FileProgram.Step w.disk p e q) :
      Step path w { w with disk := e, calls := setCall w.calls i (some (.load q)) }
  | saveFile {i : Nat} {p q : FileProgram (Except Fault Unit)} {e : Disk}
      (hcall : w.calls i = some (.save p)) (h : FileProgram.Step w.disk p e q)
      (hp : p.renames = false) :
      Step path w { w with disk := e, calls := setCall w.calls i (some (.save q)) }
  | replace {i : Nat} {p q : FileProgram (Except Fault Unit)} {e : Disk} {r : Run} {o : Origin}
      {head : HeadCommit} {output : PipelineOutput} {updated : Snapshot}
      (hcall : w.calls i = some (.save p)) (h : FileProgram.Step w.disk p e q)
      (hp : p.renames = true) (hr : w.service.runs[i]? = some r)
      (hstate : r.state = .waits (.saving o head output updated)) :
      Step path w
        { w with
          disk := e
          calls := setCall w.calls i (some (.save q))
          writes := w.writes ++ [⟨i, r.repository, head.sha, output⟩] }
  | unlock {i : Nat} {result : Except Fault Unit} (hcall : w.calls i = some (.save (.done result)))
      (hwriter : w.writer = some i) :
      Step path w { w with writer := none }
  | loaded {m : Moment} {listener : Listener} {elapsedMs : UInt64} {i : Nat}
      {result : Except Fault (Option Snapshot)} {x : Traced Service}
      (hcall : w.calls i = some (.load (.done result)))
      (h : w.service.answerRun? m listener elapsedMs i (Stage.replyTo .loading result) = some x) :
      Step path w { w with service := x.value, calls := setCall w.calls i none }
  | saved {m : Moment} {listener : Listener} {elapsedMs : UInt64} {i : Nat} {r : Run}
      {o : Origin} {head : HeadCommit} {output : PipelineOutput} {updated : Snapshot}
      {result : Except Fault Unit} {x : Traced Service}
      (hcall : w.calls i = some (.save (.done result))) (hwriter : w.writer ≠ some i)
      (hr : w.service.runs[i]? = some r)
      (hstate : r.state = .waits (.saving o head output updated))
      (h : w.service.answerRun? m listener elapsedMs i
        (Stage.replyTo (.saving o head output updated) result) = some x) :
      Step path w { w with service := x.value, calls := setCall w.calls i none }

inductive Reached (limits : Limits) (threshold : UInt64) (path : String) (disk : Disk) :
    DocumentWorld → Prop where
  | new : Reached limits threshold path disk
      ⟨.new limits threshold, disk, none, fun _ => none, []⟩
  | step {w v : DocumentWorld} (h : Reached limits threshold path disk w) (hs : Step path w v) :
      Reached limits threshold path disk v

/-- The file holds what a store in memory would hold; a loading that has read it knows what that
store has of the repository, and a saving that has not replaced it owns the lock. -/
structure Kept (limits : Limits) (threshold : UInt64) (path : String) (initial now : MemoryStore)
    (w : DocumentWorld) : Prop where
  memory : MemoryWorld.Reached limits threshold initial ⟨w.service, now, w.writes⟩
  held : w.disk.Holds path now
  loads : ∀ i p, w.calls i = some (.load p) → ∃ r, w.service.runs[i]? = some r ∧
    r.state = .waits .loading ∧ Loading path now r.repository p
  saves : ∀ i p, w.calls i = some (.save p) → ∃ r o head output updated,
    w.service.runs[i]? = some r ∧ r.state = .waits (.saving o head output updated) ∧
    (w.writer = some i ∧ (∀ x ∈ w.writes, x.run ≠ i) ∧ Saving path w.disk now updated p ∨
      (∃ x ∈ w.writes, x.run = i) ∧ p = .done (.ok ()))
  idle : ∀ i r o head output updated, w.calls i = none → w.service.runs[i]? = some r →
    r.state = .waits (.saving o head output updated) → ∀ x ∈ w.writes, x.run ≠ i

variable {limits : Limits} {threshold : UInt64} {path : String} {disk : Disk}
  {initial now : MemoryStore} {w v : DocumentWorld} {i : Nat}

theorem Kept.named (h : Kept limits threshold path initial now w) (hnamed : initial.Named) :
    MemoryWorld.Kept limits threshold initial ⟨w.service, now, w.writes⟩ :=
  h.memory.kept hnamed

theorem Kept.serve (h : Kept limits threshold path initial now w) {d : Deed} {t : Service}
    {calls : Nat → Option StoreCall} (hs : Service.Step w.service d t)
    (hmemory : MemoryWorld.Reached limits threshold initial ⟨t, now, w.writes⟩)
    (hcalls : ∀ j c, calls j = some c → w.calls j = some c ∧ ∀ work, d ≠ .work j work)
    (hidle : ∀ j r o head output updated, calls j = none → t.runs[j]? = some r →
      r.state = .waits (.saving o head output updated) → ∀ x ∈ w.writes, x.run ≠ j) :
    Kept limits threshold path initial now { w with service := t, calls := calls } where
  memory := hmemory
  held := h.held
  loads j p hj := by
    obtain ⟨hcall, hd⟩ := hcalls j _ hj
    obtain ⟨r, hr, hstate, hloading⟩ := h.loads j p hcall
    obtain ⟨q, hq, hrepository, hsame⟩ := hs.effect.exists_same hr hd
    exact ⟨q, hq, hsame.trans hstate, hrepository ▸ hloading⟩
  saves j p hj := by
    obtain ⟨hcall, hd⟩ := hcalls j _ hj
    obtain ⟨r, o, head, output, updated, hr, hstate, hsaving⟩ := h.saves j p hcall
    obtain ⟨q, hq, -, hsame⟩ := hs.effect.exists_same hr hd
    exact ⟨q, o, head, output, updated, hq, hsame.trans hstate, hsaving⟩
  idle := hidle

theorem Kept.fresh_of_serve (h : Kept limits threshold path initial now w)
    (hnamed : initial.Named) {d : Deed} {t : Service} (hs : Service.Step w.service d t)
    {r : Run} {o : Origin} {head : HeadCommit} {output : PipelineOutput} {updated : Snapshot}
    (hcall : w.calls i = none) (hr : t.runs[i]? = some r) (hstate : r.state = .waits (.saving o head output updated)) :
    ∀ x ∈ w.writes, x.run ≠ i := by
  rcases hs.effect.state_cases hr with ⟨-, hadmitted⟩ | ⟨q, hq, -, hsame | ⟨work, hd, hfollows⟩⟩
  · rw [hstate] at hadmitted
    cases hadmitted
  · exact h.idle i q o head output updated hcall hq (hsame.symm.trans hstate)
  · rw [hstate] at hfollows
    generalize hbefore : q.state = before at hfollows
    cases hfollows with
    | @goOn s _ reply hgo =>
        refine ((h.named hnamed).runs i q hq).fresh_of_not_saving (Run.isLive_of_waits hbefore) ?_
        intro o' head' output' updated' hsaving
        cases hbefore.symm.trans hsaving
        cases hgo

theorem Kept.load (h : Kept limits threshold path initial now w) {r : Run}
    (hr : w.service.runs[i]? = some r) (hstate : r.state = .waits .loading)
    {p : FileProgram (Except Fault (Option Snapshot))} (hp : Loading path now r.repository p) :
    Kept limits threshold path initial now
      { w with calls := setCall w.calls i (some (.load p)) } where
  memory := h.memory
  held := h.held
  loads j q hj := by
    rcases setCall_cases hj with ⟨rfl, hcall⟩ | ⟨-, hcall⟩
    · cases hcall
      exact ⟨r, hr, hstate, hp⟩
    · exact h.loads j q hcall
  saves j q hj := by
    rcases setCall_cases hj with ⟨-, hcall⟩ | ⟨-, hcall⟩
    · cases hcall
    · exact h.saves j q hcall
  idle j q o head output updated hj := by
    rcases setCall_cases hj with ⟨-, hcall⟩ | ⟨-, hcall⟩
    · cases hcall
    · exact h.idle j q o head output updated hcall

theorem Kept.save (h : Kept limits threshold path initial now w) {r : Run} {o : Origin}
    {head : HeadCommit} {output : PipelineOutput} {updated : Snapshot} {e : Disk}
    (hr : w.service.runs[i]? = some r)
    (hstate : r.state = .waits (.saving o head output updated))
    (hfresh : ∀ x ∈ w.writes, x.run ≠ i) (hwriter : w.writer = none ∨ w.writer = some i)
    {p : FileProgram (Except Fault Unit)} (hp : Saving path e now updated p)
    (hheld : e.Holds path now) :
    Kept limits threshold path initial now
      { w with
        disk := e
        writer := some i
        calls := setCall w.calls i (some (.save p)) } where
  memory := h.memory
  held := hheld
  loads j q hj := by
    rcases setCall_cases hj with ⟨-, hcall⟩ | ⟨-, hcall⟩
    · cases hcall
    · exact h.loads j q hcall
  saves j q hj := by
    rcases setCall_cases hj with ⟨rfl, hcall⟩ | ⟨hne, hcall⟩
    · cases hcall
      exact ⟨r, o, head, output, updated, hr, hstate, .inl ⟨rfl, hfresh, hp⟩⟩
    · obtain ⟨r', o', head', output', updated', hr', hstate', hsaving⟩ := h.saves j q hcall
      refine ⟨r', o', head', output', updated', hr', hstate', ?_⟩
      rcases hsaving with ⟨hother, -⟩ | hwritten
      · rcases hwriter with hfree | hown
        · rw [hfree] at hother
          cases hother
        · exact absurd (Option.some.inj (hown.symm.trans hother)).symm hne
      · exact .inr hwritten
  idle j q o' head' output' updated' hj := by
    rcases setCall_cases hj with ⟨-, hcall⟩ | ⟨-, hcall⟩
    · cases hcall
    · exact h.idle j q o' head' output' updated' hcall

theorem Kept.replace (h : Kept limits threshold path initial now w) (hnamed : initial.Named)
    {r : Run} {o : Origin} {head : HeadCommit} {output : PipelineOutput} {updated : Snapshot}
    {e : Disk} (hr : w.service.runs[i]? = some r)
    (hstate : r.state = .waits (.saving o head output updated))
    (hfresh : ∀ x ∈ w.writes, x.run ≠ i) (hwriter : w.writer = some i)
    (hheld : e.Holds path (now.put updated)) :
    Kept limits threshold path initial (now.put updated)
      { w with
        disk := e
        calls := setCall w.calls i (some (.save (.done (.ok ()))))
        writes := w.writes ++ [⟨i, r.repository, head.sha, output⟩] } where
  memory := h.memory.step (.save hr hstate hfresh)
  held := hheld
  loads j q hj := by
    rcases setCall_cases hj with ⟨-, hcall⟩ | ⟨hne, hcall⟩
    · cases hcall
    · obtain ⟨r', hr', hstate', hloading⟩ := h.loads j q hcall
      refine ⟨r', hr', hstate', hloading.congr ?_⟩
      have hmemory := h.named hnamed
      have hupdated := hmemory.name_of_saving hr hstate hfresh
      have hother : ¬r'.repository = updated.name := fun heq =>
        hne (hmemory.eq_of_waits hr' hstate' hr hstate (heq.trans hupdated))
      unfold MemoryStore.put
      rw [Table.get?_insert, if_neg hother]
  saves j q hj := by
    rcases setCall_cases hj with ⟨rfl, hcall⟩ | ⟨hne, hcall⟩
    · cases hcall
      refine ⟨r, o, head, output, updated, hr, hstate, .inr ⟨?_, rfl⟩⟩
      exact ⟨_, List.mem_append_right _ (List.mem_singleton_self _), rfl⟩
    · obtain ⟨r', o', head', output', updated', hr', hstate', hsaving⟩ := h.saves j q hcall
      refine ⟨r', o', head', output', updated', hr', hstate', ?_⟩
      rcases hsaving with ⟨hother, -⟩ | ⟨⟨x, hx, hrun⟩, hdone⟩
      · exact absurd (Option.some.inj (hwriter.symm.trans hother)).symm hne
      · exact .inr ⟨⟨x, List.mem_append_left _ hx, hrun⟩, hdone⟩
  idle j q o' head' output' updated' hj hq hsaving x hx := by
    rcases setCall_cases hj with ⟨-, hcall⟩ | ⟨hne, hcall⟩
    · cases hcall
    · rcases List.mem_append.1 hx with hx | hx
      · exact h.idle j q o' head' output' updated' hcall hq hsaving x hx
      · rw [List.mem_singleton.1 hx]
        exact fun heq => hne heq.symm

theorem Kept.unlock (h : Kept limits threshold path initial now w) {result : Except Fault Unit}
    (hcall : w.calls i = some (.save (.done result))) (hwriter : w.writer = some i) :
    Kept limits threshold path initial now { w with writer := none } where
  memory := h.memory
  held := h.held
  loads := h.loads
  saves j q hj := by
    obtain ⟨r, o, head, output, updated, hr, hstate, hsaving⟩ := h.saves j q hj
    refine ⟨r, o, head, output, updated, hr, hstate, ?_⟩
    rcases hsaving with ⟨hother, -, hsaving⟩ | hwritten
    · obtain rfl : i = j := Option.some.inj (hwriter.symm.trans hother)
      cases hcall.symm.trans hj
      exact absurd rfl (hsaving.ne_done result)
    · exact .inr hwritten
  idle := h.idle

theorem Kept.loaded (h : Kept limits threshold path initial now w) (hnamed : initial.Named)
    {m : Moment} {listener : Listener} {elapsedMs : UInt64}
    {result : Except Fault (Option Snapshot)} {x : Traced Service}
    (hcall : w.calls i = some (.load (.done result)))
    (ha : w.service.answerRun? m listener elapsedMs i (Stage.replyTo .loading result) = some x) :
    Kept limits threshold path initial now
      { w with service := x.value, calls := setCall w.calls i none } := by
  obtain ⟨r, hr, hstate, hloading⟩ := h.loads i _ hcall
  obtain rfl : result = .ok (now.get? r.repository) := by
    generalize hp : FileProgram.done result = p at hloading
    cases hloading with
    | start =>
        rw [DocumentStore.get_run] at hp
        cases hp
    | found =>
        cases hp
        rfl
  have hs : Service.Step w.service (.work i (.answer .loading)) x.value :=
    .answer (MemoryWorld.stage?_of_state hr hstate) ha
  refine h.serve hs (h.memory.step (.load hr hstate ha)) ?_ ?_
  · intro j c hj
    rcases setCall_cases hj with ⟨-, hnone⟩ | ⟨hne, hj⟩
    · cases hnone
    · refine ⟨hj, fun work hd => ?_⟩
      cases hd
      exact hne rfl
  · intro j q o head output updated hj hq hsaving
    rcases setCall_cases hj with ⟨rfl, -⟩ | ⟨-, hj⟩
    · exact ((h.named hnamed).runs j r hr).fresh_of_not_saving (Run.isLive_of_waits hstate)
        (by simp [hstate])
    · exact h.fresh_of_serve hnamed hs hj hq hsaving

theorem Kept.saved (h : Kept limits threshold path initial now w) (hnamed : initial.Named)
    {m : Moment} {listener : Listener} {elapsedMs : UInt64} {r : Run} {o : Origin}
    {head : HeadCommit} {output : PipelineOutput} {updated : Snapshot}
    {result : Except Fault Unit} {x : Traced Service}
    (hcall : w.calls i = some (.save (.done result))) (hwriter : w.writer ≠ some i)
    (hr : w.service.runs[i]? = some r)
    (hstate : r.state = .waits (.saving o head output updated))
    (ha : w.service.answerRun? m listener elapsedMs i
      (Stage.replyTo (.saving o head output updated) result) = some x) :
    Kept limits threshold path initial now
      { w with service := x.value, calls := setCall w.calls i none } := by
  obtain ⟨-, -, -, -, -, -, -, ⟨hown, -⟩ | ⟨hwritten, hdone⟩⟩ := h.saves i _ hcall
  · exact absurd hown hwriter
  cases hdone
  have hs : Service.Step w.service (.work i (.answer (.saving o head output updated))) x.value :=
    .answer (MemoryWorld.stage?_of_state hr hstate) ha
  refine h.serve hs (h.memory.step (.saved hr hstate hwritten ha)) ?_ ?_
  · intro j c hj
    rcases setCall_cases hj with ⟨-, hnone⟩ | ⟨hne, hj⟩
    · cases hnone
    · refine ⟨hj, fun work hd => ?_⟩
      cases hd
      exact hne rfl
  · intro j q o' head' output' updated' hj hq hsaving
    rcases setCall_cases hj with ⟨rfl, -⟩ | ⟨-, hj⟩
    · rcases (Service.answerRun?_state ha hr hstate hq).2 with ⟨next, -, hnext⟩ | ⟨ending, hend⟩
      · cases hnext
      · cases hsaving.symm.trans hend
    · exact h.fresh_of_serve hnamed hs hj hq hsaving

theorem Kept.step (h : Kept limits threshold path initial now w) (hnamed : initial.Named)
    (hs : Step path w v) : ∃ after, Kept limits threshold path initial after v := by
  cases hs with
  | serve hs hd hidle =>
      refine ⟨now, h.serve hs (h.memory.step (.serve hs hd)) (fun j c hj => ⟨hj, ?_⟩)
        fun j r o head output updated => h.fresh_of_serve hnamed hs⟩
      intro work hwork
      rw [hidle j work hwork] at hj
      cases hj
  | load hr hstate hidle => exact ⟨now, h.load hr hstate .start⟩
  | save hr hstate hidle hfree =>
      exact ⟨now, h.save hr hstate (h.idle _ _ _ _ _ _ hidle hr hstate) (.inl hfree) .start h.held⟩
  | loadFile hcall hs =>
      obtain ⟨r, hr, hstate, hloading⟩ := h.loads _ _ hcall
      obtain ⟨rfl, hloading⟩ := hloading.step h.held hs
      exact ⟨now, h.load hr hstate hloading⟩
  | saveFile hcall hs hp =>
      obtain ⟨r, o, head, output, updated, hr, hstate, ⟨hwriter, hfresh, hsaving⟩ | ⟨-, rfl⟩⟩ :=
        h.saves _ _ hcall
      · obtain ⟨hheld, hsaving⟩ := hsaving.step h.held hs hp
        have hkept := h.save hr hstate hfresh (.inr hwriter) hsaving hheld
        rw [← hwriter] at hkept
        exact ⟨now, hkept⟩
      · cases hs
  | replace hcall hs hp hr hstate =>
      obtain ⟨r, o, head, output, updated, hr', hstate', ⟨hwriter, hfresh, hsaving⟩ | ⟨-, rfl⟩⟩ :=
        h.saves _ _ hcall
      · cases hr.symm.trans hr'
        cases hstate.symm.trans hstate'
        obtain ⟨hheld, rfl⟩ := hsaving.step_of_renames hs hp
        exact ⟨_, h.replace hnamed hr hstate hfresh hwriter hheld⟩
      · cases hp
  | unlock hcall hwriter => exact ⟨now, h.unlock hcall hwriter⟩
  | loaded hcall ha => exact ⟨now, h.loaded hnamed hcall ha⟩
  | saved hcall hwriter hr hstate ha => exact ⟨now, h.saved hnamed hcall hwriter hr hstate ha⟩

theorem Reached.kept (hnamed : initial.Named) (hheld : disk.Holds path initial)
    (h : Reached limits threshold path disk w) :
    ∃ now, Kept limits threshold path initial now w := by
  induction h with
  | new =>
      exact ⟨initial, {
        memory := .new
        held := hheld
        loads := fun i p hi => by cases hi
        saves := fun i p hi => by cases hi
        idle := fun i r o head output updated _ _ _ x hx => by cases hx }⟩
  | step _ hs ih =>
      obtain ⟨now, hkept⟩ := ih
      exact hkept.step hnamed hs

end DocumentWorld

end IndexRefresh
