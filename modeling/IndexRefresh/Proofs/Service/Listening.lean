import IndexRefresh.Proofs.Service.Requests
import IndexRefresh.Proofs.Update.Listening

namespace IndexRefresh

namespace Chore

def muted : Chore → Chore
  | .answer m _ elapsedMs stage reply => .answer m .silent elapsedMs stage reply
  | c => c

def overhears : Chore → Bool
  | .answer _ listener _ stage reply => listener.overhears stage reply
  | _ => false

end Chore

namespace Request

def muted : Request → Request
  | .run i c => .run i c.muted
  | q => q

def overhears : Request → Bool
  | .run _ c => c.overhears
  | _ => false

end Request

def Entry.muted (e : Entry) : Entry :=
  { e with request := e.request.muted }

namespace Service

variable {limits : Limits} {threshold : UInt64} {es : List Entry} {s t : Service} {q : Request}
  {a : Response} {i : Nat} {c : Chore} {m : Moment} {listener : Listener} {elapsedMs : UInt64}
  {stage : Stage} {reply : stage.Reply} {r : Run}

theorem chore?_answer (hr : s.runs[i]? = some r) (hs : r.state = .waits stage) :
    s.chore? i (.answer m listener elapsedMs stage reply) =
      some ((s.putRun m i (r.goTo ((r.task s.threshold listener).resume
        ⟨r.cancelled, m.stamp, elapsedMs⟩ stage reply).value)).value, .done) := by
  simp [chore?, hr, Run.stage?, hs, answerRun?, Run.answer?, Stage.replyTo_self]

theorem exists_run_of_answer
    (h : s.chore? i (.answer m listener elapsedMs stage reply) = some (t, a)) :
    ∃ r, s.runs[i]? = some r ∧ r.state = .waits stage := by
  simp only [chore?] at h
  split at h
  · next hstage =>
      obtain ⟨r, hr, hs⟩ := Option.bind_eq_some_iff.1 hstage
      refine ⟨r, hr, ?_⟩
      unfold Run.stage? at hs
      split at hs
      · next hstate => rw [hstate, Option.some.inj hs]
      · cases hs
  · cases h

theorem chore?_muted_iff (h : s.chore? i c = some (t, a)) :
    s.chore? i c.muted = some (t, a) ↔ c.overhears = false := by
  cases c with
  | answer m listener elapsedMs stage reply =>
      obtain ⟨r, hr, hs⟩ := exists_run_of_answer h
      rw [chore?_answer hr hs] at h
      cases h
      simp only [Chore.muted, chore?_answer hr hs, Chore.overhears]
      cases hheard : listener.overhears stage reply with
      | false =>
          have hsame := UpdateTask.value_resume_muted (t := r.task s.threshold listener)
            (w := ⟨r.cancelled, m.stamp, elapsedMs⟩) hheard
          rw [← hsame]
          exact ⟨fun _ => rfl, fun _ => rfl⟩
      | true =>
          have hlt := (List.getElem?_eq_some_iff.1 hr).1
          have hcrashed := UpdateTask.value_resume_of_overhears
            (t := r.task s.threshold listener) (w := ⟨r.cancelled, m.stamp, elapsedMs⟩) hheard
          obtain ⟨report, hreported⟩ := UpdateTask.exists_report_of_overhears
            (t := r.task s.threshold listener) (w := ⟨r.cancelled, m.stamp, elapsedMs⟩) hheard
          rw [hcrashed]
          refine ⟨fun heq => ?_, fun hf => by cases hf⟩
          -- the run would have been reported and have crashed
          obtain ⟨p, hp⟩ := getElem?_putRun_self hlt m (r.goTo (.ended (.crashed overflowText)))
          obtain ⟨p', hp'⟩ := getElem?_putRun_self hlt m (r.goTo (.ended (.reported report)))
          have hruns := congrArg (fun x : Option (Service × Response) =>
            x.bind fun y => y.1.runs[i]?) heq
          change (s.putRun m i (r.goTo ((r.task s.threshold listener).muted.resume
            ⟨r.cancelled, m.stamp, elapsedMs⟩ stage reply).value)).value.runs[i]? = _ at hruns
          rw [hreported, hp'] at hruns
          cases hruns.trans hp
  | _ => simpa [Chore.muted, Chore.overhears] using h

theorem perform?_muted_iff (h : s.perform? q = some (t, a)) :
    s.perform? q.muted = some (t, a) ↔ q.overhears = false := by
  cases q with
  | run i c => exact chore?_muted_iff h
  | _ => simpa [Request.muted, Request.overhears] using h

end Service

theorem Performed.muted_iff {limits : Limits} {threshold : UInt64} {es : List Entry} {s : Service}
    (h : Performed limits threshold es s) :
    Performed limits threshold (es.map Entry.muted) s ↔
      ∀ e ∈ es, e.request.overhears = false := by
  induction h with
  | new => exact ⟨fun _ => List.forall_mem_nil _, fun _ => Performed.new⟩
  | @step es s t q a h hq ih =>
      rw [List.map_cons, List.forall_mem_cons, ← ih, ← Service.perform?_muted_iff hq]
      constructor
      · intro hmuted
        cases hmuted with
        | step hrest hdone => exact ⟨hdone, hrest⟩
      · rintro ⟨hdone, hrest⟩
        exact hrest.step hdone

/-- Who listens changes neither what a run asks of its collaborators nor what it stores. It changes
how the run ends, and what is made of that, exactly when an overflow is heard after the snapshot is
stored. -/
theorem unheard_but_for_overflow {σ : Type} (b : Errand σ) (ps : List (Poll σ)) {limits : Limits}
    {threshold : UInt64} {es : List Entry} {s : Service} (h : Performed limits threshold es s) :
    (b.after (ps.map Poll.muted)).calls = (b.after ps).calls ∧
    (b.after (ps.map Poll.muted)).answers = (b.after ps).answers ∧
    (b.after (ps.map Poll.muted)).store = (b.after ps).store ∧
    (b.overheard ps = false → b.after (ps.map Poll.muted) = b.after ps) ∧
    (b.overheard ps = true →
      (b.after ps).run.state = .ended (.crashed overflowText) ∧
      ∃ report, (b.after (ps.map Poll.muted)).run.state = .ended (.reported report)) ∧
    (Performed limits threshold (es.map Entry.muted) s ↔
      ∀ e ∈ es, e.request.overhears = false) := by
  cases hover : b.overheard ps with
  | false =>
      have hsame : b.after (ps.map Poll.muted) = b.after ps := Course.foldl_poll_muted ps hover
      rw [hsame]
      exact ⟨rfl, rfl, rfl, fun _ => rfl, fun ht => (by cases ht), h.muted_iff⟩
  | true =>
      have hparted : Course.Parted (b.after ps) (b.after (ps.map Poll.muted)) :=
        Course.parted_of_overheard ps hover
      exact ⟨hparted.calls, hparted.answers, hparted.store, fun hf => (by cases hf),
        fun _ => ⟨hparted.crashed, hparted.reported⟩, h.muted_iff⟩

def heardPolls (o : Origin) (head : HeadCommit) (changes : Comparison) (output : PipelineOutput)
    (updated : Snapshot) : List (Poll Unit) :=
  let answered (s : Stage) (reply : s.Reply) : Poll Unit :=
    ⟨false, .answered (s.replyTo reply) false, .everything, .ofEpoch 0 0, 0, id⟩
  [⟨false, .pending, .everything, .ofEpoch 0 0, 0, id⟩, answered .loading (.ok o.snapshot),
    answered (.resolving o) (.ok head), answered (.comparing o head) (.ok changes),
    answered (.pulling o head changes) (.ok ()), answered (.processing o head changes) (.ok output),
    answered (.saving o head output updated) (.ok ())]

theorem unheard_but_for_overflow_up_to_limit :
    ∃ (b : Errand Unit) (ps : List (Poll Unit)) (es : List Entry) (s : Service),
      (∀ p ∈ ps, p.listener = .everything) ∧ (∃ u, Call.save u ∈ (b.after ps).calls) ∧
      b.after (ps.map Poll.muted) = b.after ps ∧
      Performed ⟨5, 30, 100, 10⟩ 10 es s ∧ s.runs.map Run.isLive = [false] ∧
      Performed ⟨5, 30, 100, 10⟩ 10 (es.map Entry.muted) s := by
  let snapshot : Snapshot :=
    { Snapshot.fresh "a" "https://host/owner/repo" "main" "/work" with indexedSha := some "old" }
  let updated : Snapshot := { snapshot with
    indexedSha := some "new", updateCount := 1, updatedAt := some (.ofEpoch 0 0), status := .ready }
  let b : Errand Unit := ⟨"a", 10, none, ()⟩
  let ps : List (Poll Unit) := heardPolls ⟨snapshot, "old", ⟨"owner", "repo"⟩⟩ ⟨"new", "message"⟩
    ⟨"old", "new", 1, [.plain "file" .added], false⟩
    ⟨{ Stats.zero with filesModified := 18446744073709551614, filesDeleted := 1 }, []⟩ updated
  have accepted : Performed ⟨5, 30, 100, 10⟩ 10 _ _ :=
    Performed.new.step (q := .triggerSync ⟨0, .ofEpoch 0 0⟩ "a") rfl
  have begun := accepted.step (q := .run 0 .begin) rfl
  have failed := begun.step
    (q := .run 0 (.answer ⟨1, .ofEpoch 0 0⟩ .everything 0 .loading (.ok none))) rfl
  obtain ⟨-, -, -, hsame, -, hmuted⟩ := unheard_but_for_overflow b ps failed
  have hsave : Call.save updated ∈ (b.after ps).calls := by decide
  refine ⟨b, ps, _, _, ?_, ⟨updated, hsave⟩, hsame (by decide), failed, by decide +kernel,
    hmuted.2 ?_⟩
  · simp [ps, heardPolls]
  · intro e he
    simp only [List.mem_cons, List.not_mem_nil, or_false] at he
    rcases he with rfl | rfl | rfl <;> rfl

/-- With one file more the run crashes when the event that ends it is heard, and else it is reported.
The new snapshot is stored in both. -/
theorem crashed_by_listener :
    ∃ (b : Errand Unit) (ps : List (Poll Unit)) (report : Report) (updated : Snapshot),
      report.stats = { Stats.zero with filesModified := 18446744073709551615, filesDeleted := 1 } ∧
      (b.after ps).run.state = .ended (.crashed "attempt to add with overflow") ∧
      (b.after (ps.map Poll.muted)).run.state = .ended (.reported report) ∧
      updated.indexedSha = some report.commitSha ∧ Call.save updated ∈ (b.after ps).calls ∧
      Call.save updated ∈ (b.after (ps.map Poll.muted)).calls := by
  let snapshot : Snapshot :=
    { Snapshot.fresh "a" "https://host/owner/repo" "main" "/work" with indexedSha := some "old" }
  let updated : Snapshot := { snapshot with
    indexedSha := some "new", updateCount := 1, updatedAt := some (.ofEpoch 0 0), status := .ready }
  let stats : Stats :=
    { Stats.zero with filesModified := 18446744073709551615, filesDeleted := 1 }
  let ps : List (Poll Unit) := heardPolls ⟨snapshot, "old", ⟨"owner", "repo"⟩⟩ ⟨"new", "message"⟩
    ⟨"old", "new", 1, [.plain "file" .added], false⟩ ⟨stats, []⟩ updated
  let report : Report := ⟨"a", .updated, "new", "message", stats, [], 0⟩
  exact ⟨⟨"a", 10, none, ()⟩, ps, report, updated, by decide, by decide, by decide, by decide,
    by decide, by decide⟩

end IndexRefresh
