import IndexRefresh.Command.Pipeline
import IndexRefresh.Proofs.Fallible
import IndexRefresh.Proofs.Json.KnownFields

namespace IndexRefresh

/-- The program took its input to the end, or as much of it as it wanted. -/
def Completion.Fed (c : Completion) : Prop :=
  c.written = .ok () ∨ c.written = .error .brokenPipe

def Finished.printed? (f : Finished) : Option PipelineOutput :=
  (Json.ofBytes? f.output).bind ofJson?

namespace Pipeline

section Request

variable (files : List ChangedFile) (options : PipelineOptions)

def Carries (bytes : ByteArray) : Prop :=
  ∃ ms, Json.ofBytes? bytes = some (Json.record ms) ∧
    ms.map Prod.fst = ["repository", "local_path", "base_sha", "head_sha", "files"] ∧
    ofJson? (Json.record ms) = some options ∧ (ms.lookup "files").bind ofJson? = some files

theorem plain_request : (request files options).Plain :=
  Json.plain_record (by simp [PipelineOptions.members])

theorem ofJson?_request : ofJson? (request files options) = some options := by
  have hunknown : Json.Edit PipelineOptions.shape (toJson options)
      (Json.record (("files", toJson files) :: options.members)) :=
    .unknown (toJson files) (by simp [Json.namesOf])
  have hmoved : Json.Edit PipelineOptions.shape
      (Json.record (("files", toJson files) :: options.members)) (request files options) :=
    .permuted ((List.perm_append_singleton _ options.members).symm.map _)
  rw [← PipelineOptions.heeds.same hmoved, ← PipelineOptions.heeds.same hunknown,
    ofJson?_toJson]

theorem carries_request : Carries files options (request files options).compact.toUTF8 := by
  refine ⟨options.members ++ [("files", toJson files)], ?_, rfl, ofJson?_request files options, ?_⟩
  · rw [Json.ofBytes?_toUTF8]
    exact Json.ofText?_compact (plain_request files options)
  · have hlast : (options.members ++ [("files", toJson files)]).lookup "files" =
        some (toJson files) := rfl
    rw [hlast]
    exact ofJson?_toJson files

end Request

inductive Ends (program : String) :
    Except OsError Completion → Except Fault PipelineOutput → Prop where
  | unstarted (e : OsError) : Ends program (.error e) (.error (.io e.text))
  | unwaited {c : Completion} {e : OsError} (hfinished : c.finished = .error e) :
      Ends program (.ok c) (.error (.io e.text))
  | unwritten {c : Completion} {f : Finished} {e : OsError} (hfinished : c.finished = .ok f)
      (hwritten : c.written = .error e) (hpipe : e ≠ .brokenPipe) :
      Ends program (.ok c) (.error (.io e.text))
  | failed {c : Completion} {f : Finished} (hfinished : c.finished = .ok f) (hfed : c.Fed)
      (hstatus : f.status ≠ .code 0) :
      Ends program (.ok c) (.error (failure program f.status f.errors))
  | garbled {c : Completion} {f : Finished} (hfinished : c.finished = .ok f) (hfed : c.Fed)
      (hstatus : f.status = .code 0) (hprinted : f.printed? = none) :
      Ends program (.ok c) (.error unreadable)
  | done {c : Completion} {f : Finished} {o : PipelineOutput} (hfinished : c.finished = .ok f)
      (hfed : c.Fed) (hstatus : f.status = .code 0) (hprinted : f.printed? = some o) :
      Ends program (.ok c) (.ok o)

theorem Ends.unique {program : String} {start : Except OsError Completion}
    {result other : Except Fault PipelineOutput} (h : Ends program start result)
    (hother : Ends program start other) : result = other := by
  cases h with
  | unstarted e => cases hother; rfl
  | unwaited hfinished => cases hother <;> simp_all
  | unwritten hfinished hwritten hpipe => cases hother <;> simp_all [Completion.Fed]
  | failed hfinished hfed hstatus => cases hother <;> simp_all [Completion.Fed]
  | garbled hfinished hfed hstatus hprinted => cases hother <;> simp_all [Completion.Fed]
  | done hfinished hfed hstatus hprinted => cases hother <;> simp_all [Completion.Fed]

example : Ends "indexer"
    (.ok ⟨.error .brokenPipe, .ok ⟨.code 0, "\x7b\"errors\": []\x7d".toUTF8, "unread"⟩⟩)
    (.ok ⟨.zero, []⟩) :=
  .done rfl (.inr rfl) rfl (by decide +kernel)

theorem value_reported {ω : Type} {p : Pipeline (StateM ω)} {repository : String} {c : Completion}
    {f : Finished} (hfinished : c.finished = .ok f) (hfed : c.Fed) :
    Ends p.program (.ok c) (p.reported repository f).value := by
  cases hsuccess : f.status.isSuccess with
  | true =>
      have hstatus : f.status = .code 0 := beq_iff_eq.1 hsuccess
      unfold reported
      rw [if_pos hsuccess]
      split
      · next output hprinted => exact .done hfinished hfed hstatus hprinted
      · next hprinted => exact .garbled hfinished hfed hstatus hprinted
  | false =>
      have hstatus : f.status ≠ .code 0 := beq_eq_false_iff_ne.1 hsuccess
      unfold reported
      rw [if_neg (by rw [hsuccess]; exact Bool.false_ne_true)]
      exact .failed hfinished hfed hstatus

section Run

variable {ω : Type} (p : Pipeline (StateM ω)) (files : List ChangedFile)
  (options : PipelineOptions) (w : ω)

def execution : Except OsError Completion × ω :=
  (p.processes.run (p.invocation files options)).run
    ((p.emit (p.event .debug "Starting update pipeline" options.repository
      [("files", .number files.length)])).run w).2

theorem value_outcome (repository : String) (c : Completion) :
    Ends p.program (.ok c) (p.outcome repository c).value := by
  unfold outcome
  split
  · next e hfinished => exact .unwaited hfinished
  · next f hfinished =>
      split
      · next hwritten => exact value_reported hfinished (.inl hwritten)
      · next hwritten => exact value_reported hfinished (.inr hwritten)
      · next e hpipe hwritten => exact .unwritten hfinished hwritten hpipe

theorem run_lines (events : List Event) :
    ∃ u, (events.forM fun e => (liftM (p.emit e) : ExceptT Fault (StateM ω) PUnit)).run w =
      (.ok ⟨⟩, u) := by
  induction events generalizing w with
  | nil => exact ⟨w, rfl⟩
  | cons e events ih =>
      have hline : (liftM (p.emit e) : ExceptT Fault (StateM ω) PUnit).run w =
          (.ok ⟨⟩, (p.emit e w).2) := rfl
      obtain ⟨u, hrest⟩ := ih (p.emit e w).2
      exact ⟨u, (run_bind_of_ok hline).trans hrest⟩

theorem process_ends :
    Ends p.program (p.execution files options w).1 ((p.process files options).run w).1 := by
  have hline : (liftM (p.emit (p.event .debug "Starting update pipeline" options.repository
      [("files", .number files.length)])) : ExceptT Fault (StateM ω) Unit).run w =
      (.ok (), (p.emit (p.event .debug "Starting update pipeline" options.repository
        [("files", .number files.length)]) w).2) := rfl
  rcases hexecution : p.execution files options w with ⟨start, u⟩
  have hrun : (p.process files options).run w = _ :=
    (run_bind_of_ok hline).trans (run_bind_of_ok (run_lift hexecution))
  rw [hrun]
  cases start with
  | error e => exact .unstarted e
  | ok c =>
      obtain ⟨v, hlines⟩ := p.run_lines u (p.outcome options.repository c).events
      dsimp only
      rw [run_bind_of_ok hlines]
      exact p.value_outcome options.repository c

/-- Whatever the program does, it is given one object that carries the options and the files, and
how the call ends is decided by its start, by the end that it was waited for, by the writing of its
input, by its exit status and by what it printed, in this order. -/
theorem decided_by_program :
    (∃ text, (p.invocation files options).input = some text ∧
      Carries files options text.toUTF8) ∧
    (∀ o, ((p.process files options).run w).1 = .ok o ↔
      ∃ c f, (p.execution files options w).1 = .ok c ∧ c.finished = .ok f ∧ c.Fed ∧
        f.status = .code 0 ∧ f.printed? = some o) ∧
    ((∃ t, ((p.process files options).run w).1 = .error (.command t)) ↔
      ∃ c f, (p.execution files options w).1 = .ok c ∧ c.finished = .ok f ∧ c.Fed ∧
        f.status ≠ .code 0) ∧
    (∀ t, ((p.process files options).run w).1 = .error (.command t) ↔
      ∃ c f, (p.execution files options w).1 = .ok c ∧ c.finished = .ok f ∧ c.Fed ∧
        f.status ≠ .code 0 ∧ t = s!"{p.program} exited with {f.status.text}: " ++
          String.ofList (Text.trim f.errors.toList)) ∧
    ((∃ t, ((p.process files options).run w).1 = .error (.serialization t)) ↔
      ∃ c f, (p.execution files options w).1 = .ok c ∧ c.finished = .ok f ∧ c.Fed ∧
        f.status = .code 0 ∧ f.printed? = none) ∧
    ∀ t, ((p.process files options).run w).1 = .error (.io t) ↔
      (∃ e, (p.execution files options w).1 = .error e ∧ t = e.text) ∨
      ∃ c, (p.execution files options w).1 = .ok c ∧
        ((∃ e, c.finished = .error e ∧ t = e.text) ∨
          ∃ f e, c.finished = .ok f ∧ c.written = .error e ∧ e ≠ .brokenPipe ∧ t = e.text) := by
  have hends := p.process_ends files options w
  refine ⟨⟨_, rfl, carries_request files options⟩, ?ok, ?command, ?text, ?serialization, ?io⟩
  all_goals generalize (p.execution files options w).1 = start at hends
  all_goals generalize ((p.process files options).run w).1 = result at hends
  case ok =>
    intro o
    constructor
    · rintro rfl
      cases hends with
      | done hfinished hfed hstatus hprinted => exact ⟨_, _, rfl, hfinished, hfed, hstatus, hprinted⟩
    · rintro ⟨c, f, rfl, hfinished, hfed, hstatus, hprinted⟩
      exact hends.unique (.done hfinished hfed hstatus hprinted)
  case command =>
    constructor
    · rintro ⟨t, rfl⟩
      cases hends with
      | failed hfinished hfed hstatus => exact ⟨_, _, rfl, hfinished, hfed, hstatus⟩
    · rintro ⟨c, f, rfl, hfinished, hfed, hstatus⟩
      exact ⟨_, hends.unique (.failed hfinished hfed hstatus)⟩
  case text =>
    intro t
    constructor
    · rintro rfl
      cases hends with
      | failed hfinished hfed hstatus => exact ⟨_, _, rfl, hfinished, hfed, hstatus, rfl⟩
    · rintro ⟨c, f, rfl, hfinished, hfed, hstatus, rfl⟩
      exact hends.unique (.failed hfinished hfed hstatus)
  case serialization =>
    constructor
    · rintro ⟨t, rfl⟩
      cases hends with
      | garbled hfinished hfed hstatus hprinted =>
          exact ⟨_, _, rfl, hfinished, hfed, hstatus, hprinted⟩
    · rintro ⟨c, f, rfl, hfinished, hfed, hstatus, hprinted⟩
      exact ⟨_, hends.unique (.garbled hfinished hfed hstatus hprinted)⟩
  case io =>
    intro t
    constructor
    · rintro rfl
      cases hends with
      | unstarted e => exact .inl ⟨e, rfl, rfl⟩
      | unwaited hfinished => exact .inr ⟨_, rfl, .inl ⟨_, hfinished, rfl⟩⟩
      | unwritten hfinished hwritten hpipe =>
          exact .inr ⟨_, rfl, .inr ⟨_, _, hfinished, hwritten, hpipe, rfl⟩⟩
    · rintro (⟨e, rfl, rfl⟩ | ⟨c, rfl, ⟨e, hfinished, rfl⟩ | ⟨f, e, hfinished, hwritten, hpipe, rfl⟩⟩)
      · exact hends.unique (.unstarted e)
      · exact hends.unique (.unwaited hfinished)
      · exact hends.unique (.unwritten hfinished hwritten hpipe)

end Run

end Pipeline

end IndexRefresh
