import IndexRefresh.Proofs.Update.Stages

namespace IndexRefresh

structure Exchange where
  stage : Stage
  reply : stage.Reply

structure Course (σ : Type) where
  run : Run
  calls : List Call
  answers : List Exchange
  store : σ

namespace Course

variable {σ : Type}

def moved (c : Course σ) (answers : List Exchange) (r : Run) : Course σ where
  run := r
  calls := c.calls ++ (r.stage?.map (·.call r.repository)).toList
  answers := c.answers ++ answers
  store := c.store

/-- One step of a run. It is cancelled at any time, also between the answer to a call and the next
call; nothing but the call to save changes what is stored. -/
inductive Step (threshold : UInt64) (c : Course σ) : Course σ → Prop where
  | begin {r : Run} (h : c.run.begin? = some r) : Step threshold c (c.moved [] r)
  | cancel : Step threshold c { c with run := c.run.cancel }
  | answer {stage : Stage} {reply : (s : Stage) → s.Reply} {fired : Bool} {listener : Listener}
      {stamp : Timestamp} {elapsedMs : UInt64} {t : Traced Run}
      (hstage : c.run.stage? = some stage)
      (hwaits : (c.run.cancelled && stage.isInterruptible) = false)
      (h : (if fired then c.run.cancel else c.run).answer? threshold listener stamp elapsedMs reply =
        some t) :
      Step threshold c (c.moved [⟨stage, reply stage⟩] t.value)
  | interrupt {t : Traced Run} (h : c.run.interrupt? = some t) :
      Step threshold c { c with run := t.value }
  | crash {detail : String} {r : Run} (h : c.run.crash? detail = some r) :
      Step threshold c { c with run := r }
  | write {o : Origin} {head : HeadCommit} {output : PipelineOutput} {updated : Snapshot} {now : σ}
      (hstage : c.run.stage? = some (.saving o head output updated)) :
      Step threshold c { c with store := now }

inductive Reached (repository : String) (threshold : UInt64) (store : σ) : Course σ → Prop where
  | new {permit : Option Permit} :
      Reached repository threshold store ⟨.new repository permit, [], [], store⟩
  | step {c d : Course σ} (h : Reached repository threshold store c) (hs : Step threshold c d) :
      Reached repository threshold store d

end Course

inductive Path (threshold : UInt64) : List Exchange → Stage → Prop where
  | loading : Path threshold [] .loading
  | next {answers : List Exchange} {s t : Stage} {reply : s.Reply} (h : Path threshold answers s)
      (hs : s.Follows threshold reply t) : Path threshold (answers ++ [⟨s, reply⟩]) t

structure Origin.Known (o : Origin) : Prop where
  base : o.snapshot.baseSha? = some o.base
  address : Address.ofUrl? o.snapshot.url = some o.address

structure Comparison.Accepted (threshold : UInt64) (changes : Comparison) : Prop where
  few : changes.files.length ≤ threshold.toNat
  complete : changes.truncated = false

namespace Path

variable {threshold : UInt64} {answers : List Exchange} {o : Origin} {head : HeadCommit}
  {changes : Comparison}

theorem of_loading (h : Path threshold answers .loading) : answers = [] := by
  cases h with
  | loading => rfl
  | next _ hs => cases hs

theorem of_resolving (h : Path threshold answers (.resolving o)) :
    answers = [⟨.loading, (.ok (some o.snapshot) : Except Fault (Option Snapshot))⟩] ∧
      o.Known := by
  cases h with
  | next h hs =>
      cases hs with
      | resolving hbase haddress =>
          rw [h.of_loading]
          exact ⟨rfl, hbase, haddress⟩

theorem of_comparing (h : Path threshold answers (.comparing o head)) :
    answers = [⟨.loading, (.ok (some o.snapshot) : Except Fault (Option Snapshot))⟩,
        ⟨.resolving o, (.ok head : Except Fault HeadCommit)⟩] ∧
      o.Known ∧ head.sha ≠ o.base := by
  cases h with
  | next h hs =>
      cases hs with
      | comparing hnew =>
          obtain ⟨rfl, ho⟩ := h.of_resolving
          exact ⟨rfl, ho, hnew⟩

theorem of_pulling (h : Path threshold answers (.pulling o head changes)) :
    answers = [⟨.loading, (.ok (some o.snapshot) : Except Fault (Option Snapshot))⟩,
        ⟨.resolving o, (.ok head : Except Fault HeadCommit)⟩,
        ⟨.comparing o head, (.ok changes : Except Fault Comparison)⟩] ∧
      o.Known ∧ head.sha ≠ o.base ∧ changes.Accepted threshold := by
  cases h with
  | next h hs =>
      cases hs with
      | pulling hfew hcomplete =>
          obtain ⟨rfl, ho, hnew⟩ := h.of_comparing
          exact ⟨rfl, ho, hnew, hfew, hcomplete⟩

theorem of_processing (h : Path threshold answers (.processing o head changes)) :
    answers = [⟨.loading, (.ok (some o.snapshot) : Except Fault (Option Snapshot))⟩,
        ⟨.resolving o, (.ok head : Except Fault HeadCommit)⟩,
        ⟨.comparing o head, (.ok changes : Except Fault Comparison)⟩,
        ⟨.pulling o head changes, (.ok () : Except Fault Unit)⟩] ∧
      o.Known ∧ head.sha ≠ o.base ∧ changes.Accepted threshold := by
  cases h with
  | next h hs =>
      cases hs with
      | processing =>
          obtain ⟨rfl, ho, hnew, hchanges⟩ := h.of_pulling
          exact ⟨rfl, ho, hnew, hchanges⟩

theorem to_processing (ho : o.Known) (hnew : head.sha ≠ o.base)
    (hchanges : changes.Accepted threshold) :
    Path threshold [⟨.loading, (.ok (some o.snapshot) : Except Fault (Option Snapshot))⟩,
        ⟨.resolving o, (.ok head : Except Fault HeadCommit)⟩,
        ⟨.comparing o head, (.ok changes : Except Fault Comparison)⟩,
        ⟨.pulling o head changes, (.ok () : Except Fault Unit)⟩]
      (.processing o head changes) := by
  have loaded : Path threshold _ (.resolving o) := .next .loading (.resolving ho.base ho.address)
  have resolved : Path threshold _ (.comparing o head) := loaded.next (.comparing hnew)
  have compared : Path threshold _ (.pulling o head changes) :=
    resolved.next (.pulling hchanges.few hchanges.complete)
  exact compared.next .processing

theorem of_saving {output : PipelineOutput} {updated : Snapshot}
    (h : Path threshold answers (.saving o head output updated)) :
    ∃ changes stamp,
      answers = [⟨.loading, (.ok (some o.snapshot) : Except Fault (Option Snapshot))⟩,
        ⟨.resolving o, (.ok head : Except Fault HeadCommit)⟩,
        ⟨.comparing o head, (.ok changes : Except Fault Comparison)⟩,
        ⟨.pulling o head changes, (.ok () : Except Fault Unit)⟩,
        ⟨.processing o head changes, (.ok output : Except Fault PipelineOutput)⟩] ∧
      o.Known ∧ head.sha ≠ o.base ∧ changes.Accepted threshold ∧
      UpdateTask.applied? o.snapshot head.sha output stamp = some updated := by
  cases h with
  | next h hs =>
      cases hs with
      | saving happlied =>
          obtain ⟨rfl, ho, hnew, hchanges⟩ := h.of_processing
          exact ⟨_, _, rfl, ho, hnew, hchanges, happlied⟩

end Path

def callsTo (repository : String) (answers : List Exchange) (s : Stage) : List Call :=
  answers.map (fun x => x.stage.call repository) ++ [s.call repository]

inductive Course.Sound {σ : Type} (repository : String) (threshold : UInt64) (store : σ) :
    Course σ → Prop where
  | admitted {cancelled : Bool} {permit : Option Permit} :
      Sound repository threshold store ⟨⟨repository, cancelled, .admitted, permit⟩, [], [], store⟩
  | waits {cancelled : Bool} {permit : Option Permit} {answers : List Exchange} {s : Stage} {now : σ}
      (hpath : Path threshold answers s) (hstore : s.rank < 5 → now = store) :
      Sound repository threshold store
        ⟨⟨repository, cancelled, .waits s, permit⟩, callsTo repository answers s, answers, now⟩
  | stopped {cancelled : Bool} {permit : Option Permit} {answers : List Exchange} {s : Stage}
      {now : σ} {e : Ending} (hpath : Path threshold answers s) (hstore : s.rank < 5 → now = store)
      (hwhy : (cancelled = true ∧ s.isInterruptible = true ∧ e = .failed .cancelled) ∨
        ∃ detail, e = .crashed detail) :
      Sound repository threshold store
        ⟨⟨repository, cancelled, .ended e, permit⟩, callsTo repository answers s, answers, now⟩
  | answered {cancelled : Bool} {permit : Option Permit} {answers : List Exchange} {s : Stage}
      {reply : s.Reply} {now : σ} {e : Ending} {listener : Listener} {w : Surroundings}
      (hpath : Path threshold answers s) (hstore : s.rank < 5 → now = store)
      (hend : ((⟨repository, threshold, listener⟩ : UpdateTask).resume w s reply).value = .ended e)
      (hfired : w.cancelled = true → cancelled = true) :
      Sound repository threshold store
        ⟨⟨repository, cancelled, .ended e, permit⟩, callsTo repository answers s,
          answers ++ [⟨s, reply⟩], now⟩

namespace Course

variable {σ : Type} {repository : String} {threshold : UInt64} {store : σ} {c d : Course σ}

theorem moved_waits {run : Run} {answers : List Exchange} {s next : Stage} {reply : s.Reply}
    {now : σ} {cancelled : Bool} {permit : Option Permit} :
    (⟨run, callsTo repository answers s, answers, now⟩ : Course σ).moved [⟨s, reply⟩]
        ((⟨repository, cancelled, .waits s, permit⟩ : Run).goTo (.waits next)) =
      ⟨⟨repository, cancelled, .waits next, permit⟩,
        callsTo repository (answers ++ [⟨s, reply⟩]) next, answers ++ [⟨s, reply⟩], now⟩ := by
  simp [moved, callsTo, Run.goTo, Run.stage?]

theorem moved_ended {run : Run} {answers : List Exchange} {s : Stage} {reply : s.Reply}
    {now : σ} {cancelled : Bool} {permit : Option Permit} {e : Ending} :
    (⟨run, callsTo repository answers s, answers, now⟩ : Course σ).moved [⟨s, reply⟩]
        ((⟨repository, cancelled, .waits s, permit⟩ : Run).goTo (.ended e)) =
      ⟨⟨repository, cancelled, .ended e, permit⟩, callsTo repository answers s,
        answers ++ [⟨s, reply⟩], now⟩ := by
  simp [moved, Run.goTo, Run.stage?]

theorem Sound.step (h : c.Sound repository threshold store) (hs : c.Step threshold d) :
    d.Sound repository threshold store := by
  cases hs with
  | begin hb =>
      cases h with
      | admitted =>
          cases hb
          exact .waits .loading fun _ => rfl
      | _ => cases hb
  | cancel =>
      cases h with
      | admitted => exact .admitted
      | waits hpath hstore => exact .waits hpath hstore
      | stopped hpath hstore hwhy =>
          exact .stopped hpath hstore (hwhy.imp_left fun hw => ⟨rfl, hw.2⟩)
      | answered hpath hstore hend => exact .answered hpath hstore hend fun _ => rfl
  | @answer stage reply fired listener stamp elapsedMs t hstage hwaits ha =>
      cases h with
      | @waits cancelled permit answers s now hpath hstore =>
          cases hstage
          have ha : t.value = (⟨repository, fired || cancelled, .waits stage, permit⟩ : Run).goTo
              ((⟨repository, threshold, listener⟩ : UpdateTask).resume
                ⟨fired || cancelled, stamp, elapsedMs⟩ stage (reply stage)).value := by
            cases fired <;> (cases ha; rfl)
          rw [ha]
          cases hp : ((⟨repository, threshold, listener⟩ : UpdateTask).resume
              ⟨fired || cancelled, stamp, elapsedMs⟩ stage (reply stage)).value with
          | waits next =>
              have hfollows : stage.Follows threshold (reply stage) next :=
                UpdateTask.follows_of_resume hp
              rw [moved_waits]
              refine .waits (hpath.next hfollows) fun hrank => hstore ?_
              have := hfollows.rank_eq
              omega
          | ended e =>
              rw [moved_ended]
              exact .answered hpath hstore hp fun hfired => hfired
      | _ => cases hstage
  | interrupt hi =>
      cases h with
      | waits hpath hstore =>
          obtain ⟨s, hs, hcancelled, hopen, ht⟩ := Run.interrupt?_cases hi
          cases hs
          rw [ht]
          exact .stopped hpath hstore (.inl ⟨hcancelled, hopen, rfl⟩)
      | _ => cases hi
  | crash hc =>
      cases h with
      | waits hpath hstore =>
          cases hc
          exact .stopped hpath hstore (.inr ⟨_, rfl⟩)
      | _ => cases hc
  | write hstage =>
      cases h with
      | waits hpath hstore =>
          cases hstage
          exact .waits hpath fun hrank => absurd hrank (by simp [Stage.rank])
      | _ => cases hstage

theorem Reached.sound (h : Reached repository threshold store c) :
    c.Sound repository threshold store := by
  induction h with
  | new => exact .admitted
  | step _ hs ih => exact ih.step hs

theorem reached_of_path {answers : List Exchange} {s : Stage} (h : Path threshold answers s)
    (permit : Option Permit) :
    Reached repository threshold store
      ⟨⟨repository, false, .waits s, permit⟩, callsTo repository answers s, answers, store⟩ := by
  induction h with
  | loading =>
      have new : Reached repository threshold store ⟨.new repository permit, [], [], store⟩ := .new
      exact new.step (.begin rfl)
  | @next answers s t reply h hs ih =>
      obtain ⟨stamp, hp⟩ := UpdateTask.resume_of_follows hs repository .silent
      have hstep : Step threshold
          (⟨⟨repository, false, .waits s, permit⟩, callsTo repository answers s, answers, store⟩ :
            Course σ)
          ⟨⟨repository, false, .waits t, permit⟩, callsTo repository (answers ++ [⟨s, reply⟩]) t,
            answers ++ [⟨s, reply⟩], store⟩ := by
        have ha := @Step.answer σ threshold
          ⟨⟨repository, false, .waits s, permit⟩, callsTo repository answers s, answers, store⟩
          s (s.replyTo reply) false .silent stamp 0 _ rfl rfl rfl
        simp only [Traced.value_map, Stage.replyTo_self] at ha
        rw [← moved_waits]
        rw [← hp]
        exact ha
      exact ih.step hstep

end Course

end IndexRefresh
