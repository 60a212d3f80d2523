import IndexRefresh.Proofs.Update.Cancellation
import IndexRefresh.Store.Memory

namespace IndexRefresh

structure Keeper (σ : Type) where
  get : σ → String → Option Snapshot
  put : σ → Snapshot → σ
  get_put : ∀ store s, get (put store s) s.name = some s

def MemoryStore.keeper : Keeper MemoryStore where
  get := Table.get?
  put := MemoryStore.put
  get_put store s := Table.get?_insert_self store s.name s

theorem Origin.Known.eq {o p : Origin} (ho : o.Known) (hp : p.Known)
    (h : o.snapshot = p.snapshot) : o = p := by
  obtain ⟨snapshot, base, address⟩ := o
  obtain ⟨snapshot', base', address'⟩ := p
  obtain rfl : snapshot = snapshot' := h
  have hbase : base = base' := Option.some.inj (ho.base.symm.trans hp.base)
  have haddress : address = address' := Option.some.inj (ho.address.symm.trans hp.address)
  rw [hbase, haddress]

namespace Poll

variable {σ : Type}

def isAnswered (p : Poll σ) : Bool :=
  match p.finding with
  | .answered _ _ => true
  | _ => false

def Gives (p : Poll σ) (a : Replies) : Prop :=
  p.fired = false ∧ (p.finding = .pending ∨ p.finding = .answered a.reply false)

end Poll

namespace Course

variable {σ : Type} {repository : String} {threshold : UInt64} {store : σ} {c : Course σ}
  {ps : List (Poll σ)} {a : Replies} {o : Origin} {report : Report}

/-- What a store told a run is what it held when the run began, and what it said to have saved it
holds. -/
structure Honest (K : Keeper σ) (repository : String) (store : σ) (c : Course σ) : Prop where
  loaded : ∀ found,
    ⟨.loading, (.ok found : Except Fault (Option Snapshot))⟩ ∈ c.answers →
      found = K.get store repository
  saved : ∀ o head output updated,
    ⟨.saving o head output updated, (.ok () : Except Fault Unit)⟩ ∈ c.answers →
      ∃ before, c.store = K.put before updated

def Finds (sha : String) (c : Course σ) : Prop :=
  ∀ o head, ⟨.resolving o, (.ok head : Except Fault HeadCommit)⟩ ∈ c.answers → head.sha = sha

theorem Sound.exists_saved (h : c.Sound repository threshold store)
    (hend : c.run.state = .ended (.reported report)) (hnew : report.outcome ≠ .noChanges) :
    ∃ o head output stamp updated,
      ⟨.loading, (.ok (some o.snapshot) : Except Fault (Option Snapshot))⟩ ∈ c.answers ∧
      ⟨.saving o head output updated, (.ok () : Except Fault Unit)⟩ ∈ c.answers ∧ o.Known ∧
      UpdateTask.applied? o.snapshot head.sha output stamp = some updated ∧
      report.commitSha = head.sha ∧ report.stats = output.stats ∧ report.errors = output.errors := by
  cases h with
  | admitted => cases hend
  | waits => cases hend
  | stopped hpath hstore hwhy =>
      cases hend
      rcases hwhy with ⟨-, -, hwhy⟩ | ⟨detail, hwhy⟩ <;> cases hwhy
  | @answered cancelled permit answers s reply now e listener w hpath hstore hresume =>
      cases hend
      rcases UpdateTask.reports_of_resume hresume with hnone | hsaving
      · exact absurd hnone hnew
      · obtain ⟨o, head, output, updated, rfl, hreport⟩ := hsaving
        obtain ⟨changes, stamp, rfl, ho, -, -, happlied⟩ := hpath.of_saving
        cases reply with
        | error f => cases hresume
        | ok u => exact ⟨o, head, output, stamp, updated, by simp, by simp, ho, happlied, hreport⟩

end Course

structure UpToDate (o : Origin) (answers : List Exchange) : Prop where
  known : o.Known
  loaded : ∀ found, ⟨.loading, (.ok found : Except Fault (Option Snapshot))⟩ ∈ answers →
    found = some o.snapshot
  found : ∀ p head, ⟨.resolving p, (.ok head : Except Fault HeadCommit)⟩ ∈ answers →
    head.sha = o.base

theorem UpToDate.of_append {o : Origin} {answers later : List Exchange}
    (h : UpToDate o (answers ++ later)) : UpToDate o answers where
  known := h.known
  loaded found hx := h.loaded found (List.mem_append_left _ hx)
  found p head hx := h.found p head (List.mem_append_left _ hx)

theorem Path.of_upToDate {threshold : UInt64} {o : Origin} {answers : List Exchange} {s : Stage}
    (hpath : Path threshold answers s) (h : UpToDate o answers) :
    s = .loading ∧ answers = [] ∨ s = .resolving o ∧
      answers = [⟨.loading, (.ok (some o.snapshot) : Except Fault (Option Snapshot))⟩] := by
  induction hpath with
  | loading => exact .inl ⟨rfl, rfl⟩
  | @next answers s t reply _ hs ih =>
      have hlast : ⟨s, reply⟩ ∈ answers ++ [⟨s, reply⟩] :=
        List.mem_append_right _ (List.mem_singleton_self _)
      rcases ih h.of_append with ⟨rfl, rfl⟩ | ⟨rfl, rfl⟩
      · cases hs with
        | @resolving snapshot base address hbase haddress =>
            have hsnapshot : snapshot = o.snapshot := Option.some.inj (h.loaded _ hlast)
            have hsame : (⟨snapshot, base, address⟩ : Origin) = o :=
              Origin.Known.eq ⟨hbase, haddress⟩ h.known hsnapshot
            rw [hsame, hsnapshot]
            exact .inr ⟨rfl, rfl⟩
      · cases hs with
        | comparing hnew => exact absurd (h.found _ _ hlast) hnew

namespace Course

variable {σ : Type} {repository : String} {threshold : UInt64} {store : σ} {c : Course σ}
  {ps : List (Poll σ)} {a : Replies} {o : Origin} {e : Ending}

def lookups (repository : String) (o : Origin) : List Call :=
  [.load repository, .head o.address.owner o.address.repo o.snapshot.branch]

theorem callsTo_of_upToDate {answers : List Exchange} {s : Stage}
    (hpath : Path threshold answers s) (h : UpToDate o answers) :
    s.rank < 5 ∧ callsTo repository answers s <+: lookups repository o := by
  rcases hpath.of_upToDate h with ⟨rfl, rfl⟩ | ⟨rfl, rfl⟩
  · exact ⟨by simp [Stage.rank], [_], rfl⟩
  · exact ⟨by simp [Stage.rank], [], rfl⟩

theorem Sound.calls_of_upToDate (hc : c.Sound repository threshold store)
    (h : UpToDate o c.answers) : c.store = store ∧ c.calls <+: lookups repository o := by
  cases hc with
  | admitted => exact ⟨rfl, List.nil_prefix⟩
  | waits hpath hstore =>
      obtain ⟨hrank, hcalls⟩ := callsTo_of_upToDate hpath h
      exact ⟨hstore hrank, hcalls⟩
  | stopped hpath hstore =>
      obtain ⟨hrank, hcalls⟩ := callsTo_of_upToDate hpath h
      exact ⟨hstore hrank, hcalls⟩
  | answered hpath hstore =>
      obtain ⟨hrank, hcalls⟩ := callsTo_of_upToDate hpath h.of_append
      exact ⟨hstore hrank, hcalls⟩

structure Served (c : Course σ) : Prop where
  answered : c.calls.length = c.answers.length
  loaded : ∀ f, ⟨.loading, (.error f : Except Fault (Option Snapshot))⟩ ∉ c.answers
  found : ∀ p f, ⟨.resolving p, (.error f : Except Fault HeadCommit)⟩ ∉ c.answers

theorem Sound.reported_of_upToDate (hc : c.Sound repository threshold store)
    (h : UpToDate o c.answers) (hend : c.run.state = .ended e) (hrun : c.run.cancelled = false)
    (hserved : c.Served) :
    ∃ head, ⟨.resolving o, (.ok head : Except Fault HeadCommit)⟩ ∈ c.answers ∧
      e = .reported (.noChanges repository o.base head.message) ∧ c.calls = lookups repository o := by
  cases hc with
  | admitted => cases hend
  | waits => cases hend
  | stopped => exact absurd hserved.answered (by simp [callsTo])
  | @answered cancelled permit answers s reply now e listener w hpath _ hresume hfired =>
      cases hend
      have hlast : (⟨s, reply⟩ : Exchange) ∈ answers ++ [⟨s, reply⟩] :=
        List.mem_append_right _ (List.mem_singleton_self _)
      have hw : w.cancelled = false := Bool.eq_false_iff.2 fun hon =>
        Bool.false_ne_true (hrun.symm.trans (hfired hon))
      rcases hpath.of_upToDate h.of_append with ⟨rfl, rfl⟩ | ⟨rfl, rfl⟩
      · cases reply with
        | error f => exact absurd hlast (hserved.loaded f)
        | ok found =>
            obtain rfl : found = some o.snapshot := h.loaded found hlast
            simp [UpdateTask.resume, UpdateTask.afterLoad, h.known.base, h.known.address,
              UpdateTask.enterRemote, hw, Traced.quiet] at hresume
      · cases reply with
        | error f => exact absurd hlast (hserved.found o f)
        | ok head =>
            have hsha : head.sha = o.base := h.found o head hlast
            refine ⟨head, hlast, ?_, rfl⟩
            simp only [UpdateTask.resume, UpdateTask.afterHead, hsha, if_true] at hresume
            exact (Progress.ended.inj hresume).symm

theorem foldl_poll_of_ended (hend : c.run.state = .ended e) (hps : ∀ p ∈ ps, p.fired = false) :
    ps.foldl (poll threshold) c = c := by
  induction ps with
  | nil => rfl
  | cons p ps ih =>
      obtain ⟨hp, hps⟩ := List.forall_mem_cons.1 hps
      rw [List.foldl_cons, poll_of_ended hend, hp]
      exact ih hps

structure Told (a : Replies) (c : Course σ) : Prop where
  running : c.run.cancelled = false
  replied : ∀ x ∈ c.answers, x.reply = a.reply x.stage

theorem Told.moved (h : c.Told a) (s : Stage) (f : σ → σ) {r : Run} (hr : r.cancelled = false) :
    ((c.stored s f).moved [⟨s, a.reply s⟩] r).Told a := by
  have hanswers : (c.stored s f).answers = c.answers := by
    cases s <;> rfl
  refine ⟨hr, fun x hx => ?_⟩
  rcases List.mem_append.1 hx with hx | hx
  · exact h.replied x (hanswers ▸ hx)
  · rw [List.mem_singleton.1 hx]

theorem length_calls_moved (s : Stage) (f : σ → σ) (x : Exchange) (r : Run)
    (h : c.calls.length = c.answers.length + 1) :
    ((c.stored s f).moved [x] r).calls.length =
      ((c.stored s f).moved [x] r).answers.length + r.stage?.toList.length := by
  have hanswers : (c.stored s f).answers = c.answers := by
    cases s <;> rfl
  cases hr : r.stage? <;> simp [Course.moved, hanswers, h, hr]

theorem exists_ended_of_gives {s : Stage} (hs : c.run.state = .waits s) (h : c.Told a)
    (hcalls : c.calls.length = c.answers.length + 1) (hps : ∀ p ∈ ps, p.Gives a)
    (hcount : 6 ≤ s.rank + ps.countP Poll.isAnswered) :
    ∃ e, (ps.foldl (poll threshold) c).run.state = .ended e ∧
      (ps.foldl (poll threshold) c).Told a ∧
      (ps.foldl (poll threshold) c).calls.length = (ps.foldl (poll threshold) c).answers.length := by
  induction ps generalizing c s with
  | nil =>
      cases s <;> simp [Stage.rank] at hcount
  | cons p ps ih =>
      obtain ⟨⟨hfired, hfinding⟩, hps⟩ := List.forall_mem_cons.1 hps
      have hpoll : c.poll threshold p = c.found threshold s p := by
        rw [poll_of_waits hs (by simp [hfired, h.running]), hfired]
        rfl
      rw [List.foldl_cons, hpoll]
      rcases hfinding with hf | hf
      · rw [found_of_pending hf]
        have hcount : 6 ≤ s.rank + ps.countP Poll.isAnswered := by
          simpa [List.countP_cons, Poll.isAnswered, hf] using hcount
        cases s with
        | saving => exact ih hs ⟨h.running, h.replied⟩ hcalls hps hcount
        | _ => exact ih hs h hcalls hps hcount
      · rw [found_of_answered hs hf]
        generalize hp : ((c.run.task threshold p.listener).resume _ s (a.reply s)).value = progress
        have hrun : ((c.fire false).run.goTo progress).cancelled = false := by
          rw [Run.cancelled_goTo]
          exact h.running
        have htold := h.moved s p.stored hrun
        have hlength := length_calls_moved s p.stored ⟨s, a.reply s⟩
          ((c.fire false).run.goTo progress) hcalls
        cases progress with
        | waits next =>
            have hrank := (UpdateTask.follows_of_resume hp).rank_eq
            have hcount : 6 ≤ next.rank + ps.countP Poll.isAnswered := by
              rw [List.countP_cons_of_pos (by simp [Poll.isAnswered, hf])] at hcount
              omega
            exact ih rfl htold hlength hps hcount
        | ended e =>
            rw [foldl_poll_of_ended rfl fun p hp => (hps p hp).1]
            exact ⟨e, rfl, htold, hlength⟩

theorem Honest.upToDate {K : Keeper σ} (h : c.Honest K repository store) (hfinds : c.Finds o.base)
    (ho : o.Known) (hentry : K.get store repository = some o.snapshot) : UpToDate o c.answers where
  known := ho
  loaded found hx := (h.loaded found hx).trans hentry
  found := hfinds

end Course

namespace Errand

variable {σ : Type} {K : Keeper σ} {repository sha : String} {store now : σ} {o : Origin}

/-- What a store comes to while runs of a repository follow one another whose head lookups find the
same commit; in between others may write any entry but that of the repository. -/
inductive Later (K : Keeper σ) (repository sha : String) (store : σ) : σ → Prop where
  | refl : Later K repository sha store store
  | elsewhere {now next : σ} (h : Later K repository sha store now)
      (hentry : K.get next repository = K.get now repository) : Later K repository sha store next
  | run {b : Errand σ} {ps : List (Poll σ)} (h : Later K repository sha store b.store)
      (hrepository : b.repository = repository)
      (honest : (b.after ps).Honest K repository b.store) (hfinds : (b.after ps).Finds sha) :
      Later K repository sha store (b.after ps).store

theorem calls_of_finds {b : Errand σ} {ps : List (Poll σ)} (ho : o.Known)
    (hentry : K.get b.store b.repository = some o.snapshot)
    (honest : (b.after ps).Honest K b.repository b.store) (hfinds : (b.after ps).Finds o.base) :
    (b.after ps).store = b.store ∧ (b.after ps).calls <+: Course.lookups b.repository o :=
  (reached_after b ps).sound.calls_of_upToDate (honest.upToDate hfinds ho hentry)

theorem Later.get_eq (h : Later K repository o.base store now) (ho : o.Known)
    (hentry : K.get store repository = some o.snapshot) :
    K.get now repository = some o.snapshot := by
  induction h with
  | refl => exact hentry
  | elsewhere _ hsame ih => exact hsame.trans ih
  | run _ hrepository honest hfinds ih =>
      subst hrepository
      rw [(calls_of_finds ho ih honest hfinds).1]
      exact ih

theorem known_of_applied? {u : Snapshot} {head : HeadCommit} {output : PipelineOutput}
    {stamp : Timestamp} (ho : o.Known) (hhead : head.sha ≠ "")
    (h : UpdateTask.applied? o.snapshot head.sha output stamp = some u) :
    (⟨u, head.sha, o.address⟩ : Origin).Known where
  base := by
    simp [Snapshot.baseSha?, (appliedTo_of_applied? h).indexedSha, Option.filter_some, hhead]
  address := by
    rw [(appliedTo_of_applied? h).url]
    exact ho.address

theorem exists_ended_of_gives {b : Errand σ} {ps : List (Poll σ)} {a : Replies}
    (hps : ∀ p ∈ ps, p.Gives a) (hcount : 7 ≤ ps.countP Poll.isAnswered) :
    ∃ e, (b.after ps).run.state = .ended e ∧ (b.after ps).Told a ∧
      (b.after ps).calls.length = (b.after ps).answers.length := by
  cases ps with
  | nil => simp at hcount
  | cons p ps =>
      obtain ⟨⟨hfired, -⟩, hps⟩ := List.forall_mem_cons.1 hps
      let begun : Course σ :=
        ⟨⟨b.repository, false, .waits .loading, b.permit⟩, [.load b.repository], [], b.store⟩
      have hbegun : b.after (p :: ps) = ps.foldl (Course.poll b.threshold) begun := by
        rw [after, List.foldl_cons, Course.poll_of_admitted rfl, hfired]
        rfl
      have hnew : begun.Told a := ⟨rfl, fun x hx => absurd hx List.not_mem_nil⟩
      have hcount : 6 ≤ Stage.loading.rank + ps.countP Poll.isAnswered := by
        rw [List.countP_cons] at hcount
        split at hcount <;> omega
      rw [hbegun]
      exact Course.exists_ended_of_gives rfl hnew rfl hps hcount

theorem after_of_gives {b : Errand σ} {ps : List (Poll σ)} {a : Replies} {head : HeadCommit}
    (ho : o.Known) (hload : a.load = .ok (some o.snapshot)) (hhead : a.head = .ok head)
    (hsha : head.sha = o.base) (hps : ∀ p ∈ ps, p.Gives a)
    (hcount : 7 ≤ ps.countP Poll.isAnswered) :
    (b.after ps).run.state = .ended (.reported (.noChanges b.repository o.base head.message)) ∧
      (b.after ps).calls = Course.lookups b.repository o ∧ (b.after ps).store = b.store := by
  obtain ⟨e, hend, htold, hanswered⟩ := exists_ended_of_gives (b := b) hps hcount
  have hready : UpToDate o (b.after ps).answers := by
    refine ⟨ho, fun found hx => ?_, fun p h hx => ?_⟩
    · exact Except.ok.inj ((htold.replied _ hx).trans hload)
    · rw [Except.ok.inj ((htold.replied _ hx).trans hhead), hsha]
  have hserved : (b.after ps).Served := by
    refine ⟨hanswered, fun f hx => ?_, fun p f hx => ?_⟩
    · cases (htold.replied _ hx).trans hload
    · cases (htold.replied _ hx).trans hhead
  have hsound := (reached_after b ps).sound
  obtain ⟨found, hfound, rfl, hcalls⟩ :=
    hsound.reported_of_upToDate hready hend htold.running hserved
  have hsame : found = head := Except.ok.inj ((htold.replied _ hfound).trans hhead)
  exact ⟨hsame ▸ hend, hcalls, (hsound.calls_of_upToDate hready).1⟩

/-- Once a run has reported what it did, the runs after it find nothing to do as long as the head
stays, also when some files failed. -/
theorem settles_after_one_run (K : Keeper σ) (b : Errand σ) (ps : List (Poll σ)) (report : Report)
    (hnamed : ∀ s, K.get b.store b.repository = some s → s.name = b.repository)
    (honest : (b.after ps).Honest K b.repository b.store)
    (hend : (b.after ps).run.state = .ended (.reported report))
    (hnew : report.outcome ≠ .noChanges) (hsha : report.commitSha ≠ "") :
    ∃ first saved stamp address,
      K.get b.store b.repository = some first ∧
      AppliedTo first report.commitSha ⟨report.stats, report.errors⟩ stamp saved ∧
      Address.ofUrl? saved.url = some address ∧
      ∀ now, Later K b.repository report.commitSha (b.after ps).store now →
        K.get now b.repository = some saved ∧
        (∀ (d : Errand σ) qs, d.repository = b.repository → d.store = now →
          (d.after qs).Honest K b.repository now → (d.after qs).Finds report.commitSha →
          (d.after qs).store = now ∧
          (d.after qs).calls <+:
            [.load b.repository, .head address.owner address.repo saved.branch] ∧
          ∀ e, (d.after qs).run.state = .ended e → (d.after qs).run.cancelled = false →
            (d.after qs).Served →
            ∃ message, e = .reported (.noChanges b.repository report.commitSha message)) ∧
        ∀ (d : Errand σ) qs (a : Replies) head, d.repository = b.repository → d.store = now →
          a.load = .ok (K.get now b.repository) → a.head = .ok head →
          head.sha = report.commitSha → (∀ q ∈ qs, q.Gives a) → 7 ≤ qs.countP Poll.isAnswered →
          (∃ r, (d.after qs).run.state = .ended (.reported r) ∧ r.repository = b.repository ∧
            r.outcome = .noChanges ∧ r.commitSha = report.commitSha ∧ r.stats = .zero ∧
            r.errors = []) ∧
          (d.after qs).calls =
            [.load b.repository, .head address.owner address.repo saved.branch] ∧
          (d.after qs).store = now := by
  obtain ⟨o, head, output, stamp, updated, hload, hsave, ho, happlied, hcommit, hstats, herrors⟩ :=
    (reached_after b ps).sound.exists_saved hend hnew
  have hfirst : K.get b.store b.repository = some o.snapshot := (honest.loaded _ hload).symm
  have hupdated := appliedTo_of_applied? happlied
  have hentry : K.get (b.after ps).store b.repository = some updated := by
    obtain ⟨before, hput⟩ := honest.saved _ _ _ _ hsave
    have hname : updated.name = b.repository := hupdated.name.trans (hnamed _ hfirst)
    rw [hput, ← hname]
    exact K.get_put before updated
  rw [hcommit] at hsha ⊢
  have hknown : (⟨updated, head.sha, o.address⟩ : Origin).Known := known_of_applied? ho hsha happlied
  rw [hstats, herrors]
  refine ⟨o.snapshot, updated, stamp, o.address, hfirst, hupdated, hknown.address,
    fun now hnow => ?_⟩
  have hnow := hnow.get_eq hknown hentry
  refine ⟨hnow, fun d qs hrepository hstore honest hfinds => ?_,
    fun d qs a h hrepository hstore haload hahead hh hqs hcount => ?_⟩
  · rw [← hrepository] at hnow honest ⊢
    subst hstore
    obtain ⟨hsame, hcalls⟩ := calls_of_finds hknown hnow honest hfinds
    refine ⟨hsame, hcalls, fun e hended hrun hserved => ?_⟩
    obtain ⟨h, -, rfl, -⟩ := (reached_after d qs).sound.reported_of_upToDate
      (honest.upToDate hfinds hknown hnow) hended hrun hserved
    exact ⟨h.message, rfl⟩
  · rw [hnow] at haload
    subst hstore
    obtain ⟨hended, hcalls, hsame⟩ := after_of_gives hknown haload hahead hh hqs hcount
    rw [hrepository] at hended hcalls
    exact ⟨⟨_, hended, rfl, rfl, rfl, rfl, rfl⟩, hcalls, hsame⟩

theorem settles_after_one_run_with_file_errors :
    ∃ (b d : Errand MemoryStore) (ps qs : List (Poll MemoryStore)) (report r : Report),
      (b.after ps).run.state = .ended (.reported report) ∧ report.outcome = .failed ∧
      d.store = (b.after ps).store ∧ (d.after qs).run.state = .ended (.reported r) ∧
      r.outcome = .noChanges ∧ r.commitSha = report.commitSha ∧
      (d.after qs).store = (b.after ps).store ∧
      ((d.after qs).store.get? "a").map (fun s => (s.status, s.updateCount)) = some (.error, 1) := by
  let first : Snapshot := { Snapshot.fresh "a" "https://host/owner/repo" "main" "/work" with
    indexedSha := some "old" }
  let output : PipelineOutput := ⟨{ Stats.zero with filesAdded := 1 }, [⟨"file", "unreadable"⟩]⟩
  let a : Replies := {
    load := .ok (some first)
    head := .ok ⟨"new", "message"⟩
    compare := .ok ⟨"old", "new", 1, [.plain "file" .added], false⟩
    pull := .ok ()
    process := .ok output
    save := .ok () }
  let saved : Snapshot := { first with
    indexedSha := some "new", updateCount := 1, updatedAt := some (.ofEpoch 0 0), fileCount := 1,
    status := .error }
  let poll (a : Replies) : Poll MemoryStore :=
    ⟨false, .answered a.reply false, .silent, .ofEpoch 0 0, 0, (·.put saved)⟩
  let b : Errand MemoryStore := ⟨"a", 10, none, MemoryStore.ofSnapshots [first]⟩
  let ps := List.replicate 7 (poll a)
  have hend : (b.after ps).run.state = .ended (.reported ⟨"a", .failed, "new", "message",
    output.stats, output.errors, 0⟩) := by decide
  have hcalls : (b.after ps).answers.map (fun x => x.stage.call "a") =
      [.load "a", .head "owner" "repo" "main", .compare "owner" "repo" "old" "new",
        .pull "/work" "main", .process ⟨"a", "/work", "old", "new"⟩ [.plain "file" .added],
        .save saved] := by decide
  have hentries : (b.after ps).store.entries = (b.store.put saved).entries := by decide
  have hgives (a : Replies) : ∀ q ∈ List.replicate 7 (poll a), q.Gives a := by
    intro q hq
    rw [List.eq_of_mem_replicate hq]
    exact ⟨rfl, .inr rfl⟩
  have honest : (b.after ps).Honest MemoryStore.keeper "a" b.store := by
    obtain ⟨e, -, htold, -⟩ := exists_ended_of_gives (b := b) (hgives a) (by decide)
    refine ⟨fun found hx => ?_, fun o head output updated hx => ?_⟩
    · exact Except.ok.inj (htold.replied _ hx)
    · have hcall := List.mem_map_of_mem (f := fun x : Exchange => x.stage.call "a") hx
      rw [hcalls] at hcall
      obtain rfl : updated = saved := by simpa [Stage.call] using hcall
      exact ⟨b.store, Table.eq_of_get?_eq fun key => congrArg (List.lookup key) hentries⟩
  obtain ⟨_, _, _, _, -, -, -, hlater⟩ := settles_after_one_run MemoryStore.keeper b ps _
    (fun s hs => by cases hs; rfl) honest hend (by decide) (by decide)
  let d : Errand MemoryStore := ⟨"a", 10, none, (b.after ps).store⟩
  have hstored : MemoryStore.keeper.get d.store "a" = some saved := by decide
  let later : Replies := { a with load := .ok (some saved) }
  obtain ⟨⟨r, hr, -, hnone, hcommit, -⟩, -, hsame⟩ := (hlater _ .refl).2.2 d
    (List.replicate 7 (poll later)) later ⟨"new", "message"⟩ rfl rfl (by rw [hstored]) rfl rfl
    (hgives later) (by decide)
  refine ⟨b, d, ps, _, _, r, hend, rfl, rfl, hr, hnone, hcommit, hsame, ?_⟩
  rw [hsame]
  decide

end Errand

end IndexRefresh
