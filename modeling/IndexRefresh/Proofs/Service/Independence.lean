import IndexRefresh.Proofs.Service.Outlook
import Mathlib.Data.List.Forall2

namespace IndexRefresh

def Alike (repository : String) (x y : List String × Response) : Prop :=
  ∃ d, Tells repository x d ∧ Tells repository y d

namespace Service

variable {limits : Limits} {threshold : UInt64} {history : List Deed} {s t : Service}
  {repository other : String} {ids : List String} {v : Outlook} {m : Moment} {i j : Nat}
  {r q : Run} {c : Chore} {a : Response} {l : Ledger} {busy : Bool}

theorem acquire_value (s : Service) (m : Moment) (repository : String) :
    (s.acquire m repository).value =
      match s.guard.denial? m.instant repository with
      | none =>
          ({ s with guard := (s.guard.markInProgress repository).value }, .admitted ⟨repository⟩)
      | some d =>
          (s, match refusal? repository d with
            | some r => .refused r
            | none => .crashed overflowText) := by
  unfold acquire Guard.acquire
  cases s.guard.denial? m.instant repository with
  | none => rfl
  | some d =>
      dsimp only
      cases refusal? repository d <;> rfl

theorem Shows.triggerSync (h : Shows repository ids s v) (hs : s.ledger.Sound) (hw : s.Watchful)
    (threshold : UInt64) (m : Moment) :
    Shows repository ids (s.triggerSync m repository).value.1
        (v.next threshold repository (.triggerSync m)) ∧
      ∃ d, v.decision? repository (.triggerSync m) = some d ∧
        Tells repository (ids, .admission (s.triggerSync m repository).value.2) d := by
  have hlatest := h.latest
  have hcounted := h.counted
  cases hbusy : v.busy with
  | true =>
      rw [hbusy] at hlatest
      obtain ⟨j, earlier, hj, rfl⟩ := hlatest.exists_outstanding? hs
      rw [triggerSync_of_outstanding hj]
      simp only [Outlook.next, Outlook.decision?, hbusy, Bool.true_or, if_true, ← hcounted]
      exact ⟨h, _, rfl, .busy⟩
  | false =>
      rw [hbusy] at hlatest
      have hacquire := s.acquire_value m repository
      rw [h.denial?_eq] at hacquire
      simp only [Outlook.next, Outlook.decision?, Outlook.denial?, Service.triggerSync,
        hlatest.outstanding?_eq_none, hbusy, hacquire, Bool.false_or, Bool.false_eq_true, if_false]
      cases hdenial : v.watched.denial? m.instant with
      | none =>
          refine ⟨?_, _, rfl, .admitted⟩
          have hnext := (h.occupy repository).spawn ⟨hw.single, hw.started⟩ m repository .caller
          simpa [Client.isJob] using hnext
      | some d =>
          cases hrefusal : refusal? repository d with
          | none => simpa [hrefusal] using ⟨h, .crashedSync⟩
          | some r => simpa [hrefusal] using ⟨h, .refusedSync hrefusal⟩

theorem Shows.triggerSync_other (h : Shows repository ids s v) (hw : s.Watchful)
    (hne : other ≠ repository) (m : Moment) :
    Shows repository ids (s.triggerSync m other).value.1 v := by
  rcases s.triggerSync_cases m other with ⟨-, -, hv⟩ | ⟨a, hv, -⟩
  · rw [hv]
    have hnext := (h.occupy other).spawn ⟨hw.single, hw.started⟩ m other .caller
    simpa [hne] using hnext
  · rw [hv]
    exact h

theorem Latest.create? (h : Latest repository ids l false) {draws : List String}
    {x : Traced (Ledger × String)} (hx : l.create? m repository draws = some x) :
    Latest repository (x.value.2 :: ids) x.value.1 true where
  outstanding id := by
    rw [Ledger.isOutstanding_create? hx, h.outstanding]
    simp [eq_comm]
  entered _ := List.cons_ne_nil _ _

theorem Shows.triggerAsync? (h : Shows repository ids s v) (hs : s.ledger.Sound)
    (threshold : UInt64) {draws : List String} {x : Traced (Service × Admission JobAnswer)}
    (hx : s.triggerAsync? m draws repository = some x) :
    Shows repository
        ((Entry.entered? ⟨s, .triggerAsync m draws repository, .background x.value.2⟩
          repository).toList ++ ids) x.value.1 (v.next threshold repository (.triggerAsync m)) ∧
      ∃ d, v.decision? repository (.triggerAsync m) = some d ∧
        Tells repository (ids, .background x.value.2) d := by
  have hlatest := h.latest
  have hcounted := h.counted
  cases hbusy : v.busy with
  | true =>
      rw [hbusy] at hlatest
      obtain ⟨j, earlier, hj, rfl⟩ := hlatest.exists_outstanding? hs
      simp only [Service.triggerAsync?, hj, Option.some.injEq] at hx
      subst hx
      simp only [Outlook.next, Outlook.decision?, hbusy, Bool.true_or, if_true, ← hcounted,
        Entry.entered?, hj, reduceCtorEq, and_false, if_false, Option.toList_none,
        List.nil_append]
      exact ⟨h, _, rfl, .joined⟩
  | false =>
      rw [hbusy] at hlatest
      have hnone := hlatest.outstanding?_eq_none
      have hacquire := s.acquire_value m repository
      rw [h.denial?_eq] at hacquire
      simp only [Outlook.next, Outlook.decision?, Outlook.denial?, hbusy, Bool.false_or,
        Bool.false_eq_true, if_false]
      cases hdenial : v.watched.denial? m.instant with
      | none =>
          rw [hdenial] at hacquire
          simp only [Service.triggerAsync?, hnone, hacquire, Option.map_eq_some_iff] at hx
          obtain ⟨y, hy, rfl⟩ := hx
          have hoccupied := h.occupy repository
          rw [if_pos rfl] at hoccupied
          refine ⟨?_, _, rfl, .entered⟩
          simp only [Entry.entered?, hnone, and_self, if_true, Option.toList_some,
            List.singleton_append, Option.map_none, Option.isSome_none, Bool.false_eq_true,
            if_false]
          exact ⟨hoccupied.watched, congrArg (· + 1) hcounted, hlatest.create? hy,
            h.roll.congr rfl fun _ _ => rfl⟩
      | some d =>
          rw [hdenial] at hacquire
          simp only [Service.triggerAsync?, hnone, hacquire] at hx
          cases hrefusal : refusal? repository d with
          | none =>
              simp only [hrefusal, Option.some.injEq] at hx
              subst hx
              simpa [hrefusal, Entry.entered?] using ⟨h, .crashedAsync⟩
          | some r =>
              simp only [hrefusal, Option.some.injEq] at hx
              subst hx
              simpa [hrefusal, Entry.entered?] using ⟨h, .refusedAsync hrefusal⟩

theorem Shows.triggerAsync?_other (h : Shows repository ids s v) (hne : other ≠ repository)
    {draws : List String} {x : Traced (Service × Admission JobAnswer)}
    (hx : s.triggerAsync? m draws other = some x) : Shows repository ids x.value.1 v := by
  rcases triggerAsync?_cases hx with ⟨y, -, -, hy, hv⟩ | ⟨hv, -⟩
  · have hoccupied := h.occupy other
    rw [if_neg hne] at hoccupied
    rw [hv]
    refine hoccupied.congr rfl (fun id => ?_) rfl rfl
    rw [Ledger.isOutstanding_create? hy]
    simp [hne]
  · rw [hv]
    exact h

theorem Shows.setCooldown (h : Shows repository ids s v) (other : String) (cooldown : Duration) :
    Shows repository ids { s with guard := s.guard.setCooldown other cooldown }
      (if other = repository then { v with watched := { v.watched with cooldown := cooldown } }
       else v) :=
  h.put other fun w => { w with cooldown := cooldown }

theorem Shows.launch? (h : Shows repository ids s v) (hg : s.Guarded) (hw : s.Watchful)
    {job : String} {x : Traced (Service × Nat)} (hx : s.launch? m job = some x) :
    Shows repository ids x.value.1
      (if (s.launches.find? (·.job = job)).any (·.repository = repository) then
        v.spawn repository true
       else v) := by
  obtain ⟨l, hl, rfl⟩ := Option.map_eq_some_iff.1 hx
  have hpermit := hg.launched l (List.mem_of_find?_eq_some hl)
  have hmoved : Shows repository ids
      { s with
        ledger := (s.ledger.advance m job .running).value.1
        launches := s.launches.erase l } v :=
    h.congr rfl (fun _ => Ledger.isOutstanding_advance_running) rfl rfl
  have hspawned := hmoved.spawn ⟨hw.single, hw.started⟩ m l.repository (.job job)
  rw [hl, hpermit]
  simpa [Client.isJob] using hspawned

inductive Handled (s : Service) (i : Nat) : Chore → Service → Prop where
  | turned {c : Chore} {m : Moment} {r q : Run} {t : Service} (hr : s.runs[i]? = some r)
      (hlive : r.isLive = true) (hq : c.turn? s.threshold r = some q)
      (hrepository : q.repository = r.repository) (hpermit : q.permit = r.permit)
      (hm : m.instant = c.instant) (hguard : t.guard = (s.putRun m i q).value.guard)
      (hruns : t.runs = (s.putRun m i q).value.runs) (hledger : t.ledger = s.ledger)
      (hparty : ∀ j, t.party? j = s.party? j) : Handled s i c t
  | settled {m : Moment} {w : Watch} {e : Conclusion} (hw : w ∈ s.watches) (hi : w.run = i) :
      Handled s i (.settle m) (s.conclude m w e).value.1
  | abandoned : Handled s i .abandon (s.abandon i)

theorem handled_putRun (hr : s.runs[i]? = some r) (hlive : r.isLive = true)
    (hq : c.turn? s.threshold r = some q) (hrepository : q.repository = r.repository)
    (hpermit : q.permit = r.permit) (hm : m.instant = c.instant) :
    Handled s i c (s.putRun m i q).value :=
  .turned hr hlive hq hrepository hpermit hm rfl rfl (ledger_putRun ..) fun j =>
    party?_congr (watches_putRun ..) j

theorem chore?_handled (h : s.chore? i c = some (t, a)) : Handled s i c t := by
  cases c with
  | begin =>
      obtain ⟨x, hx, hv⟩ := Option.map_eq_some_iff.1 h
      cases hv
      obtain ⟨q, hq, rfl⟩ := Option.map_eq_some_iff.1 hx
      obtain ⟨r, hr, hb⟩ := Option.bind_eq_some_iff.1 hq
      obtain ⟨hadmitted, rfl⟩ := Run.begin?_cases hb
      have hdone := handled_putRun (m := ⟨0, .ofEpoch 0 0⟩) (c := .begin) hr
        (by simp [Run.isLive, hadmitted]) hb rfl rfl rfl
      rwa [putRun_of_isLive rfl] at hdone
  | answer m listener elapsedMs stage reply =>
      simp only [chore?] at h
      split at h
      · obtain ⟨x, hx, hv⟩ := Option.map_eq_some_iff.1 h
        cases hv
        obtain ⟨r, y, hr, hy, hv⟩ := answerRun?_cases hx
        obtain ⟨stage', hstage', hgo⟩ := Run.answer?_cases hy
        rw [hv]
        exact handled_putRun hr (Run.isLive_of_waits hstage')
          (Option.map_eq_some_iff.2 ⟨y, hy, rfl⟩) (by simp [hgo]) (by simp [hgo]) rfl
      · cases h
  | interrupt m =>
      obtain ⟨x, hx, hv⟩ := Option.map_eq_some_iff.1 h
      cases hv
      obtain ⟨r, y, hr, hy, hv⟩ := interruptRun?_cases hx
      obtain ⟨stage, hstage, -, -, hgo⟩ := Run.interrupt?_cases hy
      rw [hv]
      exact handled_putRun hr (Run.isLive_of_waits hstage) (Option.map_eq_some_iff.2 ⟨y, hy, rfl⟩)
        (by simp [hgo]) (by simp [hgo]) rfl
  | crash m detail =>
      obtain ⟨x, hx, hv⟩ := Option.map_eq_some_iff.1 h
      cases hv
      obtain ⟨r, q, hr, hq, hv⟩ := crashRun?_cases hx
      have hcrashed : Chore.turn? s.threshold (.crash m detail) r = some q := hq
      obtain ⟨stage, hstage, rfl⟩ := Run.crash?_cases hq
      rw [hv]
      exact handled_putRun hr (Run.isLive_of_waits hstage) hcrashed rfl rfl rfl
  | drop m =>
      obtain ⟨x, hx, hv⟩ := Option.map_eq_some_iff.1 h
      cases hv
      obtain ⟨r, hr, rfl⟩ := Option.map_eq_some_iff.1 hx
      obtain ⟨hr, hlive⟩ := Option.filter_eq_some_iff.1 hr
      exact handled_putRun hr hlive rfl rfl rfl rfl
  | expire m =>
      obtain ⟨x, hx, hv⟩ := Option.map_eq_some_iff.1 h
      cases hv
      obtain ⟨w, r, -, -, hr, -, hlive, -, hv⟩ := expire?_cases hx
      have hcancelled : r.cancel.isLive = true := hlive
      rw [hv]
      refine .turned (m := m) (q := r.cancel) hr hlive rfl rfl rfl ?_ ?_ ?_ rfl fun j => ?_
      · rfl
      · rw [putRun_of_isLive hcancelled]
      · rw [putRun_of_isLive hcancelled]
      · refine party?_map (fun w => ?_) (fun w => ?_) rfl j <;> split <;> rfl
  | settle m =>
      obtain ⟨x, hx, hv⟩ := Option.map_eq_some_iff.1 h
      cases hv
      obtain ⟨w, r, e, hw, hi, -, -, rfl⟩ := settle?_cases hx
      exact .settled hw hi
  | abandon =>
      cases h
      exact .abandoned

theorem Regulated.threshold_eq (h : Regulated limits threshold history s) :
    s.threshold = threshold := by
  induction h with
  | new => rfl
  | step _ hs ih => exact hs.effect.threshold_eq.trans ih
  | setCooldown _ ih => exact ih

theorem putRun_of_permit {p : Permit} (hp : q.permit = some p) (m : Moment) (i : Nat) :
    (s.putRun m i q).value =
      if q.isLive then { s with runs := s.runs.set i q }
      else
        { s with
          guard := (s.guard.release m.instant p).value
          runs := s.runs.set i { q with permit := none } } := by
  unfold putRun
  rw [hp]
  cases q.isLive <;> rfl

theorem Outlook.chore_of_turn {k : Nat} {forJob : Option Bool} (ha : v.runs[k]? = some ⟨r, forJob⟩)
    (hq : c.turn? threshold r = some q) :
    v.chore threshold k c = v.putRun c.instant k q forJob := by
  unfold Outlook.chore
  cases c with
  | settle m => cases hq
  | abandon => cases hq
  | _ => simp only [ha, hq]

theorem Shows.turned (h : Shows repository ids s v) (hg : s.Guarded) (hr : s.runs[i]? = some r)
    (hlive : r.isLive = true) (hq : c.turn? s.threshold r = some q)
    (hrepository : q.repository = r.repository) (hpermit : q.permit = r.permit)
    (hm : m.instant = c.instant) (hguard : t.guard = (s.putRun m i q).value.guard)
    (hruns : t.runs = (s.putRun m i q).value.runs) (hledger : t.ledger = s.ledger)
    (hparty : ∀ j, t.party? j = s.party? j) :
    Shows repository ids t
      (if r.repository = repository then v.chore s.threshold (s.rank repository i) c else v) := by
  rw [putRun_of_permit (hpermit.trans (hg.permit_of_isLive ⟨hr, hlive⟩))] at hguard hruns
  have hlatest : Latest repository ids t.ledger v.busy := by
    rw [hledger]
    exact h.latest
  have hown (heq : r.repository = repository) :
      v.chore s.threshold (s.rank repository i) c =
        v.putRun c.instant (s.rank repository i) q (s.party? i) :=
    Outlook.chore_of_turn (h.roll.listed i r hr heq) hq
  cases hend : q.isLive with
  | true =>
      rw [hend, if_pos rfl] at hguard hruns
      have hroll := h.roll.set hr hrepository hruns fun j _ => hparty j
      split
      · next heq =>
          rw [if_pos heq, hparty] at hroll
          rw [hown heq, Outlook.putRun, if_pos hend]
          exact ⟨hguard ▸ h.watched, h.counted, hlatest, hroll⟩
      · next hne =>
          rw [if_neg hne] at hroll
          exact ⟨hguard ▸ h.watched, h.counted, hlatest, hroll⟩
  | false =>
      rw [hend, if_neg Bool.false_ne_true] at hguard hruns
      have hroll := h.roll.set hr (q := { q with permit := none }) hrepository hruns
        fun j _ => hparty j
      have hreleased := h.put r.repository fun w =>
        { w with inProgress := false, completedAt := some m.instant }
      split
      · next heq =>
          subst heq
          rw [if_pos rfl, hparty] at hroll
          rw [if_pos rfl] at hreleased
          rw [hown rfl, Outlook.putRun, if_neg (by simp [hend]), ← hm]
          exact ⟨hguard ▸ hreleased.watched, h.counted, hlatest, hroll⟩
      · next hne =>
          rw [if_neg hne] at hroll hreleased
          exact ⟨hguard ▸ hreleased.watched, h.counted, hlatest, hroll⟩

theorem isOutstanding_of_client {w : Watch} {id : String} (ht : Tasked history s)
    (ha : Attributed history s) (hw : w ∈ s.watches) (hid : w.client = .job id) :
    s.ledger.IsOutstanding w.repository id := by
  obtain ⟨j, hj, hopen⟩ := Ledger.isOpen_iff.1 (ht.isOpen_of_client hw hid)
  exact ⟨j, hj, ha.watched w hw id j hid hj, hopen⟩

theorem Latest.conclude {w : Watch} (h : Latest repository ids s.ledger busy)
    (ht : Tasked history s) (ha : Attributed history s) (hw : w ∈ s.watches) (m : Moment)
    (e : Conclusion) :
    Latest repository ids (s.conclude m w e).value.1.ledger
      (if w.repository = repository then busy && decide (some w.client.isJob ≠ some true)
       else busy) := by
  cases hclient : w.client with
  | caller =>
      rw [ledger_conclude_caller hclient]
      simpa [Client.isJob] using h
  | job id =>
      have hout := isOutstanding_of_client ht ha hw hclient
      rw [ledger_conclude_job hclient]
      split
      · next heq =>
          rw [heq] at hout
          have hhead := ((h.outstanding id).1 hout).2
          refine ⟨fun other => ?_, fun hbusy => by simp [Client.isJob] at hbusy⟩
          rw [Ledger.isOutstanding_finish, h.outstanding, hhead]
          simp only [Client.isJob, ne_eq, not_true_eq_false, decide_false, Bool.and_false,
            Bool.false_eq_true, false_and, iff_false, not_and]
          rintro hne - heq
          exact hne (Option.some.inj heq).symm
      · next hne =>
          refine h.congr fun other => ?_
          rw [Ledger.isOutstanding_finish]
          refine ⟨And.right, fun hother => ⟨?_, hother⟩⟩
          rintro rfl
          obtain ⟨j, hj, hrepository, -⟩ := hout
          obtain ⟨k, hk, hown, -⟩ := hother
          cases hj.symm.trans hk
          exact hne (hrepository.symm.trans hown)

theorem Shows.conclude {w : Watch} (h : Shows repository ids s v) (ht : Tasked history s)
    (ha : Attributed history s) (hwatchful : s.Watchful) (hw : w ∈ s.watches) (m : Moment)
    (e : Conclusion) {later : Moment} :
    Shows repository ids (s.conclude m w e).value.1
      (if w.repository = repository then
        v.chore s.threshold (s.rank repository w.run) (.settle later)
       else v) := by
  obtain ⟨r, hr, hrepository⟩ := ha.ran w hw
  have hlatest := h.latest.conclude ht ha hw m e
  have hruns : (s.conclude m w e).value.1.runs = s.runs.set w.run r := by
    obtain ⟨hi, rfl⟩ := List.getElem?_eq_some_iff.1 hr
    rw [runs_conclude, List.set_getElem_self]
  have hroll := h.roll.set hr rfl hruns fun j hj => party?_conclude_of_ne hj.symm
  rw [party?_conclude_self hwatchful hw, hrepository] at hroll
  have hparty : s.party? w.run = some w.client.isJob := by
    rw [party?, hwatchful.watchOf?_eq hw, Option.map_some]
  split
  · next heq =>
      have hlisted := h.roll.listed w.run r hr (hrepository.trans heq)
      rw [if_pos heq] at hroll hlatest
      rw [hparty] at hlisted
      simp only [Outlook.chore, hlisted]
      exact ⟨by rw [guard_conclude, h.watched], h.counted, hlatest, hroll⟩
  · next hne =>
      rw [if_neg hne] at hroll hlatest
      exact ⟨by rw [guard_conclude, h.watched], h.counted, hlatest, hroll⟩

theorem Shows.abandon (h : Shows repository ids s v) (hwatchful : s.Watchful) (i : Nat) :
    Shows repository ids (s.abandon i)
      (if s.runs[i]?.any (·.repository = repository) then
        v.chore s.threshold (s.rank repository i) .abandon
       else v) := by
  cases hr : s.runs[i]? with
  | none =>
      refine ⟨h.watched, h.counted, h.latest, h.roll.congr rfl fun j hj => ?_⟩
      apply party?_abandon_of_ne
      rintro rfl
      rw [List.getElem?_eq_getElem hj] at hr
      cases hr
  | some r =>
      have hruns : (s.abandon i).runs = s.runs.set i r := by
        obtain ⟨hi, rfl⟩ := List.getElem?_eq_some_iff.1 hr
        exact (List.set_getElem_self hi).symm
      have hroll := h.roll.set hr rfl hruns fun j hj => party?_abandon_of_ne hj
      rw [party?_abandon_self hwatchful] at hroll
      simp only [Option.any_some, decide_eq_true_eq]
      split
      · next heq =>
          have hlisted := h.roll.listed i r hr heq
          rw [if_pos heq] at hroll
          simp only [Outlook.chore, hlisted]
          exact ⟨h.watched, h.counted, h.latest, hroll⟩
      · next hne =>
          rw [if_neg hne] at hroll
          exact ⟨h.watched, h.counted, h.latest, hroll⟩

theorem Shows.handled (h : Shows repository ids s v) (hg : s.Guarded) (ht : Tasked history s)
    (ha : Attributed history s) (hw : s.Watchful) (hd : Handled s i c t) :
    Shows repository ids t
      (if s.runs[i]?.any (·.repository = repository) then
        v.chore s.threshold (s.rank repository i) c
       else v) := by
  cases hd with
  | turned hr hlive hq hrepository hpermit hm hguard hruns hledger hparty =>
      have hturned := h.turned hg hr hlive hq hrepository hpermit hm hguard hruns hledger hparty
      simpa [hr] using hturned
  | settled hin hi =>
      subst hi
      obtain ⟨r, hr, hrepository⟩ := ha.ran _ hin
      have hconcluded := h.conclude ht ha hw hin
      simpa [hr, hrepository] using hconcluded _ _
  | abandoned => exact h.abandon hw i

theorem Shows.sweep (h : Shows repository ids s v) (now : Duration) :
    Shows repository ids (s.sweep now).value.1 v :=
  h.congr rfl (fun _ => Ledger.isOutstanding_evict) rfl rfl

end Service

theorem jobsOf_cons (repository : String) (e : Entry) (es : List Entry) :
    jobsOf repository (e :: es) = (e.entered? repository).toList ++ jobsOf repository es := by
  rw [jobsOf, List.filterMap_cons]
  cases e.entered? repository <;> rfl

theorem triggers_cons (repository : String) (e : Entry) (es : List Entry) :
    triggers repository (e :: es) =
      (if e.isTrigger repository then [(jobsOf repository es, e.response)] else []) ++
        triggers repository es := by
  rw [triggers]
  split <;> rfl

theorem Outlook.after_concerns_cons (limits : Limits) (threshold : UInt64) (repository : String)
    (e : Entry) (es : List Entry) :
    after limits threshold repository (concerns repository (e :: es)) =
      (e.concern? repository).elim (after limits threshold repository (concerns repository es))
        ((after limits threshold repository (concerns repository es)).next threshold
          repository) := by
  rw [concerns, List.filterMap_cons]
  cases e.concern? repository <;> rfl

theorem Outlook.decisions_concerns_cons (limits : Limits) (threshold : UInt64)
    (repository : String) (e : Entry) (es : List Entry) :
    decisions limits threshold repository (concerns repository (e :: es)) =
      ((e.concern? repository).bind
        ((after limits threshold repository (concerns repository es)).decision?
          repository)).toList ++
        decisions limits threshold repository (concerns repository es) := by
  rw [concerns, List.filterMap_cons]
  cases e.concern? repository <;> rfl

namespace Service

variable {limits : Limits} {threshold : UInt64} {history : List Deed} {s t : Service}
  {repository : String} {v : Outlook} {a : Response}

theorem Shows.untold {ids : List String} {p : Prop} [Decidable p] {k : Concern}
    (h : Shows repository ids t (if p then v.next threshold repository k else v))
    (hk : v.decision? repository k = none) :
    Shows repository ids t
        ((if p then some k else none : Option Concern).elim v (v.next threshold repository)) ∧
      List.Forall₂ (Tells repository) []
        ((if p then some k else none : Option Concern).bind
          (v.decision? repository)).toList := by
  by_cases hp : p
  · rw [if_pos hp] at h
    rw [if_pos hp, Option.bind_some, hk]
    exact ⟨h, .nil⟩
  · rw [if_neg hp] at h
    rw [if_neg hp]
    exact ⟨h, .nil⟩

theorem shows_perform? {es : List Entry} {q : Request}
    (h : Shows repository (jobsOf repository es) s v) (hs : Regulated limits threshold history s)
    (hq : s.perform? q = some (t, a)) :
    Shows repository (jobsOf repository (⟨s, q, a⟩ :: es)) t
        ((s.concern? repository q).elim v (v.next threshold repository)) ∧
      List.Forall₂ (Tells repository)
        (if Entry.isTrigger ⟨s, q, a⟩ repository then [(jobsOf repository es, a)] else [])
        ((s.concern? repository q).bind (v.decision? repository)).toList := by
  obtain ⟨hg, ht, ha⟩ := hs.invariants
  have hw := hs.watchful
  obtain rfl := hs.threshold_eq
  rw [jobsOf_cons]
  cases q with
  | triggerSync m other =>
      cases hq
      simp only [concern?, Entry.isTrigger, Entry.entered?, Option.toList_none, List.nil_append]
      by_cases heq : other = repository
      · subst heq
        obtain ⟨hnext, d, hd, htells⟩ := h.triggerSync ht.sound hw s.threshold m
        simpa [hd] using ⟨hnext, htells⟩
      · simpa [heq] using h.triggerSync_other hw heq m
  | triggerAsync m draws other =>
      obtain ⟨x, hx, hv⟩ := Option.map_eq_some_iff.1 hq
      cases hv
      simp only [concern?, Entry.isTrigger]
      by_cases heq : other = repository
      · subst heq
        obtain ⟨hnext, d, hd, htells⟩ := h.triggerAsync? ht.sound s.threshold hx
        simpa [hd] using ⟨hnext, htells⟩
      · have hnone : Entry.entered? ⟨s, .triggerAsync m draws other, .background x.value.2⟩
            repository = none := by
          unfold Entry.entered?
          split
          · next heq' _ =>
              cases heq'
              exact if_neg fun hand => heq hand.1
          · rfl
        rw [hnone]
        simpa [heq] using h.triggerAsync?_other heq hx
  | setCooldown other cooldown =>
      cases hq
      exact (h.setCooldown other cooldown).untold rfl
  | launch m job =>
      obtain ⟨x, hx, hv⟩ := Option.map_eq_some_iff.1 hq
      cases hv
      exact (h.launch? hg hw hx).untold rfl
  | run i c =>
      exact (h.handled hg ht ha hw (chore?_handled hq)).untold rfl
  | sweep now =>
      cases hq
      exact ⟨h.sweep now, .nil⟩

end Service

theorem Performed.shows {limits : Limits} {threshold : UInt64} {es : List Entry} {s : Service}
    (h : Performed limits threshold es s) (repository : String) :
    Service.Shows repository (jobsOf repository es) s
        (.after limits threshold repository (concerns repository es)) ∧
      List.Forall₂ (Tells repository) (triggers repository es)
        (Outlook.decisions limits threshold repository (concerns repository es)) := by
  induction h with
  | new => exact ⟨Service.shows_new limits threshold repository, .nil⟩
  | step h hq ih =>
      obtain ⟨history, hs⟩ := h.regulated
      obtain ⟨hshows, htells⟩ := Service.shows_perform? ih.1 hs hq
      rw [Outlook.after_concerns_cons, Outlook.decisions_concerns_cons, triggers_cons]
      exact ⟨hshows, List.rel_append htells ih.2⟩

theorem forall₂_alike {repository : String} {xs ys : List (List String × Response)}
    {ds : List Decision} (hx : List.Forall₂ (Tells repository) xs ds)
    (hy : List.Forall₂ (Tells repository) ys ds) : List.Forall₂ (Alike repository) xs ys := by
  induction hx generalizing ys with
  | nil =>
      cases hy
      exact .nil
  | cons hd _ ih =>
      cases hy with
      | cons hd' hrest => exact .cons ⟨_, hd, hd'⟩ (ih hrest)

theorem repositories_independent {limits : Limits} {threshold : UInt64} {es es' : List Entry}
    {s s' : Service} {repository : String} (h : Performed limits threshold es s)
    (h' : Performed limits threshold es' s')
    (hsame : concerns repository es = concerns repository es') :
    List.Forall₂ (Alike repository) (triggers repository es) (triggers repository es') := by
  have htells := (h.shows repository).2
  have htells' := (h'.shows repository).2
  rw [← hsame] at htells'
  exact forall₂_alike htells htells'

theorem repositories_independent_of_others :
    ∃ es es' s s', Performed ⟨5, 30, 0, 10⟩ 100 es s ∧ Performed ⟨5, 30, 0, 10⟩ 100 es' s' ∧
      s.ledger.count = 1 ∧ s'.ledger.count = 0 ∧ concerns "a" es = concerns "a" es' ∧
      (triggers "a" es).map Prod.fst = [["j"], []] ∧
      (triggers "a" es').map Prod.fst = [["k"], []] ∧
      List.Forall₂ (Alike "a") (triggers "a" es) (triggers "a" es') := by
  let moment (time : Nat) : Moment := ⟨time, .ofEpoch 0 0⟩
  have entered : Performed ⟨5, 30, 0, 10⟩ 100 _ _ :=
    Performed.new.step (q := .triggerAsync (moment 10) ["j"] "a") rfl
  have launched := entered.step (q := .launch (moment 11) "j") rfl
  have begun := launched.step (q := .run 0 .begin) rfl
  have crashed := begun.step (q := .run 0 (.crash (moment 14) "out of memory")) rfl
  have settled := crashed.step (q := .run 0 (.settle (moment 15))) rfl
  have refused := settled.step (q := .triggerSync (moment 20) "a") rfl
  have other : Performed ⟨5, 30, 0, 10⟩ 100 _ _ :=
    Performed.new.step (q := .triggerSync (moment 0) "b") rfl
  have entered' := other.step (q := .triggerAsync (moment 10) ["k"] "a") rfl
  have launched' := entered'.step (q := .launch (moment 11) "k") rfl
  have begun' := launched'.step (q := .run 1 .begin) rfl
  have dropped := begun'.step (q := .run 0 (.drop (moment 12))) rfl
  have crashed' := dropped.step (q := .run 1 (.crash (moment 14) "out of memory")) rfl
  have settled' := crashed'.step (q := .run 1 (.settle (moment 15))) rfl
  have swept := settled'.step (q := .sweep 16) rfl
  have refused' := swept.step (q := .triggerSync (moment 20) "a") rfl
  let own : List Concern :=
    [.triggerSync (moment 20), .run 0 (.settle (moment 15)),
     .run 0 (.crash (moment 14) "out of memory"), .run 0 .begin, .launch (moment 11),
     .triggerAsync (moment 10)]
  have agree {es es' : List Entry} (h : concerns "a" es = own) (h' : concerns "a" es' = own) :
      concerns "a" es = concerns "a" es' := h.trans h'.symm
  refine ⟨_, _, _, _, refused, refused', ?_, ?_, agree rfl rfl, ?_, ?_,
    repositories_independent refused refused' (agree rfl rfl)⟩ <;> decide +kernel

end IndexRefresh
