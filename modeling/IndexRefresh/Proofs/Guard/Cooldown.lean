import Mathlib.Logic.Relation
import IndexRefresh.Proofs.Guard.History
import IndexRefresh.Proofs.Service.Admission

namespace IndexRefresh

theorem Duration.left_later {cooldown time now later d : Nat} (hpast : time ≤ now)
    (hlater : now ≤ later) (hlt : now - time < cooldown) (hd : d = cooldown - (now - time)) :
    (later < now + d → later - time < cooldown ∧ now + d - later = cooldown - (later - time)) ∧
      (now + d ≤ later → cooldown ≤ later - time) := by
  omega

namespace Watched

variable {w : Watched} {now d : Duration}

theorem denial?_eq_cooldown_iff :
    w.denial? now = some (.cooldown d) ↔
      w.inProgress = false ∧ ∃ time, w.completedAt = some time ∧ now - time < w.cooldown ∧
        d = w.cooldown - (now - time) := by
  unfold denial?
  cases w.inProgress with
  | true => simp
  | false =>
      cases w.completedAt with
      | none => simp
      | some time =>
          dsimp only
          by_cases hlt : now - time < w.cooldown
          · simp [hlt, eq_comm]
          · simp [hlt]

theorem denial?_eq_none {time : Duration} (hidle : w.inProgress = false)
    (htime : w.completedAt = some time) (hover : w.cooldown ≤ now - time) :
    w.denial? now = none := by
  have hlt : ¬now - time < w.cooldown := Nat.not_lt.2 hover
  simp [denial?, hidle, htime, hlt]

theorem denial?_later {later : Duration} (h : w.denial? now = some (.cooldown d))
    (hpast : ∀ time, w.completedAt = some time → time ≤ now) (hlater : now ≤ later) :
    (later < now + d → w.denial? later = some (.cooldown (now + d - later))) ∧
      (now + d ≤ later → w.denial? later = none) := by
  obtain ⟨hidle, time, htime, hlt, hd⟩ := denial?_eq_cooldown_iff.1 h
  obtain ⟨hbefore, hover⟩ := Duration.left_later (hpast time htime) hlater hlt hd
  constructor
  · intro hlt'
    exact denial?_eq_cooldown_iff.2 ⟨hidle, time, htime, hbefore hlt'⟩
  · intro hle
    exact denial?_eq_none hidle htime (hover hle)

end Watched

structure TimedGuard where
  guard : Guard
  now : Duration

namespace TimedGuard

/-- What is done to a guard, with the repository whose memory it changes. Questions and refusals
change nothing, and all cooldowns are whole seconds. -/
inductive Step (c : TimedGuard) : Option String → TimedGuard → Prop where
  | grant {repository : String} {x : Traced Guard}
      (h : c.guard.acquire c.now repository = .ok x) :
      Step c (some repository) { c with guard := x.value }
  | release {p : Permit} :
      Step c (some p.repository) { c with guard := (c.guard.release c.now p).value }
  | markInProgress {repository : String} :
      Step c (some repository) { c with guard := (c.guard.markInProgress repository).value }
  | markComplete {repository : String} :
      Step c (some repository) { c with guard := (c.guard.markComplete c.now repository).value }
  | setCooldown {repository : String} {seconds : UInt64} :
      Step c (some repository)
        { c with guard := c.guard.setCooldown repository (.ofSeconds seconds.toNat) }
  | wait {d : Duration} : Step c none { c with now := c.now + d }

inductive Reached : TimedGuard → Prop where
  | new (seconds : UInt64) (now : Duration) : Reached ⟨.new (.ofSeconds seconds.toNat), now⟩
  | step {c t : TimedGuard} {touched : Option String} (h : Reached c) (hs : Step c touched t) :
      Reached t

def Undisturbed (repository : String) : TimedGuard → TimedGuard → Prop :=
  Relation.ReflTransGen fun c t => ∃ touched, touched ≠ some repository ∧ Step c touched t

inductive Rewritten (now : Duration) (w : Watched) : Watched → Prop where
  | start : Rewritten now w { w with inProgress := true }
  | finish : Rewritten now w { w with inProgress := false, completedAt := some now }
  | setCooldown (seconds : UInt64) :
      Rewritten now w { w with cooldown := .ofSeconds seconds.toNat }

structure Timely (c : TimedGuard) : Prop where
  whole : ∀ repository, ∃ seconds : UInt64,
    (c.guard.lookup repository).cooldown = .ofSeconds seconds.toNat
  past : ∀ repository time, (c.guard.lookup repository).completedAt = some time → time ≤ c.now

variable {c t : TimedGuard} {touched : Option String} {repository : String}
  {w w' : Watched} {now d : Duration}

theorem Step.cases_touched (hs : Step c touched t) :
    (∃ repository w, touched = some repository ∧
      Rewritten c.now (c.guard.lookup repository) w ∧ t = ⟨c.guard.put repository w, c.now⟩) ∨
    touched = none ∧ ∃ d, t = ⟨c.guard, c.now + d⟩ := by
  cases hs with
  | @grant repository x h =>
      rw [(Custody.acquire_eq_ok h).2]
      exact .inl ⟨repository, _, rfl, .start, rfl⟩
  | @release p => exact .inl ⟨p.repository, _, rfl, .finish, rfl⟩
  | @markInProgress repository => exact .inl ⟨repository, _, rfl, .start, rfl⟩
  | @markComplete repository => exact .inl ⟨repository, _, rfl, .finish, rfl⟩
  | @setCooldown repository seconds => exact .inl ⟨repository, _, rfl, .setCooldown seconds, rfl⟩
  | @wait d => exact .inr ⟨rfl, d, rfl⟩

theorem Rewritten.whole (h : Rewritten now w w')
    (hw : ∃ seconds : UInt64, w.cooldown = .ofSeconds seconds.toNat) :
    ∃ seconds : UInt64, w'.cooldown = .ofSeconds seconds.toNat := by
  cases h with
  | setCooldown seconds => exact ⟨seconds, rfl⟩
  | _ => exact hw

theorem Rewritten.past (h : Rewritten now w w')
    (hw : ∀ time, w.completedAt = some time → time ≤ now) :
    ∀ time, w'.completedAt = some time → time ≤ now := by
  cases h with
  | finish =>
      rintro time ⟨⟩
      exact Nat.le_refl _
  | _ => exact hw

theorem Step.timely (hs : Step c touched t) (h : c.Timely) : t.Timely := by
  rcases hs.cases_touched with ⟨repository, w, -, hw, rfl⟩ | ⟨-, d, rfl⟩
  · constructor
    · intro other
      rw [Guard.lookup_put]
      split
      · exact hw.whole (h.whole repository)
      · exact h.whole other
    · intro other
      rw [Guard.lookup_put]
      split
      · exact hw.past (h.past repository)
      · exact h.past other
  · exact ⟨h.whole, fun other time htime => Nat.le_add_right_of_le (h.past other time htime)⟩

theorem Reached.timely (h : c.Reached) : c.Timely := by
  induction h with
  | new seconds now =>
      exact ⟨fun _ => ⟨seconds, rfl⟩, fun _ time htime => by cases htime⟩
  | step _ hs ih => exact hs.timely ih

theorem Step.lookup_of_untouched (hs : Step c touched t) (h : touched ≠ some repository) :
    t.guard.lookup repository = c.guard.lookup repository ∧ c.now ≤ t.now := by
  rcases hs.cases_touched with ⟨other, w, rfl, -, rfl⟩ | ⟨-, d, rfl⟩
  · have hne : ¬repository = other := fun heq => h (congrArg some heq.symm)
    exact ⟨Guard.lookup_put_of_ne c.guard w hne, Nat.le_refl _⟩
  · exact ⟨rfl, Nat.le_add_right _ _⟩

theorem Undisturbed.lookup (h : Undisturbed repository c t) :
    t.guard.lookup repository = c.guard.lookup repository ∧ c.now ≤ t.now := by
  induction h with
  | refl => exact ⟨rfl, Nat.le_refl _⟩
  | tail _ hs ih =>
      obtain ⟨touched, hne, hs⟩ := hs
      obtain ⟨hlookup, hnow⟩ := hs.lookup_of_untouched hne
      exact ⟨hlookup.trans ih.1, Nat.le_trans ih.2 hnow⟩

end TimedGuard

namespace Service

variable {s t : Service} {m : Moment} {repository : String}

theorem exists_refusal {d : Nat} {cooldown : UInt64} (hpos : 0 < d)
    (hle : d ≤ Duration.ofSeconds cooldown.toNat) (repository : String) :
    ∃ (s : UInt64) (r : Refusal), refusal? repository (.cooldown d) = some r ∧
      r.code = .rateLimited ∧ r.retryAfterSeconds = some s ∧
      (∀ n, d ≤ Duration.ofSeconds n ↔ s.toNat ≤ n) ∧ 1 ≤ s ∧ s ≤ cooldown := by
  obtain ⟨s, hs, hone, hleast⟩ :=
    Refusal.exists_retryAfterSeconds hpos hle cooldown.toNat_lt_size
  have hmost : s ≤ cooldown := UInt64.le_iff_toNat_le.2 ((hleast _).1 hle)
  rw [refusal?, Refusal.rateLimited?, hs]
  exact ⟨s, _, rfl, rfl, rfl, hleast, hone, hmost⟩

structure Asks (s : Service) (m : Moment) (c : TimedGuard) (repository : String) : Prop where
  guard : s.guard = c.guard
  instant : m.instant = c.now
  idle : s.ledger.outstanding? repository = none

def Declines (s : Service) (m : Moment) (repository : String) (r : Refusal) : Prop :=
  (s.triggerSync m repository).value = (s, .refused r) ∧
    ∀ draws, ∃ x, s.triggerAsync? m draws repository = some x ∧ x.value = (s, .refused r)

def Admits (s : Service) (m : Moment) (repository : String) : Prop :=
  (∃ t, (s.triggerSync m repository).value = (t, .admitted s.runs.length)) ∧
    ∀ draws, (∃ id ∈ draws, (s.ledger.evict m.instant).value.1.get? id = none) →
      ∃ x t id, s.triggerAsync? m draws repository = some x ∧
        x.value = (t, .admitted (.started id repository))

variable {c : TimedGuard}

theorem Asks.declines (hs : s.Asks m c repository) {d : Denial} {r : Refusal}
    (h : c.guard.acquire c.now repository = .error d) (hr : refusal? repository d = some r) :
    s.Declines m repository r := by
  have hrefused : (s.acquire m repository).value = (s, .refused r) := by
    rw [acquire, hs.guard, hs.instant, h]
    simp only [hr]
  exact ⟨(triggers_of_refused hs.idle hrefused []).1,
    fun draws => (triggers_of_refused hs.idle hrefused draws).2⟩

theorem Asks.admits (hs : s.Asks m c repository) {x : Traced Guard}
    (h : c.guard.acquire c.now repository = .ok x) : s.Admits m repository := by
  have hadmitted : (s.acquire m repository).value =
      ({ s with guard := x.value }, .admitted ⟨repository⟩) := by
    rw [acquire, hs.guard, hs.instant, h]
  constructor
  · unfold triggerSync
    simp only [hs.idle, hadmitted]
    exact ⟨_, rfl⟩
  · intro draws hdraw
    obtain ⟨created, hcreated⟩ := Ledger.exists_create? hdraw repository
    unfold triggerAsync?
    simp only [hs.idle, hadmitted, hcreated]
    exact ⟨_, _, _, rfl, rfl⟩

end Service

namespace TimedGuard

theorem refused_until_cooldown_over {c : TimedGuard} (hc : c.Reached) {repository : String}
    {d : Duration} (h : c.guard.acquire c.now repository = .error (.cooldown d)) :
    0 < d ∧ ∃ (cooldown s : UInt64) (r : Refusal),
      (c.guard.lookup repository).cooldown = .ofSeconds cooldown.toNat ∧
      d ≤ .ofSeconds cooldown.toNat ∧
      Service.refusal? repository (.cooldown d) = some r ∧ r.code = .rateLimited ∧
      r.retryAfterSeconds = some s ∧ (∀ n, d ≤ .ofSeconds n ↔ s.toNat ≤ n) ∧
      1 ≤ s ∧ s ≤ cooldown ∧
      (∀ service m, Service.Asks service m c repository → service.Declines m repository r) ∧
      ∀ t, Undisturbed repository c t →
        (t.now < c.now + d →
          t.guard.acquire t.now repository = .error (.cooldown (c.now + d - t.now)) ∧
          ∃ later, Service.refusal? repository (.cooldown (c.now + d - t.now)) = some later ∧
            later.code = .rateLimited ∧
            ∀ service m, Service.Asks service m t repository →
              service.Declines m repository later) ∧
        (c.now + d ≤ t.now ∨ c.now + .ofSeconds s.toNat ≤ t.now →
          (∃ x, t.guard.acquire t.now repository = .ok x) ∧
          ∀ service m, Service.Asks service m t repository → service.Admits m repository) := by
  have hdenial := Custody.acquire_eq_error_iff.1 h
  obtain ⟨-, time, -, hlt, hd⟩ := Watched.denial?_eq_cooldown_iff.1 hdenial
  obtain ⟨cooldown, hcooldown⟩ := hc.timely.whole repository
  have hpos : 0 < d := hd ▸ Nat.sub_pos_of_lt hlt
  have hle : d ≤ .ofSeconds cooldown.toNat := hcooldown ▸ hd ▸ Nat.sub_le _ _
  obtain ⟨s, r, hr, hcode, hseconds, hleast, hone, hmost⟩ :=
    Service.exists_refusal hpos hle repository
  refine ⟨hpos, cooldown, s, r, hcooldown, hle, hr, hcode, hseconds, hleast, hone, hmost,
    fun service m hasks => hasks.declines h hr, fun t ht => ?_⟩
  obtain ⟨hlookup, hnow⟩ := ht.lookup
  obtain ⟨hbefore, hover⟩ := Watched.denial?_later hdenial (hc.timely.past repository) hnow
  rw [← hlookup] at hbefore hover
  constructor
  · intro hearly
    have hrefused := Custody.acquire_eq_error_iff.2 (hbefore hearly)
    have hleft : c.now + d - t.now ≤ d :=
      Nat.sub_le_iff_le_add'.2 (Nat.add_le_add_right hnow d)
    obtain ⟨-, later, hlater, hcode', -⟩ :=
      Service.exists_refusal (Nat.sub_pos_of_lt hearly) (Nat.le_trans hleft hle) repository
    exact ⟨hrefused, later, hlater, hcode', fun service m hasks => hasks.declines hrefused hlater⟩
  · intro hwaited
    have hwaited : c.now + d ≤ t.now := by
      rcases hwaited with hwaited | hwaited
      · exact hwaited
      · exact Nat.le_trans (Nat.add_le_add_left ((hleast s.toNat).2 (Nat.le_refl _)) _) hwaited
    obtain ⟨x, hx⟩ := Custody.exists_acquire_iff.2 (hover hwaited)
    exact ⟨⟨x, hx⟩, fun service m hasks => hasks.admits hx⟩

theorem refused_until_cooldown_over_while_another_runs :
    ∃ c later last, Reached c ∧ Undisturbed "a" c later ∧ Undisturbed "a" c last ∧
      c.guard.acquire c.now "a" = .error (.cooldown 1500000000) ∧
      (∃ r, Service.refusal? "a" (.cooldown 1500000000) = some r ∧ r.code = .rateLimited) ∧
      later.guard.acquire later.now "a" = .error (.cooldown 500000000) ∧
      ∃ x, last.guard.acquire last.now "a" = .ok x := by
  have completed := ((Reached.new 2 0).step (@Step.markInProgress _ "a")).step
    (@Step.markComplete _ "a")
  have cooled : ∃ g x, Reached ⟨g, 500000000⟩ ∧
      g.acquire 500000000 "a" = .error (.cooldown 1500000000) ∧
      g.acquire 500000000 "b" = .ok x := by
    refine ⟨_, _, completed.step (@Step.wait _ 500000000), ?_, rfl⟩
    exact Custody.acquire_eq_error_iff.2
      (Watched.denial?_eq_cooldown_iff.2 ⟨rfl, 0, rfl, by decide, by decide⟩)
  obtain ⟨g, x, cooling, refused, granted⟩ := cooled
  have other : Undisturbed "a" ⟨g, 500000000⟩ ⟨x.value, 500000000⟩ :=
    .single ⟨some "b", by decide, .grant granted⟩
  have later := other.tail ⟨none, by decide, @Step.wait _ 1000000000⟩
  have last := other.tail ⟨none, by decide, @Step.wait _ 1500000000⟩
  obtain ⟨-, _, _, r, -, -, hr, hcode, -, -, -, -, -, hkept⟩ :=
    refused_until_cooldown_over cooling refused
  have hearly : (500000000 : Duration) + 1000000000 < 500000000 + 1500000000 := by decide
  have hleft : (500000000 : Duration) + 1500000000 - (500000000 + 1000000000) = 500000000 := by
    decide
  have remaining := ((hkept _ later).1 hearly).1
  rw [hleft] at remaining
  exact ⟨_, _, _, cooling, later, last, refused, ⟨r, hr, hcode⟩, remaining,
    ((hkept _ last).2 (.inl (Nat.le_refl _))).1⟩

end TimedGuard

end IndexRefresh
