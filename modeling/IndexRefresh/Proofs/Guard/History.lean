import IndexRefresh.Guard
import Mathlib.Data.List.Nodup

namespace IndexRefresh

/-- What happens to a guard. A permit goes back in the same way when its holder ends, when its holder
crashes, and when a later permit takes its place. -/
inductive GuardDeed where
  | grant (repository : String)
  | refuse (repository : String) (d : Denial)
  | release (repository : String) (time : Duration)
  | ask (repository : String) (d : Option Denial)
  | setCooldown (repository : String) (cooldown : Duration)
  | wait (d : Duration)

namespace GuardDeed

def releasedAt? (repository : String) : GuardDeed → Option Duration
  | .release other time => if repository = other then some time else none
  | _ => none

def cooldown? (repository : String) : GuardDeed → Option Duration
  | .setCooldown other cooldown => if repository = other then some cooldown else none
  | _ => none

def isAnswer : GuardDeed → Bool
  | .refuse _ _ => true
  | .ask _ _ => true
  | _ => false

end GuardDeed

structure Custody where
  guard : Guard
  held : List Permit
  now : Duration

namespace Custody

inductive Step (c : Custody) : GuardDeed → Custody → Prop where
  | grant {repository : String} {x : Traced Guard}
      (h : c.guard.acquire c.now repository = .ok x) :
      Step c (.grant repository) { c with guard := x.value, held := ⟨repository⟩ :: c.held }
  | refuse {repository : String} {d : Denial}
      (h : c.guard.acquire c.now repository = .error d) : Step c (.refuse repository d) c
  | release {p : Permit} (h : p ∈ c.held) :
      Step c (.release p.repository c.now)
        { c with guard := (c.guard.release c.now p).value, held := c.held.erase p }
  | ask {repository : String} :
      Step c (.ask repository (c.guard.denial? c.now repository)) c
  | setCooldown {repository : String} {cooldown : Duration} :
      Step c (.setCooldown repository cooldown)
        { c with guard := c.guard.setCooldown repository cooldown }
  | wait {d : Duration} : Step c (.wait d) { c with now := c.now + d }

inductive Reached (cooldown : Duration) : List GuardDeed → Custody → Prop where
  | new {now : Duration} : Reached cooldown [] ⟨.new cooldown, [], now⟩
  | step {history : List GuardDeed} {c t : Custody} {d : GuardDeed}
      (h : Reached cooldown history c) (hs : Step c d t) : Reached cooldown (history ++ [d]) t

def releasedAt? (repository : String) (history : List GuardDeed) : Option Duration :=
  history.reverse.findSome? (·.releasedAt? repository)

def cooldownOf (cooldown : Duration) (repository : String) (history : List GuardDeed) : Duration :=
  (history.reverse.findSome? (·.cooldown? repository)).getD cooldown

theorem releasedAt?_append (repository : String) (history : List GuardDeed) (d : GuardDeed) :
    releasedAt? repository (history ++ [d]) =
      (d.releasedAt? repository).or (releasedAt? repository history) := by
  unfold releasedAt?
  rw [List.reverse_append, List.reverse_singleton, List.singleton_append, List.findSome?_cons]
  cases d.releasedAt? repository <;> rfl

theorem cooldownOf_append (cooldown : Duration) (repository : String) (history : List GuardDeed)
    (d : GuardDeed) :
    cooldownOf cooldown repository (history ++ [d]) =
      (d.cooldown? repository).getD (cooldownOf cooldown repository history) := by
  unfold cooldownOf
  rw [List.reverse_append, List.reverse_singleton, List.singleton_append, List.findSome?_cons]
  cases d.cooldown? repository <;> rfl

structure Remembers (cooldown : Duration) (history : List GuardDeed) (c : Custody) : Prop where
  lookup : ∀ repository, c.guard.lookup repository =
    ⟨decide (⟨repository⟩ ∈ c.held), releasedAt? repository history,
      cooldownOf cooldown repository history⟩
  single : c.held.Nodup
  past : ∀ repository time, releasedAt? repository history = some time → time ≤ c.now

variable {cooldown : Duration} {history : List GuardDeed} {c t : Custody} {d : GuardDeed}
  {repository : String}

theorem remembers_new (cooldown now : Duration) :
    Remembers cooldown [] ⟨.new cooldown, [], now⟩ where
  lookup repository := by simp [Guard.lookup, Guard.new, releasedAt?, cooldownOf]
  single := List.nodup_nil
  past repository time h := by simp [releasedAt?] at h

theorem Remembers.isInProgress (h : Remembers cooldown history c) (repository : String) :
    c.guard.isInProgress repository = decide (⟨repository⟩ ∈ c.held) := by
  unfold Guard.isInProgress
  rw [h.lookup]

theorem Remembers.denial?_of_mem (h : Remembers cooldown history c)
    (hheld : ⟨repository⟩ ∈ c.held) (now : Duration) :
    c.guard.denial? now repository = some .inProgress := by
  apply Guard.denial?_of_inProgress
  rw [h.isInProgress]
  exact decide_eq_true hheld

theorem Remembers.denial?_of_not_mem (h : Remembers cooldown history c)
    (hfree : ⟨repository⟩ ∉ c.held) (now : Duration) :
    c.guard.denial? now repository =
      (releasedAt? repository history).bind fun time =>
        if now - time < cooldownOf cooldown repository history then
          some (.cooldown (cooldownOf cooldown repository history - (now - time)))
        else none := by
  have hidle : c.guard.isInProgress repository = false := by
    rw [h.isInProgress]
    exact decide_eq_false hfree
  rw [Guard.denial?_of_free hidle, h.lookup]

theorem acquire_eq_error_iff {g : Guard} {now : Duration} {d : Denial} :
    g.acquire now repository = .error d ↔ g.denial? now repository = some d := by
  unfold Guard.acquire
  cases g.denial? now repository <;> simp

theorem exists_acquire_iff {g : Guard} {now : Duration} :
    (∃ x, g.acquire now repository = .ok x) ↔ g.denial? now repository = none := by
  unfold Guard.acquire
  cases g.denial? now repository <;> simp

theorem acquire_eq_ok {g : Guard} {now : Duration} {x : Traced Guard}
    (h : g.acquire now repository = .ok x) :
    g.denial? now repository = none ∧ x.value = (g.markInProgress repository).value := by
  have hnone := exists_acquire_iff.1 ⟨x, h⟩
  unfold Guard.acquire at h
  rw [hnone] at h
  cases h
  exact ⟨hnone, rfl⟩

theorem Remembers.not_mem_of_acquire (h : Remembers cooldown history c) {x : Traced Guard}
    (hx : c.guard.acquire c.now repository = .ok x) : ⟨repository⟩ ∉ c.held := by
  intro hheld
  have hbusy := h.denial?_of_mem hheld c.now
  rw [(acquire_eq_ok hx).1] at hbusy
  cases hbusy

theorem Remembers.grant (h : Remembers cooldown history c) {x : Traced Guard}
    (hx : c.guard.acquire c.now repository = .ok x) :
    Remembers cooldown (history ++ [.grant repository])
      { c with guard := x.value, held := ⟨repository⟩ :: c.held } where
  lookup other := by
    rw [releasedAt?_append, cooldownOf_append, (acquire_eq_ok hx).2]
    dsimp only [GuardDeed.releasedAt?, GuardDeed.cooldown?, Option.none_or, Option.getD_none]
    by_cases heq : other = repository
    · subst heq
      simp [Guard.markInProgress, h.lookup]
    · have hne : (⟨other⟩ : Permit) ≠ ⟨repository⟩ := fun he => heq (Permit.mk.inj he)
      simp [Guard.markInProgress, Guard.lookup_put_of_ne _ _ heq, h.lookup, hne]
  single := List.nodup_cons.2 ⟨h.not_mem_of_acquire hx, h.single⟩
  past other time htime := by
    rw [releasedAt?_append] at htime
    exact h.past other time htime

theorem Remembers.release (h : Remembers cooldown history c) {p : Permit} :
    Remembers cooldown (history ++ [.release p.repository c.now])
      { c with guard := (c.guard.release c.now p).value, held := c.held.erase p } where
  lookup other := by
    rw [releasedAt?_append, cooldownOf_append]
    dsimp only [GuardDeed.releasedAt?, GuardDeed.cooldown?, Option.getD_none]
    by_cases heq : other = p.repository
    · subst heq
      have hgone : p ∉ c.held.erase p := h.single.not_mem_erase
      simp [Guard.release, Guard.markComplete, h.lookup, hgone]
    · have hne : (⟨other⟩ : Permit) ≠ p := by
        intro he
        exact heq (congrArg Permit.repository he)
      simp [Guard.release, Guard.markComplete, Guard.lookup_put_of_ne _ _ heq, h.lookup, heq,
        List.mem_erase_of_ne hne]
  single := h.single.erase p
  past other time htime := by
    rw [releasedAt?_append] at htime
    dsimp only [GuardDeed.releasedAt?] at htime
    split at htime
    · cases htime
      exact Nat.le_refl _
    · exact h.past other time htime

theorem Remembers.setCooldown (h : Remembers cooldown history c) (chosen : Duration) :
    Remembers cooldown (history ++ [.setCooldown repository chosen])
      { c with guard := c.guard.setCooldown repository chosen } where
  lookup other := by
    rw [releasedAt?_append, cooldownOf_append]
    dsimp only [GuardDeed.releasedAt?, GuardDeed.cooldown?, Option.none_or]
    by_cases heq : other = repository
    · subst heq
      simp [Guard.setCooldown, h.lookup]
    · simp [Guard.setCooldown, Guard.lookup_put_of_ne _ _ heq, h.lookup, heq]
  single := h.single
  past other time htime := by
    rw [releasedAt?_append] at htime
    exact h.past other time htime

theorem Remembers.quiet (h : Remembers cooldown history c)
    (hd : ∀ repository, d.releasedAt? repository = none ∧ d.cooldown? repository = none)
    {now : Duration} (hnow : c.now ≤ now) :
    Remembers cooldown (history ++ [d]) { c with now := now } where
  lookup other := by
    rw [releasedAt?_append, cooldownOf_append, (hd other).1, (hd other).2]
    exact h.lookup other
  single := h.single
  past other time htime := by
    rw [releasedAt?_append, (hd other).1] at htime
    exact Nat.le_trans (h.past other time htime) hnow

theorem Step.remembers (hs : Step c d t) (h : Remembers cooldown history c) :
    Remembers cooldown (history ++ [d]) t := by
  cases hs with
  | grant hx => exact h.grant hx
  | refuse => exact h.quiet (fun _ => ⟨rfl, rfl⟩) (Nat.le_refl _)
  | release => exact h.release
  | ask => exact h.quiet (fun _ => ⟨rfl, rfl⟩) (Nat.le_refl _)
  | setCooldown => exact h.setCooldown _
  | wait => exact h.quiet (fun _ => ⟨rfl, rfl⟩) (Nat.le_add_right _ _)

theorem Reached.remembers (h : Reached cooldown history c) : Remembers cooldown history c := by
  induction h with
  | new => exact remembers_new cooldown _
  | step _ hs ih => exact hs.remembers ih

theorem Step.eq_of_isAnswer (hs : Step c d t) (hd : d.isAnswer = true) : t = c := by
  cases hs with
  | refuse => rfl
  | ask => rfl
  | _ => cases hd

theorem Step.tracked_le (hs : Step c d t) : c.guard.tracked ≤ t.guard.tracked := by
  cases hs with
  | grant hx =>
      rw [(acquire_eq_ok hx).2]
      exact Table.size_le_size_insert ..
  | release => exact Table.size_le_size_insert ..
  | setCooldown => exact Table.size_le_size_insert ..
  | _ => exact Nat.le_refl _

theorem decided_by_history (h : Reached cooldown history c) (repository : String) :
    ((∃ x, c.guard.acquire c.now repository = .ok x) ↔
      ⟨repository⟩ ∉ c.held ∧ ∀ time, releasedAt? repository history = some time →
        cooldownOf cooldown repository history ≤ c.now - time) ∧
    (⟨repository⟩ ∈ c.held → c.guard.acquire c.now repository = .error .inProgress) ∧
    (∀ time, ⟨repository⟩ ∉ c.held → releasedAt? repository history = some time →
      time ≤ c.now ∧ (c.now - time < cooldownOf cooldown repository history →
        c.guard.acquire c.now repository =
          .error (.cooldown (cooldownOf cooldown repository history - (c.now - time))))) ∧
    (∀ d, c.guard.acquire c.now repository = .error d ↔
      c.guard.denial? c.now repository = some d) ∧
    (c.guard.isInProgress repository = true ↔ ⟨repository⟩ ∈ c.held) ∧
    c.held.count ⟨repository⟩ ≤ 1 ∧
    ∀ d t, Step c d t → (d.isAnswer = true → t = c) ∧ c.guard.tracked ≤ t.guard.tracked := by
  have hr := h.remembers
  refine ⟨?_, ?_, ?_, fun d => acquire_eq_error_iff, ?_, ?_, ?_⟩
  · rw [exists_acquire_iff]
    by_cases hheld : ⟨repository⟩ ∈ c.held
    · simp [hr.denial?_of_mem hheld, hheld]
    · rw [hr.denial?_of_not_mem hheld]
      cases releasedAt? repository history <;> simp [hheld]
  · intro hheld
    exact acquire_eq_error_iff.2 (hr.denial?_of_mem hheld c.now)
  · intro time hfree htime
    refine ⟨hr.past repository time htime, fun hlt => ?_⟩
    rw [acquire_eq_error_iff, hr.denial?_of_not_mem hfree, htime, Option.bind_some, if_pos hlt]
  · rw [hr.isInProgress, decide_eq_true_eq]
  · exact List.nodup_iff_count_le_one.1 hr.single _
  · intro d t hs
    exact ⟨hs.eq_of_isAnswer, hs.tracked_le⟩

theorem decided_by_history_after_override :
    ∃ history c, Reached 300 history c ∧ c.now = 104 ∧ releasedAt? "a" history = some 100 ∧
      c.guard.acquire c.now "a" = .error (.cooldown 6) ∧
      (∃ x, c.guard.acquire c.now "b" = .ok x) := by
  have granted : Reached 300 [.grant "a"] _ := Reached.new.step (.grant (c := ⟨_, _, 0⟩) rfl)
  have tuned := granted.step (@Step.setCooldown _ "a" 10)
  have waited := tuned.step (.wait (d := 100))
  have released := waited.step (.release (p := ⟨"a"⟩) (by decide))
  have cooling := released.step (.wait (d := 4))
  obtain ⟨-, -, hrefused, -⟩ := decided_by_history cooling "a"
  obtain ⟨hgranted, -⟩ := decided_by_history cooling "b"
  refine ⟨_, _, cooling, rfl, rfl, (hrefused 100 (by decide) rfl).2 (by decide), ?_⟩
  exact hgranted.2 ⟨by decide, fun time htime => by cases htime⟩

end Custody

end IndexRefresh
