import IndexRefresh.Proofs.GitHub.Exchange
import IndexRefresh.Proofs.GitHub.Pages

namespace IndexRefresh.GitHub

namespace Source

section Retrying

variable {ω α β : Type} {s : Source (StateM ω)} {decode : Json → Option α} {url : String} {w u : ω}
  {count : ω → Nat}

def attempt (s : Source (StateM ω)) (url : String) (i : Nat) (w : ω) : Option Http.Response × ω :=
  (s.ask url).run (s.wire.emit (event .debug "Calling GitHub API"
    [("url", .text url), ("attempt", .number i)]) w).2

def resumed (s : Source (StateM ω)) (url : String) (i : Nat) (w : ω) : ω :=
  let tried := s.attempt url i w
  let paused := s.wire.pause i tried.2
  (s.wire.emit (event .warn "GitHub request failed, retrying"
    [("url", .text url), ("error", .text (passingFault tried.1).message),
     ("retry_in_ms", .number (paused.1.getD 0))]) paused.2).2

def answers (s : Source (StateM ω)) (url : String) : Nat → ω → Nat → Option Http.Response
  | first, w, 0 => (s.attempt url first w).1
  | first, w, i + 1 => s.answers url (first + 1) (s.resumed url first w) i

def ended (s : Source (StateM ω)) (url : String) : Nat → ω → Nat → ω
  | first, w, 0 =>
      let tried := s.attempt url first w
      if mayPass tried.1 then
        (s.wire.emit (event .error "GitHub request failed, giving up"
          [("url", .text url), ("error", .text (passingFault tried.1).message)]) tried.2).2
      else tried.2
  | first, w, i + 1 => s.ended url (first + 1) (s.resumed url first w) i

theorem run_attempt
    (next : Except Fault (α × Option String) → ExceptT Fault (StateM ω) β) (i : Nat) (w : ω) :
    (do
      s.wire.emit (event .debug "Calling GitHub API"
        [("url", .text url), ("attempt", .number i)])
      next (← ExceptT.lift (s.getOnce decode url).run) : ExceptT Fault (StateM ω) β).run w =
      (next (verdict decode url (s.attempt url i w).1)).run (s.attempt url i w).2 := by
  have hline : (liftM (s.wire.emit (event .debug "Calling GitHub API"
      [("url", .text url), ("attempt", .number i)])) : ExceptT Fault (StateM ω) Unit).run w =
      (.ok (), (s.wire.emit (event .debug "Calling GitHub API"
        [("url", .text url), ("attempt", .number i)]) w).2) := rfl
  have hasked := s.getOnce_run decode url (s.wire.emit (event .debug "Calling GitHub API"
    [("url", .text url), ("attempt", .number i)]) w).2
  exact (run_bind_of_ok hline).trans (run_bind_of_ok (run_lift hasked))

theorem getWithin_of_settled {i : Nat} (h : mayPass (s.attempt url i w).1 = false) (left : Nat) :
    (s.getWithin decode url i (left + 1)).run w =
      (verdict decode url (s.attempt url i w).1, (s.attempt url i w).2) := by
  rw [getWithin]
  refine (s.run_attempt _ i w).trans ?_
  cases hverdict : verdict decode url (s.attempt url i w).1 with
  | ok page => rfl
  | error f =>
      dsimp only
      rw [isTransient_of_verdict h hverdict]
      rfl

theorem getWithin_of_last {i : Nat} (h : mayPass (s.attempt url i w).1 = true) :
    (s.getWithin decode url i 1).run w =
      (verdict decode url (s.attempt url i w).1, s.ended url i w 0) := by
  rw [getWithin]
  refine (s.run_attempt _ i w).trans ?_
  rw [verdict_of_mayPass h, ended]
  dsimp only
  rw [isTransient_passingFault, if_pos h]
  rfl

theorem getWithin_of_mayPass {i : Nat} (h : mayPass (s.attempt url i w).1 = true)
    (hpause : (s.wire.pause i (s.attempt url i w).2).1.isSome = true) (left : Nat) :
    (s.getWithin decode url i (left + 2)).run w =
      (s.getWithin decode url (i + 1) (left + 1)).run (s.resumed url i w) := by
  rw [getWithin]
  refine (s.run_attempt _ i w).trans ?_
  rw [verdict_of_mayPass h]
  dsimp only
  rw [isTransient_passingFault]
  unfold resumed
  dsimp only
  rcases hpaused : s.wire.pause i (s.attempt url i w).2 with ⟨wait, v⟩
  rw [hpaused] at hpause
  obtain ⟨wait, rfl⟩ := Option.isSome_iff_exists.1 hpause
  exact run_bind_of_ok (run_lift hpaused)

theorem getWithin_of_spent {i : Nat} (h : mayPass (s.attempt url i w).1 = true)
    (hpause : (s.wire.pause i (s.attempt url i w).2).1 = none) (left : Nat) :
    (s.getWithin decode url i (left + 2)).run w =
      (verdict decode url (s.attempt url i w).1, (s.wire.pause i (s.attempt url i w).2).2) := by
  rw [getWithin]
  refine (s.run_attempt _ i w).trans ?_
  rw [verdict_of_mayPass h]
  dsimp only
  rw [isTransient_passingFault]
  rcases hpaused : s.wire.pause i (s.attempt url i w).2 with ⟨wait, v⟩
  rw [hpaused] at hpause
  obtain rfl : wait = none := hpause
  exact run_bind_of_ok (run_lift hpaused)

theorem exists_last (hpatient : ∀ i u, (s.wire.pause i u).1.isSome = true)
    (decode : Json → Option α) (url : String) (first left : Nat) (w : ω) :
    ∃ last ≤ left, (∀ i < last, mayPass (s.answers url first w i) = true) ∧
      (mayPass (s.answers url first w last) = true → last = left) ∧
      (s.getWithin decode url first (left + 1)).run w =
        (verdict decode url (s.answers url first w last), s.ended url first w last) := by
  -- by induction on the attempts that are left after the first one
  induction left generalizing first w with
  | zero =>
      refine ⟨0, Nat.le_refl 0, nofun, fun _ => rfl, ?_⟩
      cases h : mayPass (s.attempt url first w).1 with
      | true => exact getWithin_of_last h
      | false =>
          rw [getWithin_of_settled h, ended, h]
          rfl
  | succ left ih =>
      cases h : mayPass (s.attempt url first w).1 with
      | true =>
          obtain ⟨last, hle, hbefore, hlast, hrun⟩ := ih (first + 1) (s.resumed url first w)
          refine ⟨last + 1, Nat.succ_le_succ hle, ?_,
            fun hpass => congrArg Nat.succ (hlast hpass), ?_⟩
          · intro i hi
            cases i with
            | zero => exact h
            | succ i => exact hbefore i (Nat.lt_of_succ_lt_succ hi)
          · rw [getWithin_of_mayPass h (hpatient _ _), hrun]
            rfl
      | false =>
          refine ⟨0, Nat.zero_le _, nofun, ?_, ?_⟩
          · intro hpass
            rw [answers, h] at hpass
            cases hpass
          · rw [getWithin_of_settled h, ended, h]
            rfl

/-- A count of exchanges: an attempt at an address is at most one, and nothing else is any. -/
structure Counts (s : Source (StateM ω)) (count : ω → Nat) : Prop where
  attempt : ∀ url i w, count (s.attempt url i w).2 ≤ count w + 1
  emit : ∀ e w, e.message ≠ "Calling GitHub API" → count (s.wire.emit e w).2 = count w
  pause : ∀ i w, count (s.wire.pause i w).2 = count w

theorem Counts.resumed (hcount : s.Counts count) (url : String) (i : Nat) (w : ω) :
    count (s.resumed url i w) = count (s.attempt url i w).2 := by
  unfold Source.resumed
  dsimp only
  rw [hcount.emit _ _ (by simp [event]), hcount.pause]

theorem Counts.ended (hcount : s.Counts count) (url : String) (first last : Nat)
    (w : ω) :
    count (s.ended url first w last) ≤ count w + (last + 1) ∧
      ((∀ i u, count (s.attempt url i u).2 = count u + 1) →
        count (s.ended url first w last) = count w + (last + 1)) := by
  induction last generalizing first w with
  | zero =>
      have hsame : count (s.ended url first w 0) = count (s.attempt url first w).2 := by
        unfold Source.ended
        dsimp only
        split
        · exact hcount.emit _ _ (by simp [event])
        · rfl
      rw [hsame]
      exact ⟨hcount.attempt url first w, fun hone => hone first w⟩
  | succ last ih =>
      obtain ⟨hle, heq⟩ := ih (first + 1) (s.resumed url first w)
      rw [hcount.resumed] at hle heq
      have hfirst := hcount.attempt url first w
      refine ⟨by rw [Source.ended]; omega, fun hone => ?_⟩
      rw [Source.ended, heq hone, hone first w]
      omega

theorem counts_of_direct (count : ω → Nat)
    (hdirect : ∀ request w r, ((s.wire.exchange request).run w).1 = some r → r.isRedirect = false)
    (hexchange : ∀ request w, count ((s.wire.exchange request).run w).2 = count w + 1)
    (hemit : ∀ e w, count (s.wire.emit e w).2 = count w)
    (hpause : ∀ i w, count (s.wire.pause i w).2 = count w) :
    s.Counts count ∧ ∀ url, (request? s.access url).isSome = true →
      ∀ i w, count (s.attempt url i w).2 = count w + 1 := by
  have hask (url : String) (w : ω) : count ((s.ask url).run w).2 =
      if (request? s.access url).isSome then count w + 1 else count w := by
    unfold ask
    cases request? s.access url with
    | none => rfl
    | some request =>
        dsimp only
        rw [follow_of_direct hdirect]
        exact hexchange request w
  refine ⟨⟨fun url i w => ?_, fun e w _ => hemit e w, hpause⟩, fun url hfit i w => ?_⟩
  · unfold attempt
    rw [hask, hemit]
    split <;> omega
  · unfold attempt
    rw [hask, hemit, if_pos hfit]

def CostsAtMost (count : ω → Nat) (x : ExceptT Fault (StateM ω) β) (n : Nat) : Prop :=
  ∀ w, count (x.run w).2 ≤ count w + n

theorem CostsAtMost.bind {β γ : Type} {x : ExceptT Fault (StateM ω) β}
    {f : β → ExceptT Fault (StateM ω) γ} {m n : Nat} (hx : CostsAtMost count x m)
    (hf : ∀ b, CostsAtMost count (f b) n) : CostsAtMost count (x >>= f) (m + n) := by
  intro w
  have hfirst := hx w
  rcases hreply : x.run w with ⟨reply, u⟩
  rw [hreply] at hfirst
  cases reply with
  | error e =>
      rw [run_bind_of_error hreply]
      dsimp only at *
      omega
  | ok b =>
      rw [run_bind_of_ok hreply]
      have hrest := hf b u
      dsimp only at *
      omega

theorem costsAtMost_pure (count : ω → Nat) (b : β) :
    CostsAtMost count (pure b : ExceptT Fault (StateM ω) β) 0 :=
  fun _ => Nat.le_refl _

theorem Counts.line (hcount : s.Counts count) {e : Event}
    (he : e.message ≠ "Calling GitHub API") :
    CostsAtMost count (liftM (s.wire.emit e) : ExceptT Fault (StateM ω) Unit) 0 :=
  fun w => Nat.le_of_eq (hcount.emit e w he)

theorem Counts.noted (hcount : s.Counts count) (fs : List ListedFile) :
    CostsAtMost count
      (fs.forM fun f => (liftM (s.noteUnknown f) : ExceptT Fault (StateM ω) PUnit)) 0 := by
  induction fs with
  | nil => exact costsAtMost_pure count _
  | cons f fs ih =>
      refine CostsAtMost.bind (m := 0) ?_ fun _ => ih
      dsimp only [noteUnknown]
      split
      · exact costsAtMost_pure count _
      · exact hcount.line (by simp [event])

theorem Counts.get (hcount : s.Counts count)
    (hpatient : ∀ i u, (s.wire.pause i u).1.isSome = true) (decode : Json → Option α)
    (url : String) : CostsAtMost count (s.get decode url) (max s.access.attempts.toNat 1) := by
  intro w
  obtain ⟨left, hleft⟩ := Nat.exists_eq_add_of_le' (Nat.le_max_right s.access.attempts.toNat 1)
  obtain ⟨last, hle, -, -, hrun⟩ := exists_last hpatient decode url 1 left w
  have hended := (hcount.ended url 1 last w).1
  rw [Source.get, hleft, hrun]
  dsimp only
  omega

theorem Counts.walk (hcount : s.Counts count)
    (hpatient : ∀ i u, (s.wire.pause i u).1.isSome = true) (base head : String) (n : Nat)
    (l : Listed) (url : String) :
    CostsAtMost count (s.walk base head l url n) (n * max s.access.attempts.toNat 1) := by
  induction n generalizing l url with
  | zero =>
      rw [Nat.zero_mul]
      exact CostsAtMost.bind (hcount.line (by simp [event])) fun _ => costsAtMost_pure count _
  | succ n ih =>
      rw [Nat.succ_mul, Nat.add_comm (n * _)]
      refine (hcount.get hpatient ComparePage.ofJson? url).bind ?_
      rintro ⟨page, next⟩
      rw [← Nat.zero_add (n * _)]
      refine (hcount.noted page.files).bind fun _ => ?_
      cases next with
      | none => exact fun w => Nat.le_add_right _ _
      | some next => exact ih (l.add page) next

theorem Counts.compare (hcount : s.Counts count)
    (hpatient : ∀ i u, (s.wire.pause i u).1.isSome = true) (owner repo base head : String) :
    CostsAtMost count (s.compare owner repo base head) (30 * max s.access.attempts.toNat 1) :=
  (hcount.walk hpatient base head pageLimit .empty _).bind fun _ =>
    (hcount.line (by simp [event])).bind fun _ => costsAtMost_pure count _

/-- An address is asked for until asking again would not better the answer, or as often as is
allowed. -/
theorem asks_until_settled (s : Source (StateM ω))
    (hpatient : ∀ i u, (s.wire.pause i u).1.isSome = true) (decode : Json → Option α)
    (url : String) (w : ω) :
    (∃ last,
      (∀ k, mayPass (s.answers url 1 w k) = false →
        (∀ i < k, mayPass (s.answers url 1 w i) = true) →
        last + 1 = min (k + 1) (max s.access.attempts.toNat 1)) ∧
      ((∀ i, mayPass (s.answers url 1 w i) = true) →
        last + 1 = max s.access.attempts.toNat 1) ∧
      (s.get decode url).run w =
        (verdict decode url (s.answers url 1 w last), s.ended url 1 w last) ∧
      ∀ count, s.Counts count → (∀ i u, count (s.attempt url i u).2 = count u + 1) →
        count (s.ended url 1 w last) = count w + (last + 1)) ∧
    ∀ count, s.Counts count → ∀ owner repo base head,
      count ((s.compare owner repo base head).run w).2 ≤
        count w + 30 * max s.access.attempts.toNat 1 := by
  refine ⟨?_, fun count hcount owner repo base head =>
    hcount.compare hpatient owner repo base head w⟩
  obtain ⟨left, hleft⟩ := Nat.exists_eq_add_of_le' (Nat.le_max_right s.access.attempts.toNat 1)
  obtain ⟨last, hle, hbefore, hlast, hrun⟩ := exists_last hpatient decode url 1 left w
  refine ⟨last, ?_, ?_, ?_, fun count hcount => (hcount.ended url 1 last w).2⟩
  · intro k hsettled hk
    rw [hleft]
    rcases Nat.lt_trichotomy last k with hlt | rfl | hlt
    · have heq := hlast (hk last hlt)
      omega
    · omega
    · rw [hbefore k hlt] at hsettled
      cases hsettled
  · intro hall
    rw [hleft, hlast (hall last)]
  · rw [Source.get, hleft]
    exact hrun

theorem asks_until_settled_past_two_failures :
    ∃ s : Source (StateM Nat), s.access.attempts = 5 ∧
      (s.get CommitPage.ofJson? "https://host/x").run 0 = (.ok (⟨"abc", "m"⟩, none), 3) := by
  let script : Nat → Option Http.Response
    | 0 => some ⟨503, [], "busy"⟩
    | 1 => none
    | _ => some ⟨200, [], "\x7b\"sha\":\"abc\",\"commit\":\x7b\"message\":\"m\"\x7d\x7d"⟩
  let s : Source (StateM Nat) := ⟨⟨"https://host", none, 1, 5, 1⟩,
    ⟨fun _ n => (script n, n + 1), fun _ n => ((), n), fun _ n => (some 0, n)⟩⟩
  have hdirect : ∀ (request : Http.Request) (n : Nat) (r : Http.Response),
      ((s.wire.exchange request).run n).1 = some r → r.isRedirect = false := by
    rintro request (_ | _ | n) r h <;> cases h <;> rfl
  obtain ⟨hcount, hone⟩ := s.counts_of_direct (fun n => n) hdirect (fun _ _ => rfl)
    (fun _ _ => rfl) (fun _ _ => rfl)
  have hmost : max s.access.attempts.toNat 1 = 5 := by decide
  obtain ⟨⟨last, hsettled, -, hrun, hmade⟩, -⟩ := asks_until_settled s (fun _ _ => rfl)
    CommitPage.ofJson? "https://host/x" 0
  rw [hmost] at hsettled
  obtain rfl : last = 2 := Nat.succ.inj (hsettled 2 (by decide +kernel) (by decide +kernel))
  have hended : s.ended "https://host/x" 1 0 2 = 3 :=
    hmade (fun n => n) hcount (hone _ (by decide +kernel))
  have hok : (verdict CommitPage.ofJson? "https://host/x"
      (s.answers "https://host/x" 1 0 2)).toOption = some (⟨"abc", "m"⟩, none) := by
    decide +kernel
  refine ⟨s, rfl, ?_⟩
  rw [hrun, hended]
  cases hverdict :
      verdict CommitPage.ofJson? "https://host/x" (s.answers "https://host/x" 1 0 2) with
  | error f => simp [hverdict, Except.toOption] at hok
  | ok page =>
      have hpage : page = (⟨"abc", "m"⟩, none) := by
        simpa [hverdict, Except.toOption] using hok
      rw [hpage]

end Retrying

end Source

end IndexRefresh.GitHub
