import IndexRefresh.Proofs.GitHub.Pages

namespace IndexRefresh.GitHub

namespace Source

namespace Listed

theorem toNat_max (a b : UInt32) : (max a b).toNat = max a.toNat b.toNat := by
  change (if a ≤ b then b else a).toNat = _
  by_cases h : a ≤ b
  · rw [if_pos h]
    exact (Nat.max_eq_right (UInt32.le_iff_toNat_le.1 h)).symm
  · have hle : b.toNat ≤ a.toNat := Nat.le_of_not_le fun hle => h (UInt32.le_iff_toNat_le.2 hle)
    rw [if_neg h]
    exact (Nat.max_eq_left hle).symm

theorem totalCommits_foldl_add (l : Listed) (pages : List ComparePage) :
    (pages.foldl add l).totalCommits.toNat =
      (pages.map fun p => p.totalCommits.toNat).foldl max l.totalCommits.toNat := by
  induction pages generalizing l with
  | nil => rfl
  | cons p pages ih =>
      rw [List.foldl_cons, ih, List.map_cons, List.foldl_cons, add]
      dsimp only
      rw [toNat_max]

theorem max?_totalCommits {pages : List ComparePage} (h : pages ≠ []) :
    (pages.map fun p => p.totalCommits.toNat).max? =
      some (pages.foldl add .empty).totalCommits.toNat := by
  cases pages with
  | nil => exact absurd rfl h
  | cons p pages =>
      have hzero : max (empty.totalCommits.toNat) p.totalCommits.toNat = p.totalCommits.toNat :=
        Nat.zero_max _
      rw [totalCommits_foldl_add, List.map_cons, List.max?_cons', List.foldl_cons, hzero]

theorem atLimit_iff (pages : List ComparePage) :
    (pages.foldl add .empty).atLimit = true ↔
      ∃ p, lastListing? pages = some p ∧ 300 ≤ p.files.length := by
  rw [atLimit_foldl_add]
  cases lastListing? pages with
  | none => simp [empty]
  | some p =>
      rw [Option.elim_some, decide_eq_true_iff]
      simp [fileLimit]

end Listed

section Paging

variable {ω : Type} {s : Source (StateM ω)} {base head url : String} {w u : ω} {l : Listed}
  {pages : List ComparePage} {n : Nat}

def logged (s : Source (StateM ω)) (lines : List Event) (w : ω) : ω :=
  lines.foldl (fun w e => (s.wire.emit e w).2) w

/-- The pages that are fetched one after the other, each at the link on the one before it, and what
comes last: a fault, a page without a link, or a link that is not followed. -/
inductive Browsed (s : Source (StateM ω)) :
    String → ω → List ComparePage → Except Fault (Option String) → ω → Prop where
  | failed {url : String} {w u : ω} {f : Fault} (h : s.page url w = (.error f, u)) :
      Browsed s url w [] (.error f) u
  | last {url : String} {w u : ω} {p : ComparePage} (h : s.page url w = (.ok (p, none), u)) :
      Browsed s url w [p] (.ok none) (s.noted p.files u)
  | left {url : String} {w : ω} : Browsed s url w [] (.ok (some url)) w
  | next {url next : String} {w u v : ω} {p : ComparePage} {pages : List ComparePage}
      {last : Except Fault (Option String)} (h : s.page url w = (.ok (p, some next), u))
      (hs : Browsed s next (s.noted p.files u) pages last v) : Browsed s url w (p :: pages) last v

/-- A walk over at most so many pages ends at one that fails, at one without a link, or before the
next one would be too many. -/
inductive Ended (s : Source (StateM ω)) (n : Nat) (l : Listed) (pages : List ComparePage) (u : ω) :
    Except Fault (Option String) → Except Fault Listed × ω → Prop where
  | failed {f : Fault} (h : pages.length < n) : Ended s n l pages u (.error f) (.error f, u)
  | complete (h : pages.length ≤ n) (hne : pages ≠ []) :
      Ended s n l pages u (.ok none) (.ok (pages.foldl Listed.add l), u)
  | capped {next : String} {line : Event} (h : pages.length = n) :
      Ended s n l pages u (.ok (some next))
        (.ok { pages.foldl Listed.add l with atLimit := true }, s.logged [line] u)

theorem Ended.cons {p : ComparePage} {last : Except Fault (Option String)}
    {result : Except Fault Listed × ω} (h : s.Ended n (l.add p) pages u last result) :
    s.Ended (n + 1) l (p :: pages) u last result := by
  cases h with
  | failed h => exact .failed (Nat.succ_lt_succ h)
  | complete h => exact .complete (Nat.succ_le_succ h) (List.cons_ne_nil p pages)
  | capped h => exact .capped (congrArg Nat.succ h)

theorem exists_browsed (base head : String) (n : Nat) (l : Listed) (url : String) (w : ω) :
    ∃ pages last u, s.Browsed url w pages last u ∧
      s.Ended n l pages u last ((s.walk base head l url n).run w) := by
  -- by induction on the pages that may still be fetched, whatever was listed so far
  induction n generalizing l url w with
  | zero => exact ⟨[], .ok (some url), w, .left, .capped rfl⟩
  | succ n ih =>
      rcases hreply : s.page url w with ⟨reply, u⟩
      cases reply with
      | error f =>
          rw [walk_of_error hreply]
          exact ⟨[], .error f, u, .failed hreply, .failed (Nat.succ_pos n)⟩
      | ok answer =>
          obtain ⟨p, link⟩ := answer
          cases link with
          | none =>
              rw [walk_of_last hreply]
              exact ⟨[p], .ok none, _, .last hreply,
                .complete (Nat.succ_pos n) (List.cons_ne_nil p [])⟩
          | some next =>
              rw [walk_of_next hreply]
              obtain ⟨pages, last, v, hpages, hended⟩ := ih (l.add p) next (s.noted p.files u)
              exact ⟨p :: pages, last, v, .next hreply hpages, hended.cons⟩

theorem compare_reads_pages (s : Source (StateM ω)) (owner repo base head : String) (w : ω) :
    ∃ pages last u, s.Browsed (compareUrl s.access owner repo base head) w pages last u ∧
      pages.length ≤ 30 ∧
      (∀ f, last = .error f → pages.length < 30 ∧
        (s.compare owner repo base head).run w = (.error f, u)) ∧
      ∀ link, last = .ok link → (link.isSome → pages.length = 30) ∧
        ∃ c lines, (s.compare owner repo base head).run w = (.ok c, s.logged lines u) ∧
          c.baseSha = base ∧ c.headSha = head ∧
          (pages.map fun p => p.totalCommits.toNat).max? = some c.totalCommits.toNat ∧
          c.files = changesOf pages ∧
          (c.truncated = true ↔
            link.isSome ∨ ∃ p, lastListing? pages = some p ∧ 300 ≤ p.files.length) := by
  obtain ⟨pages, last, u, hpages, hended⟩ := s.exists_browsed base head pageLimit .empty
    (compareUrl s.access owner repo base head) w
  refine ⟨pages, last, u, hpages, ?_⟩
  generalize hwalk : (s.walk base head .empty (compareUrl s.access owner repo base head)
    pageLimit).run w = result at hended
  cases hended with
  | failed h =>
      refine ⟨Nat.le_of_lt h, ?_, nofun⟩
      rintro f ⟨⟩
      exact ⟨h, run_bind_of_error hwalk⟩
  | complete h hne =>
      refine ⟨h, nofun, ?_⟩
      rintro link ⟨⟩
      refine ⟨nofun, _, [_], run_bind_of_ok hwalk, rfl, rfl, Listed.max?_totalCommits hne,
        Listed.files_foldl_add .empty pages, ?_⟩
      simpa using Listed.atLimit_iff pages
  | @capped next line h =>
      refine ⟨Nat.le_of_eq h, nofun, ?_⟩
      rintro link ⟨⟩
      have hne : pages ≠ [] := by
        rintro rfl
        cases h
      refine ⟨fun _ => h, _, [line, _], run_bind_of_ok hwalk, rfl, rfl,
        Listed.max?_totalCommits hne, Listed.files_foldl_add .empty pages, ?_⟩
      simp

end Paging

end Source

end IndexRefresh.GitHub
