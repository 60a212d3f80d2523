import IndexRefresh.GitHub.Source
import IndexRefresh.Proofs.Fallible

namespace IndexRefresh.GitHub

def ListedFile.change (f : ListedFile) : ChangedFile where
  path := f.filename
  kind :=
    if f.status = "added" then .added
    else if f.status = "removed" then .deleted
    else if f.status = "renamed" then .renamed
    else .modified
  previousPath := f.previousFilename

def changesOf (pages : List ComparePage) : List ChangedFile :=
  ((pages.flatMap ComparePage.files).filter fun f => f.status ≠ "unchanged").map ListedFile.change

def lastListing? (pages : List ComparePage) : Option ComparePage :=
  (pages.filter fun p => !p.files.isEmpty).getLast?

theorem filterMap_changed? (fs : List ListedFile) :
    fs.filterMap ListedFile.changed? =
      (fs.filter fun f => f.status ≠ "unchanged").map ListedFile.change := by
  induction fs with
  | nil => rfl
  | cons f fs ih =>
      by_cases hsame : f.status = "unchanged"
      · simp [ListedFile.changed?, kindOf?, hsame, ih]
      · have hkind : f.changed? = some f.change := by
          simp only [ListedFile.changed?, kindOf?, ListedFile.change, hsame, if_false]
          split
          · rfl
          · split
            · rfl
            · split <;> rfl
        simp [hkind, hsame, ih]

theorem changesOf_cons (p : ComparePage) (pages : List ComparePage) :
    changesOf (p :: pages) = p.files.filterMap ListedFile.changed? ++ changesOf pages := by
  simp [changesOf, filterMap_changed?]

namespace Source

namespace Listed

theorem files_foldl_add (l : Listed) (pages : List ComparePage) :
    (pages.foldl add l).files = l.files ++ changesOf pages := by
  induction pages generalizing l with
  | nil => simp [changesOf]
  | cons p pages ih => rw [List.foldl_cons, ih, changesOf_cons, add, List.append_assoc]

theorem atLimit_foldl_add (l : Listed) (pages : List ComparePage) :
    (pages.foldl add l).atLimit =
      (lastListing? pages).elim l.atLimit fun p => decide (fileLimit ≤ p.files.length) := by
  induction pages generalizing l with
  | nil => rfl
  | cons p pages ih =>
      rw [List.foldl_cons, ih]
      cases hp : p.files.isEmpty with
      | true =>
          -- an empty page leaves the decision to those before it
          have hsame : lastListing? (p :: pages) = lastListing? pages := by
            simp [lastListing?, hp]
          rw [hsame, add, hp]
          rfl
      | false =>
          have hlast : lastListing? (p :: pages) = (lastListing? pages).or (some p) := by
            simp [lastListing?, hp, List.getLast?_cons]
          rw [hlast, add, hp]
          cases lastListing? pages <;> rfl

end Listed

section Walk

variable {ω : Type} {s : Source (StateM ω)} {base head url : String} {l : Listed}
  {p : ComparePage} {w u : ω}

def page (s : Source (StateM ω)) (url : String) (w : ω) :
    Except Fault (ComparePage × Option String) × ω :=
  (s.get ComparePage.ofJson? url).run w

def noted (s : Source (StateM ω)) (fs : List ListedFile) (w : ω) : ω :=
  fs.foldl (fun w f => (s.noteUnknown f w).2) w

/-- The pages from an address to one without a next page, and the peer before and afterwards. -/
inductive Walked (s : Source (StateM ω)) : String → ω → List ComparePage → ω → Prop where
  | last {url : String} {w u : ω} {p : ComparePage} (h : s.page url w = (.ok (p, none), u)) :
      Walked s url w [p] (s.noted p.files u)
  | next {url next : String} {w u v : ω} {p : ComparePage} {pages : List ComparePage}
      (h : s.page url w = (.ok (p, some next), u)) (hs : Walked s next (s.noted p.files u) pages v) :
      Walked s url w (p :: pages) v

theorem run_noteUnknown (fs : List ListedFile) (w : ω) :
    (forM fs fun f => (liftM (s.noteUnknown f) : ExceptT Fault (StateM ω) PUnit)).run w =
      (.ok (), s.noted fs w) := by
  induction fs generalizing w with
  | nil => rfl
  | cons f fs ih =>
      have hf : (liftM (s.noteUnknown f) : ExceptT Fault (StateM ω) PUnit).run w =
          (.ok (), (s.noteUnknown f w).2) := rfl
      rw [List.forM_cons, run_bind_of_ok hf, ih]
      rfl

theorem walk_of_error {f : Fault} (h : s.page url w = (.error f, u)) (n : Nat) :
    (s.walk base head l url (n + 1)).run w = (.error f, u) :=
  run_bind_of_error h

theorem walk_of_last (h : s.page url w = (.ok (p, none), u)) (n : Nat) :
    (s.walk base head l url (n + 1)).run w = (.ok (l.add p), s.noted p.files u) :=
  (run_bind_of_ok h).trans (run_bind_of_ok (run_noteUnknown p.files u))

theorem walk_of_next {next : String} (h : s.page url w = (.ok (p, some next), u)) (n : Nat) :
    (s.walk base head l url (n + 1)).run w =
      (s.walk base head (l.add p) next n).run (s.noted p.files u) :=
  (run_bind_of_ok h).trans (run_bind_of_ok (run_noteUnknown p.files u))

theorem walk_zero (l : Listed) (url : String) (w : ω) :
    ∃ u, (s.walk base head l url 0).run w = (.ok { l with atLimit := true }, u) :=
  ⟨_, rfl⟩

theorem walked_of_walk {n : Nat} {l' : Listed} (h : (s.walk base head l url n).run w = (.ok l', u))
    (hlimit : l'.atLimit = false) :
    ∃ pages, s.Walked url w pages u ∧ pages.length ≤ n ∧ l' = pages.foldl Listed.add l := by
  -- by induction on the pages that may still be asked for, whatever was listed so far
  induction n generalizing l url w with
  | zero =>
      obtain ⟨v, hv⟩ := s.walk_zero l url w
      rw [hv] at h
      cases h
      cases hlimit
  | succ n ih =>
      rcases hreply : s.page url w with ⟨reply, v⟩
      cases reply with
      | error f =>
          rw [walk_of_error hreply] at h
          cases h
      | ok answer =>
          obtain ⟨p, next⟩ := answer
          cases next with
          | none =>
              rw [walk_of_last hreply] at h
              cases h
              exact ⟨[p], .last hreply, Nat.le_add_left 1 n, rfl⟩
          | some next =>
              rw [walk_of_next hreply] at h
              obtain ⟨pages, hpages, hlength, rfl⟩ := ih h
              exact ⟨p :: pages, .next hreply hpages, Nat.succ_le_succ hlength, rfl⟩

theorem walk_of_walked {pages : List ComparePage} (h : s.Walked url w pages u) {n : Nat}
    (hlength : pages.length ≤ n) :
    (s.walk base head l url n).run w = (.ok (pages.foldl Listed.add l), u) := by
  induction h generalizing n l with
  | last h =>
      obtain ⟨n, rfl⟩ := Nat.exists_eq_add_of_le' hlength
      exact walk_of_last h n
  | next h hs ih =>
      obtain ⟨n, rfl⟩ := Nat.exists_eq_add_of_le' (Nat.le_trans (Nat.le_add_left 1 _) hlength)
      rw [walk_of_next h]
      exact ih (Nat.le_of_succ_le_succ hlength)

/-- The pages from an address list all changes: none is missing at the end, and the last one that
lists any is not as full as a page can be. -/
structure Complete (s : Source (StateM ω)) (url : String) (w : ω) (pages : List ComparePage) :
    Prop where
  walked : ∃ u, s.Walked url w pages u
  few : pages.length ≤ 30
  roomy : ∀ p, lastListing? pages = some p → p.files.length < 300

theorem compare_eq_ok_iff {owner repo : String} {files : List ChangedFile} :
    (∃ c, ((s.compare owner repo base head).run w).1 = .ok c ∧ c.truncated = false ∧
      c.files = files) ↔
      ∃ pages, s.Complete (compareUrl s.access owner repo base head) w pages ∧
        files = changesOf pages := by
  constructor
  · rintro ⟨c, hc, hwhole, rfl⟩
    rcases hwalk : (s.walk base head .empty (compareUrl s.access owner repo base head)
      pageLimit).run w with ⟨reply, u⟩
    cases reply with
    | error f =>
        rw [compare, run_bind_of_error hwalk] at hc
        cases hc
    | ok l =>
        rw [compare, run_bind_of_ok hwalk] at hc
        cases hc
        obtain ⟨pages, hpages, hlength, rfl⟩ := walked_of_walk hwalk hwhole
        refine ⟨pages, ⟨⟨u, hpages⟩, hlength, ?_⟩, ?_⟩
        · intro p hp
          have hlimit : (pages.foldl Listed.add .empty).atLimit = false := hwhole
          rw [Listed.atLimit_foldl_add, hp] at hlimit
          exact Nat.lt_of_not_le (of_decide_eq_false hlimit)
        · exact Listed.files_foldl_add .empty pages
  · rintro ⟨pages, ⟨⟨u, hpages⟩, hlength, hroomy⟩, rfl⟩
    have hwalk : (s.walk base head .empty (compareUrl s.access owner repo base head)
        pageLimit).run w = (.ok (pages.foldl Listed.add .empty), u) :=
      walk_of_walked hpages hlength
    refine ⟨_, congrArg Prod.fst (run_bind_of_ok hwalk), ?_, Listed.files_foldl_add .empty pages⟩
    change (pages.foldl Listed.add .empty).atLimit = false
    rw [Listed.atLimit_foldl_add]
    cases hlast : lastListing? pages with
    | none => rfl
    | some p => exact decide_eq_false (Nat.not_le_of_lt (hroomy p hlast))

end Walk

end Source

end IndexRefresh.GitHub
