import IndexRefresh.GitHub.Source
import IndexRefresh.Proofs.Text.Cut

namespace IndexRefresh.GitHub

section Header

variable {before after cs : List Char}

theorem nextTarget?_append_blanks (h : ∀ d ∈ after, Text.isBlank d = true) (cs : List Char) :
    nextTarget? (cs ++ after) = nextTarget? cs := by
  have hmark : ';' ∉ after := fun hmem => absurd (h _ hmem) (by decide)
  obtain ⟨pieces, last, hs, happend⟩ := Text.split_append cs hmark
  rw [nextTarget?, nextTarget?, hs, happend]
  cases pieces with
  | nil => rfl
  | cons target parameters =>
      have hlast : isNextParameter (last ++ after) = isNextParameter last := by
        rw [isNextParameter, isNextParameter, Text.trim_append_blanks h]
      simp only [List.cons_append, List.any_append, List.any_cons, hlast]

theorem nextTarget?_blanks_append (h : ∀ d ∈ before, Text.isBlank d = true) (cs : List Char) :
    nextTarget? (before ++ cs) = nextTarget? cs := by
  have hmark : ';' ∉ before := fun hmem => absurd (h _ hmem) (by decide)
  obtain ⟨first, pieces, hs, happend⟩ := Text.split_append_of_not_mem hmark cs
  rw [nextTarget?, nextTarget?, hs, happend]
  simp only [Text.trim_blanks_append h]

theorem nextPage?_between_blanks (hbefore : ∀ d ∈ before, Text.isBlank d = true)
    (hafter : ∀ d ∈ after, Text.isBlank d = true) (cs : List Char) :
    nextPage? (String.ofList (before ++ cs ++ after)) = nextPage? (String.ofList cs) := by
  have hstart : ',' ∉ before := fun hmem => absurd (hbefore _ hmem) (by decide)
  have hend : ',' ∉ after := fun hmem => absurd (hafter _ hmem) (by decide)
  obtain ⟨first, pieces, hs, happend⟩ := Text.split_append_of_not_mem hstart cs
  obtain ⟨others, last, hs', happend'⟩ := Text.split_append (before ++ cs) hend
  have hlast : (Text.split ',' (before ++ cs ++ after)).findSome? nextTarget? =
      (Text.split ',' (before ++ cs)).findSome? nextTarget? := by
    simp only [hs', happend', List.findSome?_append, List.findSome?_cons,
      nextTarget?_append_blanks hafter]
  have hfirst : (Text.split ',' (before ++ cs)).findSome? nextTarget? =
      (Text.split ',' cs).findSome? nextTarget? := by
    simp only [hs, happend, List.findSome?_cons, nextTarget?_blanks_append hbefore]
  simp only [nextPage?, String.toList_ofList, hlast, hfirst]

end Header

def isLinkChar (c : Char) : Bool :=
  0x20 ≤ c.toNat && c.toNat < 0x7F && c != ',' && c != ';'

structure Spaced where
  before : Nat
  text : List Char
  after : Nat
  fit : text.all isLinkChar = true
  first : text.head? ≠ some ' '
  last : text.getLast? ≠ some ' '

namespace Spaced

def chars (s : Spaced) : List Char :=
  List.replicate s.before ' ' ++ s.text ++ List.replicate s.after ' '

theorem isLinkChar_of_mem {s : Spaced} {c : Char} (h : c ∈ s.chars) : isLinkChar c = true := by
  have hspace : isLinkChar ' ' = true := by decide
  simp only [chars, List.mem_append] at h
  rcases h with (h | h) | h
  · exact List.eq_of_mem_replicate h ▸ hspace
  · exact List.all_eq_true.1 s.fit c h
  · exact List.eq_of_mem_replicate h ▸ hspace

theorem isBlank_of_mem_replicate {n : Nat} {c : Char} (h : c ∈ List.replicate n ' ') :
    Text.isBlank c = true := by
  rw [List.eq_of_mem_replicate h]
  decide

theorem isBlank_eq_false {c : Char} (h : isLinkChar c = true) (hne : c ≠ ' ') :
    Text.isBlank c = false := by
  have hspace : c.toNat ≠ 0x20 := fun heq => hne (Char.toNat_inj.1 heq)
  simp only [isLinkChar, Bool.and_eq_true, decide_eq_true_eq] at h
  obtain ⟨⟨⟨hlow, hhigh⟩, -⟩, -⟩ := h
  rw [← Bool.not_eq_true]
  simp only [Text.isBlank, Text.blankRanges, List.any_cons, List.any_nil, Bool.or_eq_true,
    Bool.and_eq_true, decide_eq_true_eq, Bool.false_eq_true, or_false]
  omega

theorem trim_chars (s : Spaced) : Text.trim s.chars = s.text := by
  unfold chars
  by_cases hempty : s.text = []
  · rw [Text.trim_append_blanks fun _ => isBlank_of_mem_replicate, hempty,
      Text.trim_blanks_append fun _ => isBlank_of_mem_replicate]
    rfl
  · have hfit := List.all_eq_true.1 s.fit
    refine Text.trim_of_ends (fun _ => isBlank_of_mem_replicate)
      (fun _ => isBlank_of_mem_replicate) hempty (fun c hc => ?_) fun c hc => ?_
    · refine isBlank_eq_false (hfit c (List.mem_of_mem_head? hc)) ?_
      rintro rfl
      exact s.first hc
    · refine isBlank_eq_false (hfit c (List.mem_of_getLast? hc)) ?_
      rintro rfl
      exact s.last hc

end Spaced

/-- An entry of a header of links: a target between angle brackets, spaces around it, and then
parameters. -/
structure Link where
  before : Nat
  target : List Char
  after : Nat
  fit : target.all isLinkChar = true
  parameters : List Spaced

namespace Link

def bracketed (l : Link) : Spaced where
  before := l.before
  text := '<' :: (l.target ++ ['>'])
  after := l.after
  fit := by
    rw [List.all_cons, List.all_append, l.fit]
    rfl
  first := by simp
  last := by simp [List.getLast?_cons]

def pieces (l : Link) : List (List Char) :=
  l.bracketed.chars :: l.parameters.map Spaced.chars

def chars (l : Link) : List Char :=
  [';'].intercalate l.pieces

def header (ls : List Link) : String :=
  String.ofList ([','].intercalate (ls.map chars))

def isNext (l : Link) : Bool :=
  l.parameters.any fun p =>
    p.text == "rel=\"next\"".toList || p.text == "rel=next".toList

theorem isLinkChar_of_mem_pieces {l : Link} {piece : List Char} (h : piece ∈ l.pieces) {c : Char}
    (hc : c ∈ piece) : isLinkChar c = true := by
  rcases List.mem_cons.1 h with rfl | h
  · exact Spaced.isLinkChar_of_mem hc
  · obtain ⟨p, -, rfl⟩ := List.mem_map.1 h
    exact Spaced.isLinkChar_of_mem hc

theorem mem_chars {l : Link} {c : Char} (h : c ∈ l.chars) : c = ';' ∨ isLinkChar c = true := by
  obtain hmark | ⟨piece, hpiece, hc⟩ := Text.mem_of_mem_intercalate h
  · exact .inl hmark
  · exact .inr (isLinkChar_of_mem_pieces hpiece hc)

theorem isNextParameter_chars (p : Spaced) :
    isNextParameter p.chars =
      (p.text == "rel=\"next\"".toList || p.text == "rel=next".toList) := by
  rw [isNextParameter, p.trim_chars]
  simp [String.ext_iff, Bool.beq_eq_decide_eq]

theorem nextTarget?_chars (l : Link) :
    nextTarget? l.chars = if l.isNext then some l.target else none := by
  have hmark : ∀ piece ∈ l.pieces, ';' ∉ piece := fun piece hpiece hmem =>
    absurd (isLinkChar_of_mem_pieces hpiece hmem) (by decide)
  have hnext : (l.parameters.map Spaced.chars).any isNextParameter = l.isNext := by
    rw [List.any_map, isNext]
    congr 1
    funext p
    exact isNextParameter_chars p
  have htarget : bracketed? l.bracketed.text = some l.target :=
    Text.withoutEnd?_eq_some_iff.2 rfl
  rw [nextTarget?, chars, Text.split_intercalate hmark (List.cons_ne_nil _ _), pieces]
  simp only [hnext, l.bracketed.trim_chars, htarget]

theorem findSome?_chars (ls : List Link) :
    (ls.map chars).findSome? nextTarget? = (ls.find? isNext).map target := by
  induction ls with
  | nil => rfl
  | cons l ls ih =>
      rw [List.map_cons, List.findSome?_cons, nextTarget?_chars, List.find?_cons]
      cases l.isNext with
      | true => rfl
      | false => exact ih

theorem nextPage?_header (ls : List Link) :
    nextPage? (header ls) = (ls.find? isNext).map fun l => String.ofList l.target := by
  rw [nextPage?, header, String.toList_ofList]
  cases ls with
  | nil => rfl
  | cons l ls =>
      have hmark : ∀ piece ∈ (l :: ls).map chars, ',' ∉ piece := by
        intro piece hpiece hmem
        obtain ⟨k, -, rfl⟩ := List.mem_map.1 hpiece
        rcases mem_chars hmem with hc | hc
        · exact absurd hc (by decide)
        · exact absurd hc (by decide)
      rw [Text.split_intercalate hmark (List.cons_ne_nil _ _), findSome?_chars, Option.map_map]
      rfl

theorem isPlainHeader_header {ls : List Link} : Http.isPlainHeader (header ls) = true := by
  refine List.all_eq_true.2 fun c hc => ?_
  rw [header, String.toList_ofList] at hc
  have hlink : c = ',' ∨ c = ';' ∨ isLinkChar c = true := by
    obtain hmark | ⟨piece, hpiece, hc⟩ := Text.mem_of_mem_intercalate hc
    · exact .inl hmark
    · obtain ⟨l, -, rfl⟩ := List.mem_map.1 hpiece
      exact .inr (mem_chars hc)
  rcases hlink with rfl | rfl | hlink
  · decide
  · decide
  · simp only [isLinkChar, Bool.and_eq_true, decide_eq_true_eq] at hlink
    simp [hlink.1.1]

theorem nextOf?_header {ls : List Link} {r : Http.Response} {name : String}
    (h : (r.headers.find? fun h => h.1.toLower == "link") = some (name, header ls)) :
    Source.nextOf? r = nextPage? (header ls) := by
  obtain ⟨before, after, hends, hbefore, hafter⟩ :=
    Text.exists_strip (fun c => c == ' ' || c == '\t') (header ls).toList
  have hblank : ∀ c : Char, (c == ' ' || c == '\t') = true → Text.isBlank c = true := by
    intro c hc
    rcases Bool.or_eq_true_iff.1 hc with hc | hc
    · rw [beq_iff_eq.1 hc]
      decide
    · rw [beq_iff_eq.1 hc]
      decide
  have hplain : Http.isPlainHeader
      (String.ofList (Text.strip (fun c => c == ' ' || c == '\t') (header ls).toList)) = true := by
    refine List.all_eq_true.2 fun c hc => ?_
    rw [String.toList_ofList] at hc
    have hmem : c ∈ (header ls).toList := by
      rw [hends]
      exact List.mem_append_left _ (List.mem_append_right _ hc)
    exact List.all_eq_true.1 isPlainHeader_header c hmem
  have hsame := nextPage?_between_blanks (fun c hc => hblank c (hbefore c hc))
    (fun c hc => hblank c (hafter c hc))
    (Text.strip (fun c => c == ' ' || c == '\t') (header ls).toList)
  rw [← hends, String.ofList_toList] at hsame
  rw [Source.nextOf?, Http.Response.header?, h, Option.map_some, Option.filter_some, if_pos hplain,
    Option.bind_some, hsame]

/-- Of the entries of a header the first one that is said to be next gives the next page; without
such an entry there is none. -/
theorem first_next_link_followed (ls : List Link) :
    (∀ target, nextPage? (header ls) = some target ↔
      ∃ before l after, ls = before ++ l :: after ∧ (∀ k ∈ before, k.isNext = false) ∧
        l.isNext = true ∧ target = String.ofList l.target) ∧
    (nextPage? (header ls) = none ↔ ∀ l ∈ ls, l.isNext = false) ∧
    ∀ (r : Http.Response) (name : String),
      (r.headers.find? fun h => h.1.toLower == "link") = some (name, header ls) →
        Source.nextOf? r = nextPage? (header ls) := by
  refine ⟨fun target => ?_, ?_, fun r name h => nextOf?_header h⟩
  · rw [nextPage?_header, Option.map_eq_some_iff]
    constructor
    · rintro ⟨l, hl, rfl⟩
      obtain ⟨hnext, before, after, rfl, hbefore⟩ := List.find?_eq_some_iff_append.1 hl
      exact ⟨before, l, after, rfl, fun k hk => by simpa using hbefore k hk, hnext, rfl⟩
    · rintro ⟨before, l, after, rfl, hbefore, hnext, rfl⟩
      refine ⟨l, List.find?_eq_some_iff_append.2 ⟨hnext, before, after, rfl, ?_⟩, rfl⟩
      exact fun k hk => by simp [hbefore k hk]
  · rw [nextPage?_header, Option.map_eq_none_iff, List.find?_eq_none]
    exact forall₂_congr fun l _ => iff_of_eq (Bool.not_eq_true _)

def threePages : List Link :=
  [⟨0, "https://api/x?page=1".toList, 0, by decide,
      [⟨1, "rel=\"prev\"".toList, 0, by decide, by decide, by decide⟩]⟩,
    ⟨1, "https://api/x?page=3".toList, 1, by decide,
      [⟨0, "title=a b".toList, 2, by decide, by decide, by decide⟩,
        ⟨1, "rel=next".toList, 1, by decide, by decide, by decide⟩]⟩,
    ⟨0, "https://api/x?page=9".toList, 0, by decide,
      [⟨1, "rel=\"last\"".toList, 0, by decide, by decide, by decide⟩]⟩]

theorem first_next_link_followed_past_previous :
    Source.nextOf? ⟨200, [("Link", header threePages)], none⟩ = some "https://api/x?page=3" := by
  obtain ⟨hsome, -, hread⟩ := first_next_link_followed threePages
  have hlink : ([("Link", header threePages)].find? fun h => h.1.toLower == "link") =
      some ("Link", header threePages) := by
    rw [List.find?_cons_of_pos (by decide +kernel)]
  rw [hread ⟨200, [("Link", header threePages)], none⟩ "Link" hlink]
  exact (hsome _).2 ⟨[threePages[0]], threePages[1], [threePages[2]], rfl, by decide, by decide,
    by decide⟩

end Link

end IndexRefresh.GitHub
