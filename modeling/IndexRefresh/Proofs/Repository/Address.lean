import IndexRefresh.Repository.Address
import IndexRefresh.Proofs.Text.Cut

namespace IndexRefresh.Address

def isPart (cs : List Char) : Bool :=
  cs.all fun c => c != '/' && c != ':' && !Text.isBlank c

def gitEnding : List Char :=
  ['.', 'g', 'i', 't']

def schemes : List (List Char) :=
  ["https://".toList, "http://".toList, "ssh://git@".toList]

def opens : List Char → Bool
  | [] => true
  | c :: _ => c == '/'

structure Nameable (owner repo : List Char) : Prop where
  owner_part : isPart owner = true
  repo_part : isPart repo = true
  owner_ne_nil : owner ≠ []
  repo_ne_nil : repo ≠ []
  repo_bare : ¬gitEnding <:+ repo

/-- The ways in which a clone address spells the repository of an owner. -/
inductive Spelling (owner repo : List Char) : List Char → Prop where
  | hosted {scheme host ending further : List Char} (hscheme : scheme ∈ schemes)
      (hhost : isPart host = true) (hending : ending ∈ [[], gitEnding])
      (hfurther : opens further = true) :
      Spelling owner repo
        (scheme ++ host ++ '/' :: (owner ++ '/' :: (repo ++ ending)) ++ further)
  | remote {host ending : List Char} (hhost : isPart host = true)
      (hmarked : '@' ∈ host ∨ '.' ∈ host) (hending : ending ∈ [[], gitEnding]) (n : Nat) :
      Spelling owner repo
        (host ++ ':' :: (owner ++ '/' :: (repo ++ ending)) ++ List.replicate n '/')

variable {owner repo piece host path further cs : List Char}

section Parts

theorem slash_not_mem_of_isPart (h : isPart cs = true) : '/' ∉ cs := by
  intro hmem
  have hc := List.all_eq_true.1 h '/' hmem
  simp at hc

theorem colon_not_mem_of_isPart (h : isPart cs = true) : ':' ∉ cs := by
  intro hmem
  have hc := List.all_eq_true.1 h ':' hmem
  simp at hc

theorem isBlank_of_isPart (h : isPart cs = true) : ∀ c ∈ cs, Text.isBlank c = false := by
  intro c hmem
  have hc := List.all_eq_true.1 h c hmem
  simp only [Bool.and_eq_true, Bool.not_eq_true'] at hc
  exact hc.2

theorem isPart_append {ds : List Char} (hcs : isPart cs = true) (hds : isPart ds = true) :
    isPart (cs ++ ds) = true := by
  rw [isPart, List.all_append, Bool.and_eq_true]
  exact ⟨hcs, hds⟩

theorem isPart_ending {ending : List Char} (h : ending ∈ [[], gitEnding]) :
    isPart ending = true := by
  rcases List.mem_pair.1 h with rfl | rfl <;> decide

theorem isBlank_scheme {scheme : List Char} (h : scheme ∈ schemes) :
    ∀ c ∈ scheme, Text.isBlank c = false := by
  have hall : (schemes.all fun scheme => scheme.all fun c => !Text.isBlank c) = true := by decide
  intro c hc
  have hscheme := List.all_eq_true.1 hall scheme h
  simpa using List.all_eq_true.1 hscheme c hc

theorem exists_of_mem_schemes {scheme : List Char} (h : scheme ∈ schemes) :
    ∃ name user, scheme = name ++ "://".toList ++ user ∧ ':' ∉ name ∧ '/' ∉ user := by
  simp only [schemes, List.mem_cons, List.not_mem_nil, or_false] at h
  rcases h with rfl | rfl | rfl
  · exact ⟨"https".toList, [], by decide⟩
  · exact ⟨"http".toList, [], by decide⟩
  · exact ⟨"ssh".toList, "git@".toList, by decide⟩

end Parts

section Paths

theorem split_opening (hpiece : '/' ∉ piece) (hfurther : opens further = true) :
    ∃ pieces, Text.split '/' (piece ++ further) = piece :: pieces := by
  cases further with
  | nil =>
      rw [List.append_nil, Text.split_of_not_mem hpiece]
      exact ⟨[], rfl⟩
  | cons c cs =>
      have hc : c = '/' := eq_of_beq hfurther
      rw [hc, Text.split_append_cons, Text.split_of_not_mem hpiece]
      exact ⟨_, rfl⟩

theorem ofPath?_append (howner : '/' ∉ owner) (howner' : owner ≠ []) (hpiece : '/' ∉ piece)
    (hfurther : opens further = true) (hrepo : Text.withoutEnd gitEnding piece = repo)
    (hrepo' : repo ≠ []) :
    ofPath? (owner ++ '/' :: piece ++ further) =
      some ⟨String.ofList owner, String.ofList repo⟩ := by
  have hpiece' : piece ≠ [] := by
    rintro rfl
    exact hrepo' hrepo.symm
  obtain ⟨pieces, hpieces⟩ := split_opening hpiece hfurther
  have hsplit : Text.split '/' (owner ++ '/' :: piece ++ further) = owner :: piece :: pieces := by
    rw [List.append_assoc, List.cons_append, Text.split_append_cons,
      Text.split_of_not_mem howner, hpieces]
    rfl
  have hsegments : (Text.split '/' (owner ++ '/' :: piece ++ further)).filter
      (fun segment => !segment.isEmpty) =
        owner :: piece :: pieces.filter fun segment => !segment.isEmpty := by
    rw [hsplit]
    simp [howner', hpiece']
  have hempty : repo.isEmpty = false := by simp [hrepo']
  rw [gitEnding] at hrepo
  rw [ofPath?, hsegments]
  simp only [hrepo, hempty]
  rfl

theorem ofList_ne_empty (h : cs ≠ []) : String.ofList cs ≠ "" :=
  fun hempty => h (String.ofList_eq_empty_iff.1 hempty)

theorem parts_of_ofPath? {a : Address} (h : ofPath? path = some a) :
    a.owner ≠ "" ∧ a.repo ≠ "" ∧ '/' ∉ a.owner.toList ∧ '/' ∉ a.repo.toList := by
  unfold ofPath? at h
  split at h
  · next owner piece pieces hsegments =>
      have hsegment : ∀ cs ∈ owner :: piece :: pieces, '/' ∉ cs ∧ cs ≠ [] := by
        intro cs hcs
        rw [← hsegments, List.mem_filter] at hcs
        exact ⟨Text.not_mem_of_mem_split hcs.1, by simpa using hcs.2⟩
      obtain ⟨howner, howner'⟩ := hsegment owner (by simp)
      obtain ⟨hpiece, -⟩ := hsegment piece (by simp)
      dsimp only at h
      split at h
      · cases h
      · next hfull =>
          cases h
          have hrepo' : Text.withoutEnd ['.', 'g', 'i', 't'] piece ≠ [] :=
            fun hempty => hfull (List.isEmpty_iff.2 hempty)
          rw [String.toList_ofList, String.toList_ofList]
          refine ⟨ofList_ne_empty howner', ofList_ne_empty hrepo', howner, ?_⟩
          exact fun hmem => hpiece ((Text.withoutEnd_prefix ..).subset hmem)
  · cases h

theorem path?_of_scheme {name : List Char} (hname : ':' ∉ name) (hhost : '/' ∉ host)
    (path : List Char) :
    path? (name ++ "://".toList ++ host ++ '/' :: path) = some path := by
  have hcut : Text.cut [':', '/', '/'] (name ++ ("://".toList ++ (host ++ '/' :: path))) =
      some (name, host ++ '/' :: path) := by
    rw [Text.cut_append hname]
    simp [Text.cut, List.isPrefixOf?]
  simp only [List.append_assoc] at hcut ⊢
  rw [path?, hcut]
  simp only [Text.cutAt_append hhost]
  rfl

theorem path?_of_host (hhost : ':' ∉ host) (hmarked : '@' ∈ host ∨ '.' ∈ host)
    (hpath : ':' ∉ path) (hstart : path.head? ≠ some '/') :
    path? (host ++ ':' :: path) = some path := by
  have hcut : Text.cut [':', '/', '/'] (host ++ ':' :: path) = none := by
    have hmark : [':', '/', '/'].isPrefixOf? (':' :: path) = none := by
      cases path with
      | nil => rfl
      | cons c cs =>
          have hc : ('/' == c) = false := by
            rw [beq_eq_false_iff_ne]
            rintro rfl
            exact hstart rfl
          simp [List.isPrefixOf?, hc]
    rw [Text.cut_append hhost, Text.cut, hmark]
    simp only [Text.cut_of_not_mem hpath]
    rfl
  have hcontains : (host.contains '@' || host.contains '.') = true := by
    simpa using hmarked
  rw [path?, hcut]
  simp only [Text.cutAt_append hhost, hcontains]
  rfl

end Paths

section Spellings

theorem ofPath?_of_nameable (h : Nameable owner repo) {ending : List Char}
    (hending : ending ∈ [[], gitEnding]) (hfurther : opens further = true) :
    ofPath? (owner ++ '/' :: (repo ++ ending) ++ further) =
      some ⟨String.ofList owner, String.ofList repo⟩ := by
  have hpart := isPart_append h.repo_part (isPart_ending hending)
  have hrepo : Text.withoutEnd gitEnding (repo ++ ending) = repo := by
    rcases List.mem_pair.1 hending with rfl | rfl
    · rw [List.append_nil, Text.withoutEnd_of_not_suffix h.repo_bare]
    · exact Text.withoutEnd_append repo gitEnding
  exact ofPath?_append (slash_not_mem_of_isPart h.owner_part) h.owner_ne_nil
    (slash_not_mem_of_isPart hpart) hfurther hrepo h.repo_ne_nil

theorem path?_hosted {scheme : List Char} (hscheme : scheme ∈ schemes) (hhost : isPart host = true)
    (path : List Char) : path? (scheme ++ host ++ '/' :: path) = some path := by
  obtain ⟨name, user, rfl, hname, huser⟩ := exists_of_mem_schemes hscheme
  have hslash : '/' ∉ user ++ host := by simp [huser, slash_not_mem_of_isPart hhost]
  have hpath := path?_of_scheme hname hslash path
  rw [← List.append_assoc] at hpath
  exact hpath

theorem path?_remote (hhost : isPart host = true) (hmarked : '@' ∈ host ∨ '.' ∈ host)
    (howner : isPart owner = true) (howner' : owner ≠ []) (hpiece : isPart piece = true) (n : Nat) :
    path? (host ++ ':' :: (owner ++ '/' :: piece ++ List.replicate n '/')) =
      some (owner ++ '/' :: piece ++ List.replicate n '/') := by
  have hcolon : ':' ∉ owner ++ '/' :: piece ++ List.replicate n '/' := by
    simp [colon_not_mem_of_isPart howner, colon_not_mem_of_isPart hpiece]
  have hstart : (owner ++ '/' :: piece ++ List.replicate n '/').head? ≠ some '/' := by
    obtain ⟨c, cs, rfl⟩ := List.exists_cons_of_ne_nil howner'
    rintro ⟨⟩
    exact slash_not_mem_of_isPart howner (List.mem_cons_self ..)
  exact path?_of_host (colon_not_mem_of_isPart hhost) hmarked hcolon hstart

theorem Spelling.read {url : List Char} (h : Nameable owner repo) (hurl : Spelling owner repo url) :
    (path? url).bind ofPath? = some ⟨String.ofList owner, String.ofList repo⟩ := by
  cases hurl with
  | @hosted scheme host ending further hscheme hhost hending hfurther =>
      rw [List.append_assoc, List.cons_append, path?_hosted hscheme hhost, Option.bind_some]
      exact ofPath?_of_nameable h hending hfurther
  | @remote host ending hhost hmarked hending n =>
      have hpiece := isPart_append h.repo_part (isPart_ending hending)
      have hopens : opens (List.replicate n '/') = true := by cases n <;> rfl
      rw [List.append_assoc, List.cons_append,
        path?_remote hhost hmarked h.owner_part h.owner_ne_nil hpiece, Option.bind_some]
      exact ofPath?_of_nameable h hending hopens

theorem opens_dropEnd (h : opens further = true) :
    opens (Text.dropEnd Text.isBlank further) = true := by
  cases further with
  | nil => rfl
  | cons c cs =>
      have hc : c = '/' := eq_of_beq h
      have hdrop : Text.dropEnd Text.isBlank ('/' :: cs) = '/' :: Text.dropEnd Text.isBlank cs :=
        Text.dropEnd_append_cons (by decide) [] cs
      rw [hc, hdrop]
      rfl

theorem Spelling.trimmed {url before after : List Char} (h : Nameable owner repo)
    (hurl : Spelling owner repo url) (hbefore : ∀ c ∈ before, Text.isBlank c = true)
    (hafter : ∀ c ∈ after, Text.isBlank c = true) :
    Spelling owner repo (Text.trim (before ++ url ++ after)) := by
  have htail : ∀ {ending}, ending ∈ [[], gitEnding] →
      ∀ c ∈ owner ++ '/' :: (repo ++ ending), Text.isBlank c = false := by
    intro ending hending
    have hpiece := isPart_append h.repo_part (isPart_ending hending)
    rw [List.forall_mem_append, List.forall_mem_cons]
    exact ⟨isBlank_of_isPart h.owner_part, by decide, isBlank_of_isPart hpiece⟩
  cases hurl with
  | @hosted scheme host ending further hscheme hhost hending hfurther =>
      have hsolid : ∀ c ∈ scheme ++ host ++ '/' :: (owner ++ '/' :: (repo ++ ending)),
          Text.isBlank c = false := by
        rw [List.forall_mem_append, List.forall_mem_append, List.forall_mem_cons]
        exact ⟨⟨isBlank_scheme hscheme, isBlank_of_isPart hhost⟩, by decide, htail hending⟩
      have htrim := Text.trim_around hbefore hafter (by simp)
        (fun c hc => hsolid c (List.mem_of_mem_head? hc))
        (fun c hc => hsolid c (List.mem_of_getLast? hc)) further
      rw [htrim]
      exact .hosted hscheme hhost hending (opens_dropEnd hfurther)
  | @remote host ending hhost hmarked hending n =>
      have hslashes : ∀ c ∈ List.replicate n '/', Text.isBlank c = false := by
        intro c hc
        rw [List.eq_of_mem_replicate hc]
        decide
      have hsolid : ∀ c ∈ host ++ ':' :: (owner ++ '/' :: (repo ++ ending)) ++
          List.replicate n '/', Text.isBlank c = false := by
        rw [List.forall_mem_append, List.forall_mem_append, List.forall_mem_cons]
        exact ⟨⟨isBlank_of_isPart hhost, by decide, htail hending⟩, hslashes⟩
      have htrim := Text.trim_of_ends hbefore hafter (by simp)
        (fun c hc => hsolid c (List.mem_of_mem_head? hc))
        (fun c hc => hsolid c (List.mem_of_getLast? hc))
      rw [htrim]
      exact .remote hhost hmarked hending n

theorem Spelling.ofUrl? {url before after : List Char} (h : Nameable owner repo)
    (hurl : Spelling owner repo url) (hbefore : ∀ c ∈ before, Text.isBlank c = true)
    (hafter : ∀ c ∈ after, Text.isBlank c = true) :
    Address.ofUrl? (String.ofList (before ++ url ++ after)) =
      some ⟨String.ofList owner, String.ofList repo⟩ := by
  rw [Address.ofUrl?, String.toList_ofList]
  exact (hurl.trimmed h hbefore hafter).read h

end Spellings

section Printing

def cloneUrl (host : String) (a : Address) : String :=
  "https://" ++ host ++ "/" ++ a.owner ++ "/" ++ a.repo ++ ".git"

theorem toList_cloneUrl (host : String) (a : Address) :
    (cloneUrl host a).toList = "https".toList ++ "://".toList ++ host.toList ++
      '/' :: (a.owner.toList ++ '/' :: (a.repo.toList ++ gitEnding)) := by
  simp [cloneUrl, gitEnding]

theorem trim_cloneUrl (host : String) (a : Address) :
    Text.trim (cloneUrl host a).toList = (cloneUrl host a).toList := by
  have hfirst : ∀ c ∈ (cloneUrl host a).toList.head?, Text.isBlank c = false := by
    intro c hc
    have hhead : (cloneUrl host a).toList.head? = some 'h' := by
      rw [toList_cloneUrl]
      rfl
    rw [hhead] at hc
    cases hc
    decide
  have hlast : ∀ c ∈ (cloneUrl host a).toList.getLast?, Text.isBlank c = false := by
    intro c hc
    have hend : (cloneUrl host a).toList.getLast? = some 't' := by
      rw [cloneUrl, String.toList_append, List.getLast?_append]
      rfl
    rw [hend] at hc
    cases hc
    decide
  have hne : (cloneUrl host a).toList ≠ [] := by simp [toList_cloneUrl]
  have htrim := Text.trim_of_ends (List.forall_mem_nil _) (List.forall_mem_nil _) hne hfirst hlast
  rw [List.nil_append, List.append_nil] at htrim
  exact htrim

theorem ofUrl?_cloneUrl {a : Address} (howner : '/' ∉ a.owner.toList) (howner' : a.owner ≠ "")
    (hrepo : '/' ∉ a.repo.toList) (hrepo' : a.repo ≠ "") {host : String}
    (hhost : '/' ∉ host.toList) : ofUrl? (cloneUrl host a) = some a := by
  have hpiece : '/' ∉ a.repo.toList ++ gitEnding := by
    simp [hrepo, gitEnding]
  have hread := ofPath?_append howner (by simpa using howner') hpiece (rfl : opens [] = true)
    (Text.withoutEnd_append ..) (by simpa using hrepo')
  rw [ofUrl?, trim_cloneUrl, toList_cloneUrl, path?_of_scheme (by decide) hhost, Option.bind_some]
  simpa using hread

end Printing

theorem exists_marked_host {url : List Char} (hscheme : ¬"://".toList <:+: url)
    (hpath : path? url = some path) :
    ∃ host, url = host ++ ':' :: path ∧ ':' ∉ host ∧ ('@' ∈ host ∨ '.' ∈ host) := by
  unfold path? at hpath
  split at hpath
  · next before rest hcut =>
      have hurl := Text.eq_of_cut hcut
      exact absurd ⟨before, rest, hurl.symm⟩ hscheme
  · split at hpath
    · next host path' hcut =>
        obtain ⟨hurl, hhost⟩ := Text.eq_of_cutAt hcut
        split at hpath
        · next hmarked =>
            cases hpath
            exact ⟨host, hurl, hhost, by simpa using hmarked⟩
        · cases hpath
    · cases hpath

/-- Every spelling of a clone address, blanks around it, reads as the owner and the repository it
spells; whatever reads at all reads as a repository whose own clone address reads the same; and what
names no scheme is read only after a host with a mark of one. -/
theorem reads_clone_addresses :
    (∀ {owner repo url before after : List Char}, Nameable owner repo → Spelling owner repo url →
      (∀ c ∈ before, Text.isBlank c = true) → (∀ c ∈ after, Text.isBlank c = true) →
        ofUrl? (String.ofList (before ++ url ++ after)) =
          some ⟨String.ofList owner, String.ofList repo⟩) ∧
    (∀ {url : String} {a : Address}, ofUrl? url = some a →
      a.owner ≠ "" ∧ a.repo ≠ "" ∧ '/' ∉ a.owner.toList ∧ '/' ∉ a.repo.toList ∧
        ∀ host : String, '/' ∉ host.toList → ofUrl? (cloneUrl host a) = some a) ∧
    ∀ {url : String}, ¬"://".toList <:+: Text.trim url.toList → ofUrl? url ≠ none →
      ∃ host path, Text.trim url.toList = host ++ ':' :: path ∧ ':' ∉ host ∧
        ('@' ∈ host ∨ '.' ∈ host) := by
  refine ⟨?_, ?_, ?_⟩
  · intro owner repo url before after h hurl hbefore hafter
    exact hurl.ofUrl? h hbefore hafter
  · intro url a hread
    obtain ⟨path, -, hpath⟩ := Option.bind_eq_some_iff.1 hread
    obtain ⟨howner', hrepo', howner, hrepo⟩ := parts_of_ofPath? hpath
    exact ⟨howner', hrepo', howner, hrepo, fun host hhost =>
      ofUrl?_cloneUrl howner howner' hrepo hrepo' hhost⟩
  · intro url hscheme hread
    obtain ⟨a, hread⟩ := Option.ne_none_iff_exists'.1 hread
    obtain ⟨path, hpath, -⟩ := Option.bind_eq_some_iff.1 hread
    obtain ⟨host, hurl, hhost, hmarked⟩ := exists_marked_host hscheme hpath
    exact ⟨host, path, hurl, hhost, hmarked⟩

theorem reads_clone_addresses_of_one_repository :
    ofUrl? " git@host:acme/api.git//\n" = some ⟨"acme", "api"⟩ ∧
      ofUrl? "\thttps://host/acme/api/tree/main: src " = some ⟨"acme", "api"⟩ ∧
      ofUrl? (cloneUrl "h" ⟨"acme", "api"⟩) = some ⟨"acme", "api"⟩ := by
  have hname : Nameable "acme".toList "api".toList := by
    constructor <;> decide
  have hparts : String.ofList "acme".toList = "acme" ∧ String.ofList "api".toList = "api" := by
    decide
  have hremote : Spelling "acme".toList "api".toList "git@host:acme/api.git//".toList :=
    .remote (by decide : isPart "git@host".toList = true) (by decide)
      (List.mem_cons_of_mem [] (List.mem_singleton_self gitEnding)) 2
  have hhosted : Spelling "acme".toList "api".toList
      "https://host/acme/api/tree/main: src".toList :=
    .hosted (List.mem_cons_self ..) (by decide : isPart "host".toList = true)
      (List.mem_cons_self ..) (by decide : opens "/tree/main: src".toList = true)
  have hread : ofUrl? " git@host:acme/api.git//\n" = some ⟨"acme", "api"⟩ := by
    have h := reads_clone_addresses.1 hname hremote
      (List.forall_mem_singleton.2 (by decide : Text.isBlank ' ' = true))
      (List.forall_mem_singleton.2 (by decide : Text.isBlank '\n' = true))
    have htext : String.ofList ([' '] ++ "git@host:acme/api.git//".toList ++ ['\n']) =
        " git@host:acme/api.git//\n" := by decide
    rw [htext, hparts.1, hparts.2] at h
    exact h
  have hread' : ofUrl? "\thttps://host/acme/api/tree/main: src " = some ⟨"acme", "api"⟩ := by
    have h := reads_clone_addresses.1 hname hhosted
      (List.forall_mem_singleton.2 (by decide : Text.isBlank '\t' = true))
      (List.forall_mem_singleton.2 (by decide : Text.isBlank ' ' = true))
    have htext : String.ofList (['\t'] ++ "https://host/acme/api/tree/main: src".toList ++
        [' ']) = "\thttps://host/acme/api/tree/main: src " := by decide
    rw [htext, hparts.1, hparts.2] at h
    exact h
  exact ⟨hread, hread', (reads_clone_addresses.2.1 hread).2.2.2.2 "h" (by decide)⟩

end IndexRefresh.Address
