import Mathlib.Data.List.Basic
import Mathlib.Data.List.TakeWhile
import IndexRefresh.Text.Blank
import IndexRefresh.Text.Cut

namespace IndexRefresh.Text

section Cutting

variable {c : Char} {mark before after cs rest : List Char}

theorem split_of_not_mem (h : c ∉ cs) : split c cs = [cs] := by
  rw [split_eq_splitOn, List.splitOn_eq_singleton h]

theorem mem_of_mem_split {d : Char} {piece : List Char} (h : piece ∈ split c cs) (hd : d ∈ piece) :
    d ∈ cs := by
  induction cs generalizing piece with
  | nil =>
      rw [split_nil, List.mem_singleton] at h
      exact h ▸ hd
  | cons e cs ih =>
      by_cases heq : e = c
      · rw [heq, split_cons_self] at h
        rcases List.mem_cons.1 h with rfl | h
        · cases hd
        · exact List.mem_cons_of_mem e (ih h hd)
      · obtain ⟨first, pieces, hs⟩ := List.exists_cons_of_ne_nil (split_ne_nil c cs)
        rw [split_cons_of_ne heq hs] at h
        rcases List.mem_cons.1 h with rfl | h
        · rcases List.mem_cons.1 hd with rfl | hd
          · exact List.mem_cons_self ..
          · exact List.mem_cons_of_mem e (ih (hs ▸ List.mem_cons_self ..) hd)
        · exact List.mem_cons_of_mem e (ih (hs ▸ List.mem_cons_of_mem _ h) hd)

theorem split_intercalate {pieces : List (List Char)} (h : ∀ piece ∈ pieces, c ∉ piece)
    (hne : pieces ≠ []) : split c ([c].intercalate pieces) = pieces := by
  rw [split_eq_splitOn, List.splitOn_intercalate c h hne]

theorem mem_of_mem_intercalate {d : Char} {pieces : List (List Char)}
    (h : d ∈ [c].intercalate pieces) : d = c ∨ ∃ piece ∈ pieces, d ∈ piece := by
  induction pieces with
  | nil => cases h
  | cons piece pieces ih =>
      cases pieces with
      | nil =>
          rw [List.intercalate_singleton] at h
          exact .inr ⟨piece, List.mem_cons_self .., h⟩
      | cons next pieces =>
          rw [List.intercalate_cons_cons, List.mem_append, List.mem_append] at h
          rcases h with (h | h) | h
          · exact .inr ⟨piece, List.mem_cons_self .., h⟩
          · exact .inl (List.mem_singleton.1 h)
          · obtain heq | ⟨other, hother, hd⟩ := ih h
            · exact .inl heq
            · exact .inr ⟨other, List.mem_cons_of_mem _ hother, hd⟩

theorem split_append_of_not_mem (h : c ∉ before) (cs : List Char) :
    ∃ first pieces, split c cs = first :: pieces ∧
      split c (before ++ cs) = (before ++ first) :: pieces := by
  obtain ⟨first, pieces, hs⟩ := List.exists_cons_of_ne_nil (split_ne_nil c cs)
  refine ⟨first, pieces, hs, ?_⟩
  induction before with
  | nil => exact hs
  | cons d ds ih =>
      have hd : d ≠ c := fun heq => h (heq ▸ List.mem_cons_self ..)
      exact split_cons_of_ne hd (ih fun hmem => h (List.mem_cons_of_mem d hmem))

theorem cutAt_append (h : c ∉ before) (after : List Char) :
    cutAt c (before ++ c :: after) = some (before, after) := by
  have hkept : ∀ d ∈ before, (d != c) = true := by
    intro d hd
    rw [bne_iff_ne]
    rintro rfl
    exact h hd
  have hdrop : (before ++ c :: after).dropWhile (· != c) = c :: after := by
    rw [List.dropWhile_append_of_pos hkept]
    simp
  have htake : (before ++ c :: after).takeWhile (· != c) = before := by
    rw [List.takeWhile_append_of_pos hkept]
    simp
  rw [cutAt, hdrop, htake]

theorem eq_of_cutAt (h : cutAt c cs = some (before, after)) :
    cs = before ++ c :: after ∧ c ∉ before := by
  have hkept : c ∉ cs.takeWhile (· != c) := by
    intro hmem
    have hne := List.mem_takeWhile_imp hmem
    simp at hne
  have hcs := List.takeWhile_append_dropWhile (p := (· != c)) (l := cs)
  unfold cutAt at h
  split at h
  · cases h
  · next d rest hdrop =>
      cases h
      have hd : d = c := by
        have hhead := List.head?_dropWhile_not (· != c) cs
        rw [hdrop] at hhead
        simpa using hhead
      rw [hdrop, hd] at hcs
      exact ⟨hcs.symm, hkept⟩

theorem cutAt_eq_none (h : c ∉ cs) : cutAt c cs = none := by
  cases hcut : cutAt c cs with
  | none => rfl
  | some parts =>
      obtain ⟨before, after⟩ := parts
      rw [(eq_of_cutAt hcut).1] at h
      exact absurd (List.mem_append_right _ (List.mem_cons_self ..)) h

theorem cutAt_append_of_not_mem (h : c ∉ rest) (cs : List Char) :
    cutAt c (cs ++ rest) = (cutAt c cs).map fun p => (p.1, p.2 ++ rest) := by
  cases hcut : cutAt c cs with
  | some parts =>
      obtain ⟨before, after⟩ := parts
      obtain ⟨rfl, hbefore⟩ := eq_of_cutAt hcut
      rw [List.append_assoc, List.cons_append, cutAt_append hbefore]
      rfl
  | none =>
      have hcs : c ∉ cs := by
        intro hmem
        obtain ⟨before, after, rfl, hbefore⟩ := List.eq_append_cons_of_mem hmem
        rw [cutAt_append hbefore] at hcut
        cases hcut
      exact cutAt_eq_none fun hmem => (List.mem_append.1 hmem).elim hcs h

theorem cut_append (h : c ∉ before) (mark rest : List Char) :
    cut (c :: mark) (before ++ rest) =
      (cut (c :: mark) rest).map fun p => (before ++ p.1, p.2) := by
  induction before with
  | nil => simp
  | cons d ds ih =>
      have hd : (c == d) = false := by
        rw [beq_eq_false_iff_ne]
        rintro rfl
        exact h (List.mem_cons_self ..)
      have hds : c ∉ ds := fun hmem => h (List.mem_cons_of_mem d hmem)
      have hmark : (c :: mark).isPrefixOf? (d :: (ds ++ rest)) = none := by
        simp [List.isPrefixOf?, hd]
      rw [List.cons_append, cut, hmark]
      simp only [ih hds, Option.map_map]
      rfl

theorem cut_of_not_mem (h : c ∉ cs) (mark : List Char) : cut (c :: mark) cs = none := by
  have hcut := cut_append h mark []
  rw [List.append_nil] at hcut
  exact hcut

theorem eq_of_cut (h : cut mark cs = some (before, after)) : cs = before ++ mark ++ after := by
  induction cs generalizing before with
  | nil =>
      unfold cut at h
      split at h
      · next rest hmark =>
          cases h
          exact (List.isPrefixOf?_eq_some_iff_append_eq.1 hmark).symm
      · cases h
  | cons d ds ih =>
      unfold cut at h
      split at h
      · next rest hmark =>
          cases h
          exact (List.isPrefixOf?_eq_some_iff_append_eq.1 hmark).symm
      · obtain ⟨p, hp, heq⟩ := Option.map_eq_some_iff.1 h
        cases heq
        rw [ih hp]
        rfl

theorem withoutEnd?_eq_some_iff {ending : List Char} :
    withoutEnd? ending cs = some rest ↔ rest ++ ending = cs := by
  unfold withoutEnd?
  rw [Option.map_eq_some_iff]
  constructor
  · rintro ⟨back, hback, rfl⟩
    have hcs := congrArg List.reverse (List.isPrefixOf?_eq_some_iff_append_eq.1 hback)
    simpa using hcs
  · rintro rfl
    exact ⟨rest.reverse, List.isPrefixOf?_eq_some_iff_append_eq.2 (by simp), by simp⟩

theorem withoutEnd_append (cs ending : List Char) : withoutEnd ending (cs ++ ending) = cs := by
  rw [withoutEnd, withoutEnd?_eq_some_iff.2 rfl]
  rfl

theorem withoutEnd_of_not_suffix {ending : List Char} (h : ¬ending <:+ cs) :
    withoutEnd ending cs = cs := by
  cases hcut : withoutEnd? ending cs with
  | none => rw [withoutEnd, hcut, Option.getD_none]
  | some rest => exact absurd ⟨rest, withoutEnd?_eq_some_iff.1 hcut⟩ h

theorem withoutEnd_prefix (ending cs : List Char) : withoutEnd ending cs <+: cs := by
  cases hcut : withoutEnd? ending cs with
  | none =>
      rw [withoutEnd, hcut]
      exact List.prefix_rfl
  | some rest =>
      rw [withoutEnd, hcut]
      exact ⟨ending, withoutEnd?_eq_some_iff.1 hcut⟩

end Cutting

section Blanks

variable {p : Char → Bool} {c : Char}

theorem dropWhile_append_cons (h : p c = false) (cs ds : List Char) :
    (cs ++ c :: ds).dropWhile p = cs.dropWhile p ++ c :: ds := by
  induction cs with
  | nil => simp [h]
  | cons d cs ih =>
      cases hd : p d with
      | true => simpa [hd] using ih
      | false => simp [hd]

theorem takeWhile_append_cons (h : p c = false) (cs ds : List Char) :
    (cs ++ c :: ds).takeWhile p = cs.takeWhile p := by
  induction cs with
  | nil => simp [h]
  | cons d cs ih =>
      cases hd : p d with
      | true => simpa [hd] using ih
      | false => simp [hd]

theorem dropEnd_of_all_false {cs : List Char} (h : ∀ c ∈ cs, p c = false) : dropEnd p cs = cs := by
  have hdrop : cs.reverse.dropWhile p = cs.reverse :=
    List.dropWhile_eq_self_iff.2 fun hlt => by simp [h]
  rw [dropEnd, hdrop, List.reverse_reverse]

theorem dropEnd_append_cons (h : p c = false) (cs ds : List Char) :
    dropEnd p (cs ++ c :: ds) = cs ++ c :: dropEnd p ds := by
  unfold dropEnd
  rw [List.reverse_append, List.reverse_cons, List.append_assoc, List.dropWhile_append]
  split
  · next hempty =>
      rw [List.isEmpty_iff.1 hempty, List.singleton_append,
        List.dropWhile_cons_of_neg (by simp [h])]
      simp
  · simp

variable {before after cs : List Char}

theorem trim_around (hbefore : ∀ c ∈ before, isBlank c = true)
    (hafter : ∀ c ∈ after, isBlank c = true) (hcs : cs ≠ [])
    (hfirst : ∀ c ∈ cs.head?, isBlank c = false) (hlast : ∀ c ∈ cs.getLast?, isBlank c = false)
    (rest : List Char) :
    trim (before ++ (cs ++ rest) ++ after) = cs ++ dropEnd isBlank rest := by
  have hstart : dropStart isBlank (before ++ (cs ++ rest) ++ after) = cs ++ rest ++ after := by
    rw [List.append_assoc, dropStart_append_of_all hbefore]
    obtain ⟨c, ds, rfl⟩ := List.exists_cons_of_ne_nil hcs
    simp [dropStart, hfirst c rfl]
  have hend : dropEnd isBlank (cs ++ rest) = cs ++ dropEnd isBlank rest := by
    obtain ⟨ds, d, rfl⟩ := (List.eq_nil_or_concat' cs).resolve_left hcs
    have hd : isBlank d = false := hlast d (by simp)
    simp only [List.append_assoc, List.singleton_append]
    exact dropEnd_append_cons hd ds rest
  rw [trim, strip, hstart, dropEnd_append_of_all hafter, hend]

theorem trim_of_ends (hbefore : ∀ c ∈ before, isBlank c = true)
    (hafter : ∀ c ∈ after, isBlank c = true) (hcs : cs ≠ [])
    (hfirst : ∀ c ∈ cs.head?, isBlank c = false)
    (hlast : ∀ c ∈ cs.getLast?, isBlank c = false) : trim (before ++ cs ++ after) = cs := by
  have htrim := trim_around hbefore hafter hcs hfirst hlast []
  rw [List.append_nil] at htrim
  rw [htrim]
  exact List.append_nil cs

theorem trim_append_blanks (h : ∀ d ∈ after, isBlank d = true) (cs : List Char) :
    trim (cs ++ after) = trim cs := by
  unfold trim strip dropStart
  rw [List.dropWhile_append]
  split
  · next hempty =>
      have hafter : after.dropWhile isBlank = [] := List.dropWhile_eq_nil_iff.2 h
      rw [hafter, List.isEmpty_iff.1 hempty]
  · exact dropEnd_append_of_all h

theorem trim_blanks_append (h : ∀ d ∈ before, isBlank d = true) (cs : List Char) :
    trim (before ++ cs) = trim cs := by
  rw [trim, strip, dropStart_append_of_all h]
  rfl

theorem exists_strip (p : Char → Bool) (cs : List Char) :
    ∃ before after, cs = before ++ strip p cs ++ after ∧ (∀ d ∈ before, p d = true) ∧
      ∀ d ∈ after, p d = true := by
  refine ⟨cs.takeWhile p, ((cs.dropWhile p).reverse.takeWhile p).reverse, ?_, ?_, ?_⟩
  · have hend : dropEnd p (cs.dropWhile p) ++ ((cs.dropWhile p).reverse.takeWhile p).reverse =
        cs.dropWhile p := by
      rw [dropEnd, ← List.reverse_append, List.takeWhile_append_dropWhile, List.reverse_reverse]
    rw [strip, dropStart, List.append_assoc, hend, List.takeWhile_append_dropWhile]
  · exact fun d hd => List.mem_takeWhile_imp hd
  · exact fun d hd => List.mem_takeWhile_imp (List.mem_reverse.1 hd)

end Blanks

end IndexRefresh.Text
