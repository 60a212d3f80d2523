namespace IndexRefresh.Text

def cutAt (c : Char) (cs : List Char) : Option (List Char × List Char) :=
  match cs.dropWhile (· != c) with
  | [] => none
  | _ :: rest => some (cs.takeWhile (· != c), rest)

def cut (mark : List Char) (cs : List Char) : Option (List Char × List Char) :=
  match mark.isPrefixOf? cs with
  | some rest => some ([], rest)
  | none =>
      match cs with
      | [] => none
      | c :: cs => (cut mark cs).map fun p => (c :: p.1, p.2)

def split (c : Char) (cs : List Char) : List (List Char) :=
  cs.foldr
    (fun d pieces =>
      if d = c then [] :: pieces
      else
        match pieces with
        | [] => [[d]]
        | piece :: pieces => (d :: piece) :: pieces)
    [[]]

@[simp] theorem split_nil (c : Char) : split c [] = [[]] := rfl

theorem split_ne_nil (c : Char) (cs : List Char) : split c cs ≠ [] := by
  cases cs with
  | nil => simp
  | cons d ds =>
      simp only [split, List.foldr_cons]
      split
      · simp
      · split <;> simp

@[simp] theorem split_cons_self (c : Char) (cs : List Char) :
    split c (c :: cs) = [] :: split c cs := by
  simp [split]

theorem split_cons_of_ne {c d : Char} {cs piece : List Char} {pieces : List (List Char)}
    (hne : d ≠ c) (h : split c cs = piece :: pieces) :
    split c (d :: cs) = (d :: piece) :: pieces := by
  simp only [split] at h ⊢
  rw [List.foldr_cons, if_neg hne, h]

theorem split_append_cons (c : Char) (cs rest : List Char) :
    split c (cs ++ c :: rest) = split c cs ++ split c rest := by
  induction cs with
  | nil => rw [List.nil_append, split_cons_self, split_nil, List.singleton_append]
  | cons d ds ih =>
      by_cases heq : d = c
      · rw [heq, List.cons_append, split_cons_self, split_cons_self, ih, List.cons_append]
      · obtain ⟨piece, pieces, hs⟩ := List.exists_cons_of_ne_nil (split_ne_nil c ds)
        rw [hs, List.cons_append] at ih
        rw [List.cons_append, split_cons_of_ne heq ih, split_cons_of_ne heq hs, List.cons_append]

theorem split_eq_splitOn (c : Char) (cs : List Char) : split c cs = cs.splitOn c := by
  induction cs with
  | nil => rfl
  | cons d ds ih =>
      rw [List.splitOn_cons_eq_if_modifyHead, ← ih]
      by_cases heq : d = c
      · simp [heq]
      · obtain ⟨piece, pieces, hs⟩ := List.exists_cons_of_ne_nil (split_ne_nil c ds)
        rw [split_cons_of_ne heq hs, hs]
        simp [heq]

theorem not_mem_of_mem_split {c : Char} {cs piece : List Char} (h : piece ∈ split c cs) :
    c ∉ piece := by
  induction cs generalizing piece with
  | nil =>
      rw [split_nil, List.mem_singleton] at h
      rw [h]
      exact List.not_mem_nil
  | cons d ds ih =>
      by_cases heq : d = c
      · rw [heq, split_cons_self] at h
        rcases List.mem_cons.1 h with rfl | h
        · exact List.not_mem_nil
        · exact ih h
      · obtain ⟨first, pieces, hs⟩ := List.exists_cons_of_ne_nil (split_ne_nil c ds)
        rw [split_cons_of_ne heq hs] at h
        rcases List.mem_cons.1 h with rfl | h
        · intro hmem
          rcases List.mem_cons.1 hmem with hd | hmem
          · exact heq hd.symm
          · exact ih (hs ▸ List.mem_cons_self ..) hmem
        · exact ih (hs ▸ List.mem_cons_of_mem _ h)

theorem split_append {c : Char} (cs : List Char) {ending : List Char} (h : c ∉ ending) :
    ∃ pieces last, split c cs = pieces ++ [last] ∧
      split c (cs ++ ending) = pieces ++ [last ++ ending] := by
  induction cs with
  | nil =>
      refine ⟨[], [], rfl, ?_⟩
      rw [List.nil_append, split_eq_splitOn, List.splitOn_eq_singleton h]
      rfl
  | cons d ds ih =>
      obtain ⟨pieces, last, hs, happend⟩ := ih
      by_cases heq : d = c
      · refine ⟨[] :: pieces, last, ?_, ?_⟩
        · rw [heq, split_cons_self, hs]
          rfl
        · rw [heq, List.cons_append, split_cons_self, happend]
          rfl
      · cases pieces with
        | nil => exact ⟨[], d :: last, split_cons_of_ne heq hs, split_cons_of_ne heq happend⟩
        | cons piece pieces =>
            exact ⟨(d :: piece) :: pieces, last, split_cons_of_ne heq hs,
              split_cons_of_ne heq happend⟩

def withoutEnd? (ending cs : List Char) : Option (List Char) :=
  (ending.reverse.isPrefixOf? cs.reverse).map List.reverse

def withoutEnd (ending cs : List Char) : List Char :=
  (withoutEnd? ending cs).getD cs

def occursIn (mark cs : List Char) : Bool :=
  (cut mark cs).isSome

end IndexRefresh.Text
