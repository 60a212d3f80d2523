import IndexRefresh.Proofs.Json.Record

namespace IndexRefresh.Json

variable {names : List String} {ms : List (Option String × Json)} {fields : List (String × Json)}

structure Legible (names : List String) (ms : List (Option String × Json)) : Prop where
  named : none ∉ ms.map Prod.fst
  once : ∀ name ∈ names, (ms.map Prod.fst).count (some name) ≤ 1

theorem Legible.tail {m : Option String × Json} (h : Legible names (m :: ms)) :
    Legible names ms where
  named hnone := h.named (List.mem_cons_of_mem _ hnone)
  once name hname := by
    have honce := h.once name hname
    rw [List.map_cons, List.count_cons] at honce
    omega

theorem Legible.cons {k : String} (v : Json) (h : Legible names ms)
    (hk : k ∈ names → some k ∉ ms.map Prod.fst) : Legible names ((some k, v) :: ms) where
  named := by
    rw [List.map_cons, List.mem_cons, not_or]
    exact ⟨nofun, h.named⟩
  once name hname := by
    rw [List.map_cons, List.count_cons]
    by_cases heq : k = name
    · subst heq
      have hzero := List.count_eq_zero.2 (hk hname)
      simp [hzero]
    · simpa [heq] using h.once name hname

theorem lookup_cons_of_known_ne {k name : String} (h : k ≠ name) (v : Json) :
    ((some k, v) :: ms).lookup (some name) = ms.lookup (some name) := by
  have hbeq : (some name == some k) = false := by
    simpa using Ne.symm h
  rw [List.lookup_cons, hbeq]

theorem isSome_lookup_iff {name : Option String} :
    (ms.lookup name).isSome = true ↔ name ∈ ms.map Prod.fst := by
  induction ms with
  | nil => exact iff_of_false Bool.false_ne_true List.not_mem_nil
  | cons m ms ih =>
      rw [List.lookup_cons, List.map_cons, List.mem_cons]
      cases hm : name == m.1 with
      | true => exact iff_of_true rfl (.inl (beq_iff_eq.1 hm))
      | false =>
          rw [beq_eq_false_iff_ne] at hm
          rw [ih, or_iff_right hm]

theorem lookup_of_known (h : known names ms = some fields) {name : String} (hname : name ∈ names) :
    fields.lookup name = ms.lookup (some name) := by
  induction ms generalizing fields with
  | nil =>
      cases h
      rfl
  | cons m ms ih =>
      obtain ⟨k, v⟩ := m
      cases k with
      | none => cases h
      | some k =>
          obtain ⟨rest, hrest, hfields⟩ := Option.bind_eq_some_iff.1 h
          have hlookup := ih hrest
          split at hfields
          · split at hfields
            · cases hfields
            · cases hfields
              by_cases heq : k = name
              · subst heq
                rw [List.lookup_cons_self, List.lookup_cons_self]
              · rw [lookup_cons_of_ne (Ne.symm heq), lookup_cons_of_known_ne heq, hlookup]
          · next hk =>
              cases hfields
              have hne : k ≠ name := by
                rintro rfl
                exact hk (List.contains_iff_mem.2 hname)
              rw [lookup_cons_of_known_ne hne, hlookup]

theorem isSome_known_iff : (known names ms).isSome = true ↔ Legible names ms := by
  induction ms with
  | nil => exact iff_of_true rfl ⟨List.not_mem_nil, fun _ _ => Nat.zero_le _⟩
  | cons m ms ih =>
      obtain ⟨k, v⟩ := m
      cases k with
      | none => exact iff_of_false Bool.false_ne_true fun h => h.named (List.mem_cons_self ..)
      | some k =>
          rw [known]
          cases hrest : known names ms with
          | none =>
              rw [hrest] at ih
              exact iff_of_false Bool.false_ne_true fun h => Bool.false_ne_true (ih.2 h.tail)
          | some rest =>
              have hms : Legible names ms := ih.1 (by rw [hrest]; rfl)
              simp only [Option.bind_eq_bind, Option.bind_some]
              by_cases hk : k ∈ names
              · rw [if_pos (List.contains_iff_mem.2 hk), lookup_of_known hrest hk]
                split
                · next htwice =>
                    refine iff_of_false Bool.false_ne_true fun h => ?_
                    have honce := h.once k hk
                    have hpos := List.count_pos_iff.2 (isSome_lookup_iff.1 htwice)
                    rw [List.map_cons, List.count_cons_self] at honce
                    omega
                · next hfirst =>
                    exact iff_of_true rfl
                      (hms.cons v fun _ hmem => hfirst (isSome_lookup_iff.2 hmem))
              · rw [if_neg fun hmem => hk (List.contains_iff_mem.1 hmem)]
                exact iff_of_true rfl (hms.cons v fun hmem => absurd hmem hk)

theorem lookup_perm {more : List (Option String × Json)} (h : ms.Perm more) {name : Option String}
    (honce : (ms.map Prod.fst).count name ≤ 1) : ms.lookup name = more.lookup name := by
  induction h with
  | nil => rfl
  | cons m _ ih =>
      obtain ⟨k, v⟩ := m
      rw [List.lookup_cons, List.lookup_cons]
      cases hk : name == k with
      | true => rfl
      | false =>
          rw [List.map_cons, List.count_cons] at honce
          exact ih (by omega)
  | swap m n ms =>
      obtain ⟨k, v⟩ := m
      obtain ⟨l, w⟩ := n
      rw [List.lookup_cons, List.lookup_cons, List.lookup_cons, List.lookup_cons]
      cases hk : name == k with
      | false => rfl
      | true =>
          cases hl : name == l with
          | false => rfl
          | true =>
              rw [beq_iff_eq] at hk hl
              subst hk hl
              rw [List.map_cons, List.map_cons, List.count_cons_self, List.count_cons_self] at honce
              omega
  | trans hfirst _ ih ih' =>
      have hcount := (hfirst.map Prod.fst).count_eq name
      rw [ih honce, ih' (by omega)]

theorem Legible.perm {more : List (Option String × Json)} (h : Legible names ms)
    (hkeys : (ms.map Prod.fst).Perm (more.map Prod.fst)) : Legible names more where
  named hnone := h.named (hkeys.mem_iff.2 hnone)
  once name hname := hkeys.count_eq (some name) ▸ h.once name hname

theorem lookup_of_once {before after : List (Option String × Json)} {name : Option String}
    (v : Json) (h : ((before ++ (name, v) :: after).map Prod.fst).count name ≤ 1) :
    (before ++ (name, v) :: after).lookup name = some v := by
  have hbefore : before.lookup name = none := by
    rw [Option.eq_none_iff_forall_not_mem]
    intro w hw
    have hmem := isSome_lookup_iff.1 (Option.isSome_of_mem hw)
    have hpos := List.count_pos_iff.2 hmem
    rw [List.map_append, List.map_cons, List.count_append, List.count_cons_self] at h
    omega
  rw [List.lookup_append, hbefore, List.lookup_cons_self, Option.none_or]

theorem map_fst_replace (before after : List (Option String × Json)) (name : Option String)
    (v w : Json) : (before ++ (name, v) :: after).map Prod.fst =
      (before ++ (name, w) :: after).map Prod.fst := by
  rw [List.map_append, List.map_append, List.map_cons, List.map_cons]

theorem lookup_replace_of_ne {before after : List (Option String × Json)}
    {name other : Option String} (h : other ≠ name) (v w : Json) :
    (before ++ (name, v) :: after).lookup other = (before ++ (name, w) :: after).lookup other := by
  have hbeq : (other == name) = false := by simpa using h
  rw [List.lookup_append, List.lookup_append, List.lookup_cons, List.lookup_cons, hbeq]

/-! ## Values in the order of the names -/

theorem sublist_map_fst_zip (names : List String) (vs : List Json) :
    ((names.zip vs).map Prod.fst).Sublist names := by
  induction names generalizing vs with
  | nil => exact List.nil_sublist _
  | cons name names ih =>
      cases vs with
      | nil => exact List.nil_sublist _
      | cons v vs => exact (ih vs).cons_cons name

theorem lookup_zip (hnames : names.Nodup) {name : String} {i : Nat} (hi : names[i]? = some name)
    (vs : List Json) : (names.zip vs).lookup name = vs[i]? := by
  induction names generalizing i vs with
  | nil => cases hi
  | cons other names ih =>
      obtain ⟨hnew, hrest⟩ := List.nodup_cons.1 hnames
      cases vs with
      | nil => rfl
      | cons v vs =>
          rw [List.zip_cons_cons]
          cases i with
          | zero =>
              cases hi
              rw [List.lookup_cons_self]
              rfl
          | succ i =>
              have hne : name ≠ other := by
                rintro rfl
                exact hnew (List.mem_of_getElem? hi)
              rw [lookup_cons_of_ne hne, ih hrest hi]
              rfl

end IndexRefresh.Json
