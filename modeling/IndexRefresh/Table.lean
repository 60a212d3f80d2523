import IndexRefresh.Entries

namespace IndexRefresh

structure Table (α : Type) where
  entries : List (String × α)
  sorted : entries.Pairwise fun a b => a.1 < b.1
  deriving Repr

namespace Table

open Entries (lookup_cons)

variable {α : Type}

def empty : Table α :=
  ⟨[], .nil⟩

instance : Inhabited (Table α) := ⟨empty⟩

def get? (t : Table α) (key : String) : Option α :=
  t.entries.lookup key

def size (t : Table α) : Nat :=
  t.entries.length

def values (t : Table α) : List α :=
  t.entries.map Prod.snd

def place (key : String) (value : α) : List (String × α) → List (String × α)
  | [] => [(key, value)]
  | e :: es =>
      if key = e.1 then (key, value) :: es
      else if key < e.1 then (key, value) :: e :: es
      else e :: place key value es

theorem mem_place {key : String} {value : α} {es : List (String × α)} {e : String × α}
    (h : e ∈ place key value es) : e = (key, value) ∨ e ∈ es := by
  induction es with
  | nil => simpa [place] using h
  | cons d ds ih =>
      simp only [place] at h
      split at h
      · rcases List.mem_cons.1 h with h | h
        · exact .inl h
        · exact .inr (List.mem_cons_of_mem _ h)
      · split at h
        · rcases List.mem_cons.1 h with h | h
          · exact .inl h
          · exact .inr h
        · rcases List.mem_cons.1 h with h | h
          · exact .inr (h ▸ List.mem_cons_self ..)
          · exact (ih h).imp_right (List.mem_cons_of_mem _)

theorem lt_of_not_le {a b : String} (hne : ¬a = b) (hlt : ¬a < b) : b < a := by
  have hle : b ≤ a := String.not_lt.1 hlt
  rcases Decidable.em (b < a) with h | h
  · exact h
  · exact absurd (String.le_antisymm (String.not_lt.1 h) hle) hne

theorem place_sorted (key : String) (value : α) {es : List (String × α)}
    (h : es.Pairwise fun a b => a.1 < b.1) :
    (place key value es).Pairwise fun a b => a.1 < b.1 := by
  induction es with
  | nil => simp [place]
  | cons d ds ih =>
      have hd := List.pairwise_cons.1 h
      simp only [place]
      split
      · next heq => exact List.pairwise_cons.2 ⟨fun e he => heq ▸ hd.1 e he, hd.2⟩
      · next hne =>
          split
          · next hlt =>
              refine List.pairwise_cons.2 ⟨fun e he => ?_, h⟩
              rcases List.mem_cons.1 he with he | he
              · exact he ▸ hlt
              · exact String.lt_trans hlt (hd.1 e he)
          · next hge =>
              refine List.pairwise_cons.2 ⟨fun e he => ?_, ih hd.2⟩
              rcases mem_place he with he | he
              · exact he ▸ lt_of_not_le hne hge
              · exact hd.1 e he

def insert (t : Table α) (key : String) (value : α) : Table α :=
  ⟨place key value t.entries, place_sorted key value t.sorted⟩

def filter (t : Table α) (p : α → Bool) : Table α :=
  ⟨t.entries.filter fun e => p e.2, t.sorted.filter _⟩

def ofList (entries : List (String × α)) : Table α :=
  entries.foldl (fun t e => t.insert e.1 e.2) empty

theorem place_of_largest {key : String} {value : α} {es : List (String × α)}
    (h : ∀ e ∈ es, e.1 < key) : place key value es = es ++ [(key, value)] := by
  induction es with
  | nil => rfl
  | cons d ds ih =>
      have hlt := h d (List.mem_cons_self ..)
      have hne : ¬key = d.1 := fun heq => String.lt_irrefl _ (heq ▸ hlt)
      have hge : ¬key < d.1 := fun hgt => String.lt_irrefl _ (String.lt_trans hlt hgt)
      rw [place, if_neg hne, if_neg hge, ih fun e he => h e (List.mem_cons_of_mem _ he)]
      rfl

theorem entries_foldl_insert {t : Table α} {es : List (String × α)}
    (h : (t.entries ++ es).Pairwise fun a b => a.1 < b.1) :
    (es.foldl (fun t e => t.insert e.1 e.2) t).entries = t.entries ++ es := by
  induction es generalizing t with
  | nil => exact (List.append_nil _).symm
  | cons e es ih =>
      have hlargest : ∀ d ∈ t.entries, d.1 < e.1 := fun d hd =>
        (List.pairwise_append.1 h).2.2 d hd e (List.mem_cons_self ..)
      have hplace : (t.insert e.1 e.2).entries = t.entries ++ [e] := place_of_largest hlargest
      have hassoc : t.entries ++ e :: es = (t.insert e.1 e.2).entries ++ es := by
        rw [hplace, List.append_assoc, List.singleton_append]
      rw [hassoc] at h ⊢
      exact ih h

theorem ofList_entries (t : Table α) : ofList t.entries = t := by
  have h : (t.entries.foldl (fun t e => t.insert e.1 e.2) empty).entries = [] ++ t.entries :=
    entries_foldl_insert t.sorted
  unfold ofList
  cases hlist : t.entries.foldl (fun t e => t.insert e.1 e.2) empty with
  | mk entries sorted =>
      rw [hlist] at h
      cases t
      simpa using h

theorem lookup_place_self (key : String) (value : α) (es : List (String × α)) :
    (place key value es).lookup key = some value := by
  induction es with
  | nil => simp [place]
  | cons d ds ih =>
      simp only [place]
      split
      · simp
      · next hne =>
          split
          · simp
          · rw [lookup_cons, if_neg hne, ih]

theorem lookup_place_of_ne {key other : String} (value : α) (es : List (String × α))
    (hne : ¬other = key) : (place key value es).lookup other = es.lookup other := by
  induction es with
  | nil => rw [place, lookup_cons, if_neg hne]
  | cons d ds ih =>
      simp only [place]
      split
      · next heq => rw [lookup_cons, if_neg hne, lookup_cons, ← heq, if_neg hne]
      · split
        · rw [lookup_cons, if_neg hne]
        · rw [lookup_cons, ih, lookup_cons]

@[simp] theorem get?_insert_self (t : Table α) (key : String) (value : α) :
    (t.insert key value).get? key = some value :=
  lookup_place_self key value t.entries

theorem get?_insert_of_ne (t : Table α) {key other : String} (value : α) (hne : ¬other = key) :
    (t.insert key value).get? other = t.get? other :=
  lookup_place_of_ne value t.entries hne

@[simp] theorem get?_empty (key : String) : (empty : Table α).get? key = none := rfl

theorem get?_insert (t : Table α) (key other : String) (value : α) :
    (t.insert key value).get? other = if other = key then some value else t.get? other := by
  split
  · next h => rw [h, get?_insert_self]
  · next h => exact get?_insert_of_ne t value h

theorem lookup_eq_none_of_lt {key : String} {es : List (String × α)} (h : ∀ e ∈ es, key < e.1) :
    es.lookup key = none := by
  rw [List.lookup_eq_none_iff]
  intro e he
  simpa using fun heq : key = e.1 => String.lt_irrefl _ (heq ▸ h e he)

theorem lookup_filter (p : α → Bool) {es : List (String × α)}
    (h : es.Pairwise fun a b => a.1 < b.1) (key : String) :
    (es.filter fun e => p e.2).lookup key = (es.lookup key).filter p := by
  induction es with
  | nil => rfl
  | cons d ds ih =>
      have hd := List.pairwise_cons.1 h
      cases hp : p d.2 with
      | true =>
          rw [List.filter_cons, if_pos hp, lookup_cons, lookup_cons, ih hd.2]
          split
          · simp [Option.filter_some, hp]
          · rfl
      | false =>
          rw [List.filter_cons, if_neg (by simp [hp]), ih hd.2, lookup_cons]
          split
          · next heq =>
              have hnone : ds.lookup key = none := by
                rw [heq]
                exact lookup_eq_none_of_lt hd.1
              simp [hnone, Option.filter_some, hp]
          · rfl

theorem get?_filter (t : Table α) (p : α → Bool) (key : String) :
    (t.filter p).get? key = (t.get? key).filter p :=
  lookup_filter p t.sorted key

theorem not_lt_of_lookup_eq {a b : String × α} {xs ys : List (String × α)}
    (hb : ∀ e ∈ ys, b.1 < e.1) (h : (a :: xs).lookup a.1 = (b :: ys).lookup a.1) :
    ¬a.1 < b.1 := by
  intro hlt
  have hnone : (b :: ys).lookup a.1 = none := by
    refine lookup_eq_none_of_lt fun e he => ?_
    rcases List.mem_cons.1 he with rfl | he
    · exact hlt
    · exact String.lt_trans hlt (hb e he)
  rw [hnone, lookup_cons, if_pos rfl] at h
  cases h

theorem eq_of_lookup_eq {xs ys : List (String × α)} (hx : xs.Pairwise fun a b => a.1 < b.1)
    (hy : ys.Pairwise fun a b => a.1 < b.1) (h : ∀ key, xs.lookup key = ys.lookup key) :
    xs = ys := by
  induction xs generalizing ys with
  | nil =>
      cases ys with
      | nil => rfl
      | cons b ys => simpa [lookup_cons] using h b.1
  | cons a xs ih =>
      obtain ⟨ha, hx⟩ := List.pairwise_cons.1 hx
      cases ys with
      | nil => simpa [lookup_cons] using h a.1
      | cons b ys =>
          obtain ⟨hb, hy⟩ := List.pairwise_cons.1 hy
          have hkey : a.1 = b.1 := String.le_antisymm
            (String.not_lt.1 (not_lt_of_lookup_eq ha (h b.1).symm))
            (String.not_lt.1 (not_lt_of_lookup_eq hb (h a.1)))
          have hvalue : a.2 = b.2 := by simpa [lookup_cons, hkey] using h a.1
          have hrest : xs = ys := by
            refine ih hx hy fun key => ?_
            by_cases heq : key = a.1
            · rw [heq, lookup_eq_none_of_lt ha, hkey, lookup_eq_none_of_lt hb]
            · have hcons := h key
              rwa [lookup_cons, lookup_cons, if_neg heq, if_neg (hkey ▸ heq)] at hcons
          rw [hrest, Prod.ext hkey hvalue]

theorem eq_of_get?_eq {t u : Table α} (h : ∀ key, t.get? key = u.get? key) : t = u := by
  obtain ⟨xs, hx⟩ := t
  obtain ⟨ys, hy⟩ := u
  congr
  exact eq_of_lookup_eq hx hy h

theorem length_le_length_place (key : String) (value : α) (es : List (String × α)) :
    es.length ≤ (place key value es).length := by
  induction es with
  | nil => exact Nat.zero_le _
  | cons d ds ih =>
      simp only [place]
      split
      · exact Nat.le_refl _
      · split
        · exact Nat.le_succ _
        · exact Nat.succ_le_succ ih

theorem size_le_size_insert (t : Table α) (key : String) (value : α) :
    t.size ≤ (t.insert key value).size :=
  length_le_length_place key value t.entries

theorem mem_values {t : Table α} {value : α} :
    value ∈ t.values ↔ ∃ key, t.get? key = some value := by
  obtain ⟨es, hs⟩ := t
  simp only [values, get?]
  induction es with
  | nil => simp
  | cons d ds ih =>
      have hd := List.pairwise_cons.1 hs
      simp only [List.map_cons, List.mem_cons, ih hd.2, lookup_cons]
      constructor
      · rintro (rfl | ⟨key, hkey⟩)
        · exact ⟨d.1, if_pos rfl⟩
        · refine ⟨key, ?_⟩
          have hmem : (key, value) ∈ ds := by
            obtain ⟨l₁, l₂, hds, -⟩ := List.lookup_eq_some_iff.1 hkey
            simp [hds]
          have hlt := hd.1 _ hmem
          rw [if_neg (fun hke => String.lt_irrefl _ (hke ▸ hlt)), hkey]
      · rintro ⟨key, hkey⟩
        split at hkey
        · exact .inl (Option.some.inj hkey).symm
        · exact .inr ⟨key, hkey⟩

theorem get?_of_mem {t : Table α} {e : String × α} (h : e ∈ t.entries) :
    t.get? e.1 = some e.2 := by
  obtain ⟨es, hs⟩ := t
  change es.lookup e.1 = some e.2
  change e ∈ es at h
  induction es with
  | nil => cases h
  | cons d ds ih =>
      obtain ⟨hd, hds⟩ := List.pairwise_cons.1 hs
      rw [lookup_cons]
      rcases List.mem_cons.1 h with rfl | h
      · rw [if_pos rfl]
      · have hne : ¬e.1 = d.1 := fun heq => String.lt_irrefl _ (heq ▸ hd e h)
        rw [if_neg hne]
        exact ih hds h

def keys (t : Table α) : List String :=
  t.entries.map Prod.fst

theorem mem_keys {t : Table α} {key : String} :
    key ∈ t.keys ↔ ∃ value, t.get? key = some value := by
  constructor
  · intro h
    obtain ⟨e, he, rfl⟩ := List.mem_map.1 h
    exact ⟨e.2, get?_of_mem he⟩
  · rintro ⟨value, h⟩
    obtain ⟨before, after, hentries, -⟩ := List.lookup_eq_some_iff.1 h
    refine List.mem_map.2 ⟨(key, value), ?_, rfl⟩
    rw [hentries]
    exact List.mem_append_right _ (List.mem_cons_self ..)

theorem nodup_keys (t : Table α) : t.keys.Nodup := by
  refine List.pairwise_map.2 (t.sorted.imp ?_)
  intro a b hlt heq
  exact String.lt_irrefl _ (heq ▸ hlt)

@[simp] theorem length_keys (t : Table α) : t.keys.length = t.size :=
  List.length_map _

theorem values_filter (t : Table α) (p : α → Bool) : (t.filter p).values = t.values.filter p :=
  List.filter_map.symm

theorem filter_filter_self (t : Table α) (p : α → Bool) : (t.filter p).filter p = t.filter p := by
  apply eq_of_get?_eq
  intro key
  rw [get?_filter, get?_filter, Option.filter_filter]
  simp

theorem size_eq_add (t : Table α) (p : α → Bool) :
    t.size = (t.filter p).size + (t.filter fun value => !p value).size := by
  have h := List.length_eq_countP_add_countP (fun e : String × α => p e.2) (l := t.entries)
  rw [List.countP_eq_length_filter, List.countP_eq_length_filter] at h
  simpa [size, filter] using h

end Table

end IndexRefresh
