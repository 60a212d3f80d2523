import IndexRefresh.Proofs.Json.Form

namespace IndexRefresh

namespace Json

variable {α : Type} [JsonForm α]

def optionalMember (asNull : Bool) (name : String) (value : Option α) : List (String × Json) :=
  match value with
  | some v => [(name, toJson v)]
  | none => if asNull then [(name, .null)] else []

theorem optionalMember_true (name : String) (value : Option α) :
    optionalMember true name value = [(name, toJson value)] := by
  cases value <;> rfl

theorem optionalMember_false (name : String) (value : Option α) :
    optionalMember false name value = whenSome name value := by
  cases value <;> rfl

theorem sublist_optionalMember (asNull : Bool) (name : String) (value : Option α) :
    ((optionalMember asNull name value).map Prod.fst).Sublist [name] := by
  cases value with
  | some v => exact List.Sublist.refl _
  | none =>
      cases asNull with
      | true => exact List.Sublist.refl _
      | false => exact List.nil_sublist _

@[simp]
theorem lookup_cons_of_ne {name other : String} (h : name ≠ other) (j : Json)
    (ms : List (String × Json)) : ((other, j) :: ms).lookup name = ms.lookup name := by
  have hbeq : (name == other) = false := by simpa using h
  rw [List.lookup_cons, hbeq]

@[simp]
theorem lookup_optionalMember_append {name other : String} (h : name ≠ other) (asNull : Bool)
    (value : Option α) (ms : List (String × Json)) :
    (optionalMember asNull other value ++ ms).lookup name = ms.lookup name := by
  cases value with
  | some v => exact lookup_cons_of_ne h (toJson v) ms
  | none =>
      cases asNull with
      | true => exact lookup_cons_of_ne h .null ms
      | false => rfl

@[simp]
theorem lookup_optionalMember {name other : String} (h : name ≠ other) (asNull : Bool)
    (value : Option α) : (optionalMember asNull other value).lookup name = none := by
  have happend := lookup_optionalMember_append h asNull value []
  rwa [List.append_nil] at happend

theorem optional_congr {fields more : List (String × Json)} {name : String}
    (h : fields.lookup name = more.lookup name) :
    (optional fields name : Option (Option α)) = optional more name := by
  unfold optional
  rw [h]

@[simp]
theorem optional_cons_of_ne {name other : String} (h : name ≠ other) (j : Json)
    (ms : List (String × Json)) :
    (optional ((other, j) :: ms) name : Option (Option α)) = optional ms name :=
  optional_congr (lookup_cons_of_ne h j ms)

@[simp]
theorem optional_optionalMember_append_of_ne {β : Type} [JsonForm β] {name other : String}
    (h : name ≠ other) (asNull : Bool) (value : Option β) (ms : List (String × Json)) :
    (optional (optionalMember asNull other value ++ ms) name : Option (Option α)) =
      optional ms name :=
  optional_congr (lookup_optionalMember_append h asNull value ms)

theorem fields?_record {names : List String} {ms : List (String × Json)}
    (hnames : (ms.map Prod.fst).Sublist names) (hdistinct : names.Nodup) :
    fields? names (record ms) = some ms := by
  have hmem : ∀ m ∈ ms, names.contains m.1 = true := by
    intro m hm
    have hname : m.1 ∈ names := hnames.subset (List.mem_map_of_mem hm)
    simpa using hname
  exact known_record hmem (hdistinct.sublist hnames)

theorem fields?_record_bind {β : Type} {names : List String} {ms : List (String × Json)}
    {read : List (String × Json) → Option β} {v : β} (hnames : (ms.map Prod.fst).Sublist names)
    (hdistinct : names.Nodup) (hread : read ms = some v) :
    (fields? names (record ms)).bind read = some v := by
  rw [fields?_record hnames hdistinct]
  exact hread

section Lawful

variable [LawfulJsonForm α]

@[simp]
theorem optional_optionalMember (asNull : Bool) (name : String) (value : Option α) :
    optional (optionalMember asNull name value) name = some value := by
  cases value with
  | some v => exact optional_of_lookup List.lookup_cons_self
  | none =>
      cases asNull with
      | true => exact optional_of_lookup List.lookup_cons_self
      | false => rfl

@[simp]
theorem optional_optionalMember_append {name : String} {ms : List (String × Json)}
    (h : ms.lookup name = none) (asNull : Bool) (value : Option α) :
    optional (optionalMember asNull name value ++ ms) name = some value := by
  have hlookup : (optionalMember asNull name value ++ ms).lookup name =
      (optionalMember asNull name value).lookup name := by
    rw [List.lookup_append, h, Option.or_none]
  exact (optional_congr hlookup).trans (optional_optionalMember asNull name value)

theorem plain_optionalMember (asNull : Bool) (name : String) (v : Option α) :
    ∀ m ∈ optionalMember asNull name v, m.2.Plain := by
  intro m hm
  cases v with
  | some v =>
      rw [optionalMember, List.mem_singleton] at hm
      rw [hm]
      exact LawfulJsonForm.plain v
  | none =>
      cases asNull with
      | true =>
          rw [optionalMember, if_pos rfl, List.mem_singleton] at hm
          rw [hm]
          exact plain_null
      | false => cases hm

end Lawful

theorem plain_bool (b : Bool) : Plain (.bool b) := by
  intro t ht
  rw [tokens, List.mem_singleton] at ht
  rw [ht]
  trivial

theorem plain_itemTokens {vs : List Json} (h : ∀ v ∈ vs, v.Plain) :
    ∀ t ∈ itemTokens vs, t.Plain := by
  induction vs with
  | nil =>
      intro t ht
      rw [itemTokens, List.mem_singleton] at ht
      rw [ht]
      trivial
  | cons v vs ih =>
      intro t ht
      rw [itemTokens] at ht
      simp only [List.mem_cons, List.mem_append] at ht
      rcases ht with rfl | ht | ht
      · trivial
      · exact h v (List.mem_cons_self ..) t ht
      · exact ih (fun u hu => h u (List.mem_cons_of_mem _ hu)) t ht

theorem plain_arr {vs : List Json} (h : ∀ v ∈ vs, v.Plain) : Plain (.arr vs) := by
  intro t ht
  cases vs with
  | nil =>
      rw [tokens] at ht
      simp only [List.mem_cons, List.not_mem_nil, or_false] at ht
      rcases ht with rfl | rfl <;> trivial
  | cons v vs =>
      rw [tokens] at ht
      simp only [List.mem_cons, List.mem_append] at ht
      rcases ht with rfl | ht | ht
      · trivial
      · exact h v (List.mem_cons_self ..) t ht
      · exact plain_itemTokens (fun u hu => h u (List.mem_cons_of_mem _ hu)) t ht

end Json

attribute [simp] LawfulJsonForm.ofJson?_toJson LawfulJsonForm.plain

instance : LawfulJsonForm Bool where
  ofJson?_toJson _ := rfl
  plain := Json.plain_bool
  ne_null _ h := by cases h

instance : LawfulJsonForm UInt32 where
  ofJson?_toJson n := by
    have hlt : n.toNat < UInt32.size := n.toNat_lt
    change (if n.toNat < UInt32.size then some n.toNat.toUInt32 else none) = some n
    rw [if_pos hlt, Nat.toUInt32, UInt32.ofNat_toNat]
  plain n := Json.plain_ofNat n.toNat
  ne_null _ h := by cases h

instance {α : Type} [JsonForm α] [LawfulJsonForm α] : LawfulJsonForm (List α) where
  ofJson?_toJson vs := by
    change (vs.map toJson).mapM ofJson? = some vs
    induction vs with
    | nil => rfl
    | cons v vs ih =>
        rw [List.map_cons, List.mapM_cons, ofJson?_toJson, ih]
        rfl
  plain vs := by
    refine Json.plain_arr fun j hj => ?_
    obtain ⟨v, -, rfl⟩ := List.mem_map.1 hj
    exact LawfulJsonForm.plain v
  ne_null _ h := by cases h

end IndexRefresh
