import IndexRefresh.Proofs.Json.Members
import Mathlib.Data.List.Nodup
import Mathlib.Logic.Relation

namespace IndexRefresh.Json

structure FieldOf (σ : Type) where
  name : String
  shape : σ
  default? : Option Json

inductive Shape where
  | plain
  | list (item : Shape)
  | record (fields : List (FieldOf Shape))

abbrev Field := FieldOf Shape

def namesOf (fields : List Field) : List String :=
  fields.map FieldOf.name

/-- One change of a document, at any depth, that leaves the known fields as they are: another order,
a member of another name, a field with the value that it has when it is missing, or the values alone
in the order of the fields, from which those at the end may be missing. -/
inductive Edit : Shape → Json → Json → Prop where
  | permuted {fields : List Field} {ms more : List (Option String × Json)} (h : ms.Perm more) :
      Edit (.record fields) (.obj ms) (.obj more)
  | unknown {fields : List Field} {ms : List (Option String × Json)} {name : String} (v : Json)
      (h : name ∉ namesOf fields) :
      Edit (.record fields) (.obj ms) (.obj ((some name, v) :: ms))
  | default {fields : List Field} {ms : List (Option String × Json)} {f : Field} {v : Json}
      (hf : f ∈ fields) (hdefault : f.default? = some v)
      (hmissing : some f.name ∉ ms.map Prod.fst) :
      Edit (.record fields) (.obj ms) (.obj ((some f.name, v) :: ms))
  | listed {fields : List Field} {vs : List Json} (h : vs.length ≤ fields.length) :
      Edit (.record fields) (record ((namesOf fields).zip vs)) (.arr vs)
  | member {fields : List Field} {f : Field} {before after : List (Option String × Json)}
      {v w : Json} (hf : f ∈ fields) (h : Edit f.shape v w) :
      Edit (.record fields) (.obj (before ++ (some f.name, v) :: after))
        (.obj (before ++ (some f.name, w) :: after))
  | place {fields : List Field} {f : Field} {before after : List Json} {v w : Json}
      (hf : fields[before.length]? = some f) (h : Edit f.shape v w) :
      Edit (.record fields) (.arr (before ++ v :: after)) (.arr (before ++ w :: after))
  | item {item : Shape} {before after : List Json} {v w : Json} (h : Edit item v w) :
      Edit (.list item) (.arr (before ++ v :: after)) (.arr (before ++ w :: after))

/-- Somewhere in the document, at any depth, a known field is given twice. -/
inductive Doubled : Shape → Json → Prop where
  | here {fields : List Field} {ms : List (Option String × Json)} {f : Field} (hf : f ∈ fields)
      (h : 2 ≤ (ms.map Prod.fst).count (some f.name)) : Doubled (.record fields) (.obj ms)
  | member {fields : List Field} {ms : List (Option String × Json)} {f : Field} {v : Json}
      (hf : f ∈ fields) (hv : (some f.name, v) ∈ ms) (h : Doubled f.shape v) :
      Doubled (.record fields) (.obj ms)
  | place {fields : List Field} {vs : List Json} {f : Field} {v : Json} {i : Nat}
      (hf : fields[i]? = some f) (hv : vs[i]? = some v) (h : Doubled f.shape v) :
      Doubled (.record fields) (.arr vs)
  | item {item : Shape} {vs : List Json} {v : Json} (hv : v ∈ vs) (h : Doubled item v) :
      Doubled (.list item) (.arr vs)

structure Heeds {α : Type} (s : Shape) (read : Json → Option α) : Prop where
  same {v w : Json} (h : Edit s v w) : read v = read w
  twice {v : Json} (h : Doubled s v) : read v = none

section Decoders

variable {α : Type} {read : Json → Option α}

theorem heeds_plain : Heeds .plain read where
  same h := nomatch h
  twice h := nomatch h

/-- Of the two values of a field, either of which may be missing, one does for the other. -/
inductive Exchange (f : Field) : Option Json → Option Json → Prop where
  | refl (v : Option Json) : Exchange f v v
  | edit {v w : Json} (h : Edit f.shape v w) : Exchange f (some v) (some w)
  | default {v : Json} (h : f.default? = some v) : Exchange f none (some v)

theorem Exchange.elim_eq {f : Field} {x y : Option Json} (h : Exchange f x y) {absent : Option α}
    (hread : Heeds f.shape read) (habsent : ∀ v, f.default? = some v → read v = absent) :
    x.elim absent read = y.elim absent read := by
  cases h with
  | refl => rfl
  | edit h => exact hread.same h
  | default h => exact (habsent _ h).symm

inductive Reads {α : Type} : List Field → (List (String × Json) → Option α) → Prop where
  | done (a : α) : Reads [] fun _ => some a
  | field {β : Type} {f : Field} {fields : List Field} {read : Json → Option β}
      {absent : Option β} {rest : β → List (String × Json) → Option α} (hread : Heeds f.shape read)
      (habsent : ∀ v, f.default? = some v → read v = absent) (hrest : ∀ b, Reads fields (rest b)) :
      Reads (f :: fields) fun xs => ((xs.lookup f.name).elim absent read).bind fun b => rest b xs

variable {fields : List Field} {build : List (String × Json) → Option α}

theorem name_mem {f : Field} (hf : f ∈ fields) : f.name ∈ namesOf fields :=
  List.mem_map_of_mem hf

theorem getElem?_namesOf {f : Field} {i : Nat} (hf : fields[i]? = some f) :
    (namesOf fields)[i]? = some f.name := by
  rw [namesOf, List.getElem?_map, hf]
  rfl

theorem Reads.congr (h : Reads fields build) {xs ys : List (String × Json)}
    (hexchange : ∀ f ∈ fields, Exchange f (xs.lookup f.name) (ys.lookup f.name)) :
    build xs = build ys := by
  induction h with
  | done a => rfl
  | @field β f fields read absent rest hread habsent _ ih =>
      have hfield := (hexchange f (List.mem_cons_self ..)).elim_eq hread habsent
      have hrest : ∀ b, rest b xs = rest b ys :=
        fun b => ih b fun g hg => hexchange g (List.mem_cons_of_mem _ hg)
      simp only [hfield, hrest]

theorem Reads.twice (h : Reads fields build) {xs : List (String × Json)} {f : Field} {v : Json}
    (hf : f ∈ fields) (hv : xs.lookup f.name = some v) (htwice : Doubled f.shape v) :
    build xs = none := by
  induction h with
  | done a => cases hf
  | @field β g fields read absent rest hread _ _ ih =>
      rcases List.mem_cons.1 hf with rfl | hf
      · have hnone : (xs.lookup f.name).elim absent read = none := by
          rw [hv]
          exact hread.twice htwice
        simp only [hnone]
        rfl
      · -- Whatever this field is read as, the rest fails.
        simp only [ih _ hf]
        exact Option.bind_fun_none _

theorem bind_known_congr (h : Reads fields build) {ms more : List (Option String × Json)}
    (hlegible : Legible (namesOf fields) ms ↔ Legible (namesOf fields) more)
    (hexchange : Legible (namesOf fields) ms →
      ∀ f ∈ fields, Exchange f (ms.lookup (some f.name)) (more.lookup (some f.name))) :
    (known (namesOf fields) ms).bind build =
      (known (namesOf fields) more).bind build := by
  by_cases hms : Legible (namesOf fields) ms
  · obtain ⟨xs, hxs⟩ := Option.isSome_iff_exists.1 (isSome_known_iff.2 hms)
    obtain ⟨ys, hys⟩ := Option.isSome_iff_exists.1 (isSome_known_iff.2 (hlegible.1 hms))
    rw [hxs, hys]
    refine h.congr fun f hf => ?_
    rw [lookup_of_known hxs (name_mem hf), lookup_of_known hys (name_mem hf)]
    exact hexchange hms f hf
  · have hmore : ¬Legible (namesOf fields) more := fun h => hms (hlegible.2 h)
    rw [← isSome_known_iff, Option.not_isSome_iff_eq_none] at hms hmore
    rw [hms, hmore]

theorem eq_of_name_eq (hnames : (namesOf fields).Nodup) {f g : Field} (hf : f ∈ fields)
    (hg : g ∈ fields) (h : f.name = g.name) : f = g :=
  List.inj_on_of_nodup_map hnames hf hg h

theorem exchange_lookup_replace (hnames : (namesOf fields).Nodup)
    {before after : List (Option String × Json)} {f : Field} {v w : Json} (hf : f ∈ fields)
    (hedit : Edit f.shape v w)
    (hlegible : Legible (namesOf fields) (before ++ (some f.name, v) :: after)) :
    ∀ g ∈ fields, Exchange g ((before ++ (some f.name, v) :: after).lookup (some g.name))
      ((before ++ (some f.name, w) :: after).lookup (some g.name)) := by
  intro g hg
  by_cases heq : g.name = f.name
  · obtain rfl := eq_of_name_eq hnames hg hf heq
    have honce := hlegible.once g.name (name_mem hg)
    rw [lookup_of_once v honce, lookup_of_once w (map_fst_replace before after _ v w ▸ honce)]
    exact .edit hedit
  · have hne : some g.name ≠ some f.name := fun hsome => heq (Option.some.inj hsome)
    rw [lookup_replace_of_ne hne v w]
    exact .refl _

theorem exchange_getElem?_replace {before after : List Json} {f : Field} {v w : Json}
    (hf : fields[before.length]? = some f) (hedit : Edit f.shape v w) {g : Field} {i : Nat}
    (hg : fields[i]? = some g) :
    Exchange g (before ++ v :: after)[i]? (before ++ w :: after)[i]? := by
  rcases Nat.lt_trichotomy i before.length with hlt | rfl | hgt
  · rw [List.getElem?_append_left hlt, List.getElem?_append_left hlt]
    exact .refl _
  · rw [hf] at hg
    cases hg
    rw [List.getElem?_append_right (Nat.le_refl _), List.getElem?_append_right (Nat.le_refl _),
      Nat.sub_self]
    exact .edit hedit
  · have hle := Nat.le_of_lt hgt
    have hi : i - before.length = (i - before.length - 1) + 1 := by omega
    rw [List.getElem?_append_right hle, List.getElem?_append_right hle, hi,
      List.getElem?_cons_succ, List.getElem?_cons_succ]
    exact .refl _

theorem exchange_lookup_default (hnames : (namesOf fields).Nodup)
    {ms : List (Option String × Json)} {f : Field} {v : Json} (hf : f ∈ fields)
    (hdefault : f.default? = some v) (hmissing : some f.name ∉ ms.map Prod.fst) :
    ∀ g ∈ fields, Exchange g (ms.lookup (some g.name))
      (((some f.name, v) :: ms).lookup (some g.name)) := by
  intro g hg
  by_cases heq : f.name = g.name
  · obtain rfl := eq_of_name_eq hnames hf hg heq
    have hnone : ms.lookup (some f.name) = none := by
      rw [← Option.not_isSome_iff_eq_none, isSome_lookup_iff]
      exact hmissing
    rw [hnone, List.lookup_cons_self]
    exact .default hdefault
  · rw [lookup_cons_of_known_ne heq]
    exact .refl _

theorem Reads.congr_zip (h : Reads fields build) (hnames : (namesOf fields).Nodup)
    {vs ws : List Json}
    (hexchange : ∀ (i : Nat) (f : Field), fields[i]? = some f → Exchange f vs[i]? ws[i]?) :
    build ((namesOf fields).zip vs) = build ((namesOf fields).zip ws) := by
  refine h.congr fun f hf => ?_
  obtain ⟨i, hi⟩ := List.getElem?_of_mem hf
  rw [lookup_zip hnames (getElem?_namesOf hi), lookup_zip hnames (getElem?_namesOf hi)]
  exact hexchange i f hi

theorem same_of_reads (h : Reads fields build) (hnames : (namesOf fields).Nodup)
    {v w : Json} (hedit : Edit (.record fields) v w) :
    (fields? (namesOf fields) v).bind build =
      (fields? (namesOf fields) w).bind build := by
  cases hedit with
  | permuted hperm =>
      -- Only where no known name stands twice, which is when the object can be read at all, does
      -- the order not matter to a lookup.
      refine bind_known_congr h ⟨fun hms => hms.perm (hperm.map _),
        fun hmore => hmore.perm (hperm.symm.map _)⟩ fun hms f hf => ?_
      rw [lookup_perm hperm (hms.once f.name (name_mem hf))]
      exact .refl _
  | unknown v hname =>
      refine bind_known_congr h ⟨fun hms => hms.cons v fun hmem => absurd hmem hname,
        Legible.tail⟩ fun _ f hf => ?_
      rw [lookup_cons_of_known_ne]
      · exact .refl _
      · rintro rfl
        exact hname (name_mem hf)
  | default hf hdefault hmissing =>
      exact bind_known_congr h ⟨fun hms => hms.cons _ fun _ => hmissing, Legible.tail⟩
        fun _ => exchange_lookup_default hnames hf hdefault hmissing
  | @listed _ vs hlength =>
      have hrecord := fields?_record (sublist_map_fst_zip (namesOf fields) vs) hnames
      have hfit : vs.length ≤ (namesOf fields).length := by
        rw [namesOf, List.length_map]
        exact hlength
      rw [hrecord, fields?, if_pos hfit]
  | @member _ f before after v w hf hedit =>
      have hkeys := map_fst_replace before after (some f.name) v w
      exact bind_known_congr h ⟨fun hms => hms.perm (.of_eq hkeys),
        fun hmore => hmore.perm (.of_eq hkeys.symm)⟩ (exchange_lookup_replace hnames hf hedit)
  | @place _ f before after v w hf hedit =>
      have hlength : (before ++ v :: after).length = (before ++ w :: after).length := by
        rw [List.length_append, List.length_append, List.length_cons, List.length_cons]
      rw [fields?, fields?, hlength]
      split
      · exact h.congr_zip hnames fun i g hg => exchange_getElem?_replace hf hedit hg
      · rfl

theorem twice_of_reads (h : Reads fields build) (hnames : (namesOf fields).Nodup)
    {v : Json} (htwice : Doubled (.record fields) v) :
    (fields? (namesOf fields) v).bind build = none := by
  rw [Option.bind_eq_none_iff]
  intro xs hxs
  cases htwice with
  | @here _ ms f hf hcount =>
      have hlegible : Legible (namesOf fields) ms :=
        isSome_known_iff.1 (Option.isSome_of_eq_some hxs)
      have honce := hlegible.once f.name (name_mem hf)
      omega
  | @member _ ms f v hf hv htwice =>
      have hlegible : Legible (namesOf fields) ms :=
        isSome_known_iff.1 (Option.isSome_of_eq_some hxs)
      have hname := name_mem hf
      obtain ⟨before, after, rfl⟩ := List.append_of_mem hv
      have hlookup := lookup_of_known hxs hname
      rw [lookup_of_once v (hlegible.once f.name hname)] at hlookup
      exact h.twice hf hlookup htwice
  | @place _ vs f v i hf hv htwice =>
      have hlookup := lookup_zip hnames (getElem?_namesOf hf) vs
      rw [fields?] at hxs
      split at hxs
      · cases hxs
        exact h.twice (List.mem_of_getElem? hf) (hlookup.trans hv) htwice
      · cases hxs

theorem heeds_record (h : Reads fields build) (hnames : (namesOf fields).Nodup) :
    Heeds (.record fields) fun v => (fields? (namesOf fields) v).bind build where
  same := same_of_reads h hnames
  twice := twice_of_reads h hnames

theorem heeds_list {item : Shape} {all : Json → Option (List α)} (h : Heeds item read)
    (hall : ∀ vs, all (.arr vs) = vs.mapM read) : Heeds (.list item) all where
  same hedit := by
    cases hedit with
    | item hedit =>
        rw [hall, hall, List.mapM_append, List.mapM_append, List.mapM_cons, List.mapM_cons,
          h.same hedit]
  twice htwice := by
    cases htwice with
    | item hv htwice =>
        obtain ⟨before, after, rfl⟩ := List.append_of_mem hv
        rw [hall, List.mapM_append, List.mapM_cons, h.twice htwice]
        exact Option.bind_fun_none _

theorem Edit.ne_null {s : Shape} {v w : Json} (h : Edit s v w) : v ≠ .null ∧ w ≠ .null := by
  cases h <;> exact ⟨nofun, nofun⟩

theorem Doubled.ne_null {s : Shape} {v : Json} (h : Doubled s v) : v ≠ .null := by
  cases h <;> exact nofun

theorem ofJson?_option [JsonForm α] {v : Json} (h : v ≠ .null) :
    (ofJson? v : Option (Option α)) = (ofJson? v : Option α).map some := by
  cases v with
  | null => exact absurd rfl h
  | _ => rfl

theorem heeds_option [JsonForm α] {s : Shape} (h : Heeds s (ofJson? : Json → Option α)) :
    Heeds s (ofJson? : Json → Option (Option α)) where
  same hedit := by
    rw [ofJson?_option hedit.ne_null.1, ofJson?_option hedit.ne_null.2, h.same hedit]
  twice htwice := by
    rw [ofJson?_option htwice.ne_null, h.twice htwice, Option.map_none]

section Fields

variable {γ : Type} {f : Field} {next : γ → List (String × Json) → Option α}

theorem reads_field {value : List (String × Json) → Option γ} {readField : Json → Option γ}
    (absent : Option γ) (hread : Heeds f.shape readField)
    (habsent : ∀ v, f.default? = some v → readField v = absent)
    (hvalue : ∀ xs, value xs = (xs.lookup f.name).elim absent readField)
    (hnext : ∀ b, Reads fields (next b)) :
    Reads (f :: fields) fun xs => (value xs).bind fun b => next b xs := by
  simp only [hvalue]
  exact .field hread habsent hnext

variable [JsonForm γ] (name : String) {s : Shape}

theorem reads_required (hread : Heeds s (ofJson? : Json → Option γ))
    (hnext : ∀ b, Reads fields (next b)) :
    Reads (⟨name, s, none⟩ :: fields) fun xs => (required xs name).bind fun b => next b xs := by
  refine reads_field none hread nofun (fun xs => ?_) hnext
  unfold required
  cases xs.lookup name <;> rfl

theorem reads_orDefault {v : Json} {c : γ} (hread : Heeds s (ofJson? : Json → Option γ))
    (hdefault : ofJson? v = some c) (hnext : ∀ b, Reads fields (next b)) :
    Reads (⟨name, s, some v⟩ :: fields)
      fun xs => (orDefault xs name c).bind fun b => next b xs := by
  refine reads_field (some c) hread (fun _ hv => Option.some.inj hv ▸ hdefault) (fun xs => ?_) hnext
  unfold orDefault
  cases xs.lookup name <;> rfl

theorem reads_optional {next : Option γ → List (String × Json) → Option α}
    (hread : Heeds s (ofJson? : Json → Option γ)) (hnext : ∀ b, Reads fields (next b)) :
    Reads (⟨name, s, some .null⟩ :: fields)
      fun xs => (optional xs name).bind fun b => next b xs := by
  refine reads_field (some none) (heeds_option hread) (fun _ hv => Option.some.inj hv ▸ rfl)
    (fun xs => ?_) hnext
  unfold optional
  cases xs.lookup name with
  | none => rfl
  | some v => cases v <;> rfl

end Fields

end Decoders

end IndexRefresh.Json
