import IndexRefresh.Calendar.Timestamp
import IndexRefresh.Json.Form
import IndexRefresh.Proofs.Calendar.Timestamp
import IndexRefresh.Proofs.Json.Printer

namespace IndexRefresh

class LawfulJsonForm (α : Type) [JsonForm α] : Prop where
  ofJson?_toJson (v : α) : ofJson? (toJson v) = some v
  plain (v : α) : (toJson v).Plain
  ne_null (v : α) : toJson v ≠ .null

export LawfulJsonForm (ofJson?_toJson)

namespace Json

theorem known_record {names : List String} {ms : List (String × Json)}
    (hnames : ∀ m ∈ ms, names.contains m.1 = true) (hdistinct : (ms.map Prod.fst).Nodup) :
    known names (ms.map fun m => (some m.1, m.2)) = some ms := by
  induction ms with
  | nil => rfl
  | cons m ms ih =>
      obtain ⟨hnew, hrest⟩ := List.nodup_cons.1 hdistinct
      have hm := hnames m (List.mem_cons_self ..)
      have hms := ih (fun e he => hnames e (List.mem_cons_of_mem _ he)) hrest
      have hlookup : ms.lookup m.1 = none := by
        rw [List.lookup_eq_none_iff]
        intro e he
        have hne : m.1 ≠ e.1 := fun heq => hnew (heq ▸ List.mem_map_of_mem he)
        simpa using hne
      rw [List.map_cons, known, hms]
      change (if names.contains m.1 = true then
        if (ms.lookup m.1).isSome = true then none else some (m :: ms) else some ms) = _
      rw [if_pos hm, hlookup]
      rfl

variable {α : Type} [JsonForm α] [LawfulJsonForm α] {fields : List (String × Json)} {name : String}

theorem optional_of_lookup {v : Option α} (h : fields.lookup name = some (toJson v)) :
    optional fields name = some v := by
  unfold optional
  cases v with
  | none =>
      rw [h]
      rfl
  | some v =>
      have hv : (toJson (some v) : Json) = toJson v := rfl
      rw [h, hv]
      split
      · next heq => cases heq
      · next heq => exact absurd (Option.some.inj heq) (LawfulJsonForm.ne_null v)
      · next heq =>
          cases heq
          rw [ofJson?_toJson]
          rfl

end Json

instance : LawfulJsonForm String where
  ofJson?_toJson _ := rfl
  plain := Json.plain_ofString
  ne_null _ h := by cases h

instance : LawfulJsonForm UInt64 where
  ofJson?_toJson n := by
    have hlt : n.toNat < UInt64.size := n.toNat_lt
    change (if n.toNat < UInt64.size then some n.toNat.toUInt64 else none) = some n
    rw [if_pos hlt, Nat.toUInt64, UInt64.ofNat_toNat]
  plain n := Json.plain_ofNat n.toNat
  ne_null _ h := by cases h

instance : LawfulJsonForm Timestamp where
  ofJson?_toJson t := by
    change Timestamp.ofChars? (String.ofList t.chars).toList = some t
    rw [String.toList_ofList]
    exact Timestamp.ofChars?_chars t
  plain t := Json.plain_ofString t.text
  ne_null _ h := by cases h

end IndexRefresh
