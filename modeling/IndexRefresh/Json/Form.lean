import IndexRefresh.Json.Value

namespace IndexRefresh

class JsonForm (α : Type) where
  toJson : α → Json
  ofJson? : Json → Option α

export JsonForm (toJson ofJson?)

namespace Json

def known (names : List String) : List (Option String × Json) → Option (List (String × Json))
  | [] => some []
  | (none, _) :: _ => none
  | (some k, v) :: ms => do
      let rest ← known names ms
      if names.contains k then
        if (rest.lookup k).isSome then none else some ((k, v) :: rest)
      else some rest

/-- The fields of a record, from an object, in which other members are passed over, or from the
list of its values in the order of the names. No field may be given twice. -/
def fields? (names : List String) : Json → Option (List (String × Json))
  | .obj ms => known names ms
  | .arr vs => if vs.length ≤ names.length then some (names.zip vs) else none
  | _ => none

variable {α : Type} [JsonForm α]

def required (fields : List (String × Json)) (name : String) : Option α :=
  (fields.lookup name).bind ofJson?

def orDefault (fields : List (String × Json)) (name : String) (value : α) : Option α :=
  match fields.lookup name with
  | some v => ofJson? v
  | none => some value

def optional (fields : List (String × Json)) (name : String) : Option (Option α) :=
  match fields.lookup name with
  | none => some none
  | some .null => some none
  | some v => (ofJson? v).map some

def whenSome (name : String) (value : Option α) : List (String × Json) :=
  match value with
  | some v => [(name, toJson v)]
  | none => []

def choice? (names : List (String × α)) : Json → Option α
  | .str (some s) => names.lookup s
  | .obj [(some s, .null)] => names.lookup s
  | _ => none

end Json

instance : JsonForm String where
  toJson := Json.ofString
  ofJson?
    | .str t => t
    | _ => none

instance : JsonForm Bool where
  toJson := .bool
  ofJson?
    | .bool b => some b
    | _ => none

instance : JsonForm UInt64 where
  toJson n := Json.ofNat n.toNat
  ofJson?
    | .num (.nat n) => if n < UInt64.size then some n.toUInt64 else none
    | _ => none

instance : JsonForm UInt32 where
  toJson n := Json.ofNat n.toNat
  ofJson?
    | .num (.nat n) => if n < UInt32.size then some n.toUInt32 else none
    | _ => none

instance {α : Type} [JsonForm α] : JsonForm (List α) where
  toJson vs := .arr (vs.map toJson)
  ofJson?
    | .arr vs => vs.mapM ofJson?
    | _ => none

instance {α : Type} [JsonForm α] : JsonForm (Option α) where
  toJson
    | some v => toJson v
    | none => .null
  ofJson?
    | .null => some none
    | v => (ofJson? v).map some

end IndexRefresh
