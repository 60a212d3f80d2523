import IndexRefresh.Decimal.Binary64
import IndexRefresh.Entries

namespace IndexRefresh

inductive Setting where
  | null
  | flag (b : Bool)
  | whole (n : Int)
  | decimal (x : Binary64)
  | text (s : String)
  | list (items : List Setting)
  | branch (entries : List (String × Setting))
  deriving Inhabited

namespace Setting

def entries : Setting → Entries Setting
  | .branch es => es
  | _ => []

def items : Setting → List Setting
  | .list vs => vs
  | _ => []

mutual

/-- What stands at a place after a source gave a value for it. A branch changes what it names and
leaves the rest; any other value replaces what stood there. -/
def overlay (old : Option Setting) : Setting → Setting
  | .branch es => overlayAll (old.getD (.branch [])) es
  | v => v

def overlayAll (old : Setting) : Entries Setting → Setting
  | [] => old
  | (k, v) :: es =>
      overlayAll (.branch (Entries.put k (overlay (old.entries.lookup k) v) old.entries)) es

end

mutual

def mapKeys (f : String → String) : Setting → Setting
  | .list vs => .list (mapKeysList f vs)
  | .branch es => .branch (mapKeysEntries f es)
  | v => v

def mapKeysList (f : String → String) : List Setting → List Setting
  | [] => []
  | v :: vs => mapKeys f v :: mapKeysList f vs

def mapKeysEntries (f : String → String) : Entries Setting → Entries Setting
  | [] => []
  | (k, v) :: es => (f k, mapKeys f v) :: mapKeysEntries f es

end

end Setting

end IndexRefresh
