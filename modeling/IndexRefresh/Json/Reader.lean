import IndexRefresh.Json.Token
import IndexRefresh.Text.Utf8

namespace IndexRefresh.Json

inductive Frame where
  | array (items : List Json)
  | member (members : List (Option String × Json)) (key : Option String)

inductive Expect where
  | value
  | firstItem
  | afterItem (items : List Json)
  | firstKey
  | key (members : List (Option String × Json))
  | colon (members : List (Option String × Json)) (key : Option String)
  | afterMember (members : List (Option String × Json))
  | finished (v : Json)

structure Reading where
  frames : List Frame
  expect : Expect

namespace Reading

def start : Reading :=
  ⟨[], .value⟩

def complete (v : Json) : List Frame → Reading
  | [] => ⟨[], .finished v⟩
  | .array items :: fs => ⟨fs, .afterItem (v :: items)⟩
  | .member ms k :: fs => ⟨fs, .afterMember ((k, v) :: ms)⟩

def beginValue (fs : List Frame) : Token → Option Reading
  | .null => some (complete .null fs)
  | .bool b => some (complete (.bool b) fs)
  | .num n => some (complete (.num n) fs)
  | .str t => some (complete (.str t) fs)
  | .openBracket => some ⟨fs, .firstItem⟩
  | .openBrace => some ⟨fs, .firstKey⟩
  | _ => none

def step (r : Reading) (t : Token) : Option Reading :=
  match r.expect, t with
  | .value, t => beginValue r.frames t
  | .firstItem, .closeBracket => some (complete (.arr []) r.frames)
  | .firstItem, t => beginValue (.array [] :: r.frames) t
  | .afterItem items, .comma => some ⟨.array items :: r.frames, .value⟩
  | .afterItem items, .closeBracket => some (complete (.arr items.reverse) r.frames)
  | .firstKey, .closeBrace => some (complete (.obj []) r.frames)
  | .firstKey, .str k => some ⟨r.frames, .colon [] k⟩
  | .key ms, .str k => some ⟨r.frames, .colon ms k⟩
  | .colon ms k, .colon => some ⟨.member ms k :: r.frames, .value⟩
  | .afterMember ms, .comma => some ⟨r.frames, .key ms⟩
  | .afterMember ms, .closeBrace => some (complete (.obj ms.reverse) r.frames)
  | _, _ => none

def result? (r : Reading) : Option Json :=
  match r.expect with
  | .finished v => some v
  | _ => none

end Reading

def ofTokens? (ts : List Token) : Option Json := do
  let r ← ts.foldlM Reading.step Reading.start
  r.result?

def ofText? (text : String) : Option Json :=
  (tokens? text.toList).bind ofTokens?

def ofBytes? (bytes : ByteArray) : Option Json :=
  match String.fromUTF8? bytes with
  | some text => ofText? text
  | none => (tokensOfBytes? (Text.decodeBytes bytes.toList)).bind ofTokens?

end IndexRefresh.Json
