import IndexRefresh.Event
import IndexRefresh.Text.Cut
import IndexRefresh.Text.Numeral

namespace IndexRefresh

/-- The level up to which events of a target pass; at zero none does. A rule without a target is
for all events, one with a condition for none of those that this program emits. -/
structure LogRule where
  target : Option (List Char)
  conditional : Bool
  rank : Nat
  deriving DecidableEq, Repr

namespace LogRule

def levelNames : List (String × Nat) :=
  ("off", 0) :: Level.all.map fun l => (String.ofList (l.name.toList.map Char.toLower), l.rank)

def rankOf? (cs : List Char) : Option Nat :=
  match Text.unsigned? cs with
  | some n => if n ≤ Level.trace.rank then some n else none
  | none => levelNames.lookup (String.ofList (cs.map Char.toLower))

def isTargetChar (c : Char) : Bool :=
  c.isAlphanum || c == '_' || c == ':' || c == '-' || 0x7f < c.toNat

def rankAfter? : List Char → Option Nat
  | [] => some Level.trace.rank
  | ['='] => some Level.trace.rank
  | '=' :: cs => if cs.length = 1 ∨ !cs.any Char.isDigit then rankOf? cs else none
  | _ => none

def skipCondition (cs : List Char) : Option (List Char) :=
  match cs with
  | '[' :: rest =>
      match rest.dropWhile (· != ']') with
      | _ :: after => some after
      | [] => none
  | _ => none

def ofText? (cs : List Char) : Option LogRule :=
  let target := cs.takeWhile isTargetChar
  let rest := cs.dropWhile isTargetChar
  match skipCondition rest with
  | some after =>
      let after := if target.isEmpty then after.dropWhile isTargetChar else after
      let after := (skipCondition after).getD after
      (rankAfter? after).map fun r => ⟨none, true, r⟩
  | none =>
      if target.isEmpty then none
      else
        match rest, rankOf? target with
        | [], some r => if target.length = 1 ∨ !target.any Char.isDigit then some ⟨none, false, r⟩
            else some ⟨none, false, Level.trace.rank⟩
        | _, known =>
            (rankAfter? rest).map fun r => ⟨if known.isSome then none else some target, false, r⟩

def specificity (r : LogRule) : Nat :=
  match r.target with
  | none => 0
  | some t => t.length + 1

def covers (r : LogRule) (path : List Char) : Bool :=
  !r.conditional &&
    match r.target with
    | none => true
    | some t => t.isPrefixOf path

end LogRule

abbrev LogFilter := List LogRule

namespace LogFilter

def pieces (text : String) : List (List Char) :=
  (Text.split ',' text.toList).filter (! ·.isEmpty)

def orErrors (rules : List LogRule) : LogFilter :=
  if rules.isEmpty then [⟨none, false, Level.error.rank⟩] else rules

def ofText? (text : String) : Option LogFilter :=
  ((pieces text).mapM LogRule.ofText?).map orErrors

def ofText (text : String) : LogFilter :=
  orErrors ((pieces text).filterMap LogRule.ofText?)

def sharper (best : Option LogRule) (r : LogRule) : Option LogRule :=
  match best with
  | none => some r
  | some b => if b.specificity ≤ r.specificity then some r else best

def deciding? (f : LogFilter) (c : Component) : Option LogRule :=
  (f.filter (·.covers c.path.toList)).foldl sharper none

def listener (f : LogFilter) : Listener := fun level c =>
  match f.deciding? c with
  | some r => level.rank ≤ r.rank
  | none => false

def choose (variableText : Option String) (settingsText : String) : LogFilter :=
  (variableText.bind ofText?).getD (ofText settingsText)

end LogFilter

end IndexRefresh
