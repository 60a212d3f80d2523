import IndexRefresh.Text.Cut
import IndexRefresh.Text.Numeral

namespace IndexRefresh.CommandLine

inductive Action where
  | update (repository : String) (background : Bool) (pollMs : UInt64)
  | list
  | show (repository : String)
  deriving DecidableEq, Repr

structure Request where
  config : Option String
  logLevel : Option String
  metadataPath : Option String
  action : Action
  deriving DecidableEq, Repr

inductive Dismissal where
  | help
  | version
  | noArguments
  | noCommand
  | unknownCommand
  | unknownArgument
  | missingArgument
  | missingValue
  | malformedValue
  | unexpectedValue
  | repeated
  deriving DecidableEq, Repr

def Dismissal.exitCode : Dismissal → Nat
  | .help => 0
  | .version => 0
  | _ => 2

inductive Flag where
  | config
  | logLevel
  | metadataPath
  | background
  | pollMs
  | help
  | version
  deriving DecidableEq, Repr

namespace Flag

def takesValue : Flag → Bool
  | .config => true
  | .logLevel => true
  | .metadataPath => true
  | .pollMs => true
  | _ => false

def name : Flag → String
  | .config => "config"
  | .logLevel => "log-level"
  | .metadataPath => "metadata-path"
  | .background => "async"
  | .pollMs => "poll-interval-ms"
  | .help => "help"
  | .version => "version"

def letter? : Flag → Option Char
  | .config => some 'c'
  | .logLevel => some 'l'
  | .help => some 'h'
  | .version => some 'V'
  | _ => none

def accepts (f : Flag) (value : String) : Bool :=
  match f with
  | .pollMs => (Text.unsigned? value.toList).any (· < UInt64.size)
  | _ => true

end Flag

inductive Scope where
  | program
  | update
  | list
  | show
  deriving DecidableEq, Repr

namespace Scope

def flags : Scope → List Flag
  | .program => [.config, .logLevel, .metadataPath, .help, .version]
  | .update => [.background, .pollMs, .config, .logLevel, .metadataPath, .help]
  | .list => [.config, .logLevel, .metadataPath, .help]
  | .show => [.config, .logLevel, .metadataPath, .help]

def named? (s : Scope) (name : String) : Option Flag :=
  s.flags.find? (·.name = name)

def lettered? (s : Scope) (c : Char) : Option Flag :=
  s.flags.find? (·.letter? = some c)

def takesRepository : Scope → Bool
  | .update => true
  | .show => true
  | _ => false

def command? (word : String) : Option Scope :=
  [("update", Scope.update), ("list", .list), ("show", .show)].lookup word

def helpWord : String :=
  "help"

end Scope

/-- The options given so far in one scope. One whose value may still come is open; after a double
dash all arguments are words. -/
structure Given where
  options : List (Flag × String)
  repository : Option String
  opened : Option (Flag × Option String)
  onlyWords : Bool
  deriving DecidableEq, Repr

namespace Given

def none : Given :=
  ⟨[], .none, .none, false⟩

def value? (g : Given) (f : Flag) : Option String :=
  g.options.lookup f

def awaitsValue (g : Given) : Bool :=
  match g.opened with
  | some (_, .none) => true
  | _ => false

def enter (g : Given) (f : Flag) (value : String) : Except Dismissal Given :=
  if (g.value? f).isSome then .error .repeated
  else if f.accepts value then .ok { g with options := (f, value) :: g.options }
  else .error .malformedValue

def close (g : Given) : Except Dismissal Given :=
  match g.opened with
  | .none => .ok g
  | some (_, .none) => .error .missingValue
  | some (f, some value) => { g with opened := .none }.enter f value

def raise (g : Given) (f : Flag) : Except Dismissal Given := do
  let g ← g.close
  match f with
  | .help => throw .help
  | .version => throw .version
  | _ => g.enter f "true"

def begin (g : Given) (f : Flag) (value : Option String) : Except Dismissal Given := do
  let g ← g.close
  match value with
  | some v => g.enter f v
  | .none => return { g with opened := some (f, .none) }

def long (g : Given) (s : Scope) (cs : List Char) : Except Dismissal Given :=
  let name := String.ofList (cs.takeWhile (· != '='))
  let value := (Text.cutAt '=' cs).map fun p => String.ofList p.2
  match s.named? name with
  | .none => .error .unknownArgument
  | some f =>
      if f.takesValue then g.begin f value
      else if value.isSome then .error .unexpectedValue
      else g.raise f

def short (g : Given) (s : Scope) : List Char → Except Dismissal Given
  | [] => .ok g
  | c :: cs =>
      match s.lettered? c with
      | .none => .error .unknownArgument
      | some f =>
          if f.takesValue then
            g.begin f (match cs with
              | [] => .none
              | '=' :: v => some (String.ofList v)
              | v => some (String.ofList v))
          else do short (← g.raise f) s cs

def word (g : Given) (s : Scope) (a : String) : Except Dismissal Given :=
  if s.takesRepository then
    if g.repository.isSome then .error .unknownArgument
    else do
      let g ← g.close
      return { g with repository := some a }
  else if s = .program then
    if g.onlyWords && ((Scope.command? a).isSome || a = Scope.helpWord) then .error .unknownArgument
    else .error .unknownCommand
  else .error .unknownArgument

def add (g : Given) (s : Scope) (a : String) : Except Dismissal Given :=
  if g.onlyWords then g.word s a
  else
    match a.toList with
    | ['-', '-'] => .ok { g with onlyWords := true }
    | '-' :: '-' :: cs => g.long s cs
    | '-' :: c :: cs => g.short s (c :: cs)
    | _ =>
        match g.opened with
        | some (f, .none) => .ok { g with opened := some (f, some a) }
        | _ => g.word s a

def ofList (s : Scope) (args : List String) : Except Dismissal Given := do
  let g ← args.foldlM (fun g a => g.add s a) none
  g.close

def isEmpty (g : Given) : Bool :=
  g.options.isEmpty && g.repository.isNone

end Given

def helpOn : List String → Dismissal
  | [] => .help
  | [name] =>
      if (Scope.command? name).isSome || name = Scope.helpWord then .help else .unknownCommand
  | _ => .unknownCommand

def splitCommand (g : Given) :
    List String → Except Dismissal (Given × Option (Scope × List String))
  | [] => .ok (g, none)
  | a :: rest =>
      if g.onlyWords || g.awaitsValue then do splitCommand (← g.add .program a) rest
      else if a = Scope.helpWord then .error (helpOn rest)
      else
        match Scope.command? a with
        | some command => .ok (g, some (command, rest))
        | none => do splitCommand (← g.add .program a) rest

def standardPollMs : UInt64 :=
  1000

def pollMs (g : Given) : UInt64 :=
  match (g.value? .pollMs).bind fun v => Text.unsigned? v.toList with
  | some n => n.toUInt64
  | none => standardPollMs

def action? (g : Given) : Scope → Option Action
  | .program => none
  | .update =>
      g.repository.map fun r => .update r (g.value? .background).isSome (pollMs g)
  | .list => some .list
  | .show => g.repository.map .show

namespace Request

/-- Reads arguments. An option given with the command wins over the same one before it. -/
def ofArguments (args : List String) : Except Dismissal Request := do
  match ← splitCommand .none args with
  | (program, none) =>
      let program ← program.close
      throw (if program.isEmpty then .noArguments else .noCommand)
  | (program, some (scope, rest)) =>
      let command ← Given.ofList scope rest
      let some action := action? command scope | throw .missingArgument
      let program ← program.close
      let option (f : Flag) : Option String := (command.value? f).or (program.value? f)
      return ⟨option .config, option .logLevel, option .metadataPath, action⟩

end Request

end IndexRefresh.CommandLine
