import IndexRefresh.CommandLine.Program

namespace IndexRefresh.Machine

def osError (e : IO.Error) : OsError :=
  match e with
  | .noFileOrDirectory .. => .notFound
  | .resourceVanished .. => .brokenPipe
  | .alreadyExists .. => .exists
  | .inappropriateType .. => .isDirectory
  | .permissionDenied .. => .denied
  | e => .other (toString e)

def attempt {α : Type} (action : IO α) : IO (Except OsError α) := do
  match ← action.toBaseIO with
  | .ok a => return .ok a
  | .error e => return .error (osError e)

def files : Files IO where
  read path := attempt (IO.FS.readBinFile path)
  write path content := attempt (IO.FS.writeBinFile path content)
  rename source target := attempt (IO.FS.rename source target)
  createDirectory path := attempt (IO.FS.createDirAll path)

def processes : Processes IO where
  run _ := return .error .notFound

def logLine (e : Event) : String :=
  let field (f : String × FieldValue) : String := " " ++ f.1 ++ "=" ++
    match f.2 with
    | .number n => toString n
    | .flag b => toString b
    | .text s => s
  e.level.name ++ " " ++ e.component.path ++ ": " ++ e.message ++
    String.join (e.fields.map field)

def wire : GitHub.Wire IO where
  exchange _ := return none
  emit e := IO.eprintln (logLine e)
  pause _ := return none

def words (path : String) : IO (List String) := do
  match ← files.read path with
  | .error _ => return []
  | .ok bytes =>
      let text := (String.fromUTF8? bytes).getD ""
      return (Text.split '\n' text.toList).flatMap fun line =>
        (Text.split ' ' line).map String.ofList

def epochSeconds : IO Nat := do
  let stat ← words "/proc/stat"
  let up ← words "/proc/uptime"
  let number (w : Option String) : Nat :=
    (w.bind fun w => Text.natOf? (w.toList.takeWhile Char.isDigit)).getD 0
  return number (stat.dropWhile (· != "btime"))[1]? + number up.head?

def moment : IO Moment := do
  let nanos ← IO.monoNanosNow
  return ⟨nanos, .ofEpoch (← epochSeconds) (nanos % 1000000000)⟩

def waitUntil (time : Duration) : IO Unit := do
  let now ← IO.monoNanosNow
  IO.sleep (Duration.millis (time - now + 999999)).toUInt32

def draws : IO (List String) := do
  let seconds ← epochSeconds
  (List.range 16).mapM fun _ => do
    return Ledger.jobId seconds (← IO.rand 0 0xFFFFF)

def host : Host IO where
  files := files
  processes := processes
  wire := wire
  moment := moment
  waitUntil := waitUntil
  draws := draws
  print := IO.println
  note := IO.eprintln

def assignment? (cs : List Char) : Option (String × String) :=
  (Text.cutAt '=' cs).map fun p => (String.ofList p.1, String.ofList p.2)

def environment : IO Environment := do
  match ← files.read "/proc/self/environ" with
  | .error _ => return []
  | .ok bytes =>
      let text := (String.fromUTF8? bytes).getD ""
      return (Text.split (Char.ofNat 0) text.toList).filterMap assignment?

end IndexRefresh.Machine

open IndexRefresh in
def main (args : List String) : IO UInt32 := do
  let code ← CommandLine.run Machine.host (← Machine.environment) args
  return code.toUInt32
