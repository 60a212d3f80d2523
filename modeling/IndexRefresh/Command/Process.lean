import IndexRefresh.Disk

namespace IndexRefresh

inductive ExitStatus where
  | code (n : Nat)
  | signal (n : Nat)
  deriving DecidableEq, Repr

namespace ExitStatus

def isSuccess (s : ExitStatus) : Bool :=
  s == .code 0

def signalNames : List (Nat × String) :=
  [(1, "SIGHUP"), (2, "SIGINT"), (3, "SIGQUIT"), (4, "SIGILL"), (5, "SIGTRAP"), (6, "SIGABRT"),
   (7, "SIGBUS"), (8, "SIGFPE"), (9, "SIGKILL"), (10, "SIGUSR1"), (11, "SIGSEGV"),
   (12, "SIGUSR2"), (13, "SIGPIPE"), (14, "SIGALRM"), (15, "SIGTERM"), (16, "SIGSTKFLT"),
   (17, "SIGCHLD"), (18, "SIGCONT"), (19, "SIGSTOP"), (20, "SIGTSTP"), (21, "SIGTTIN"),
   (22, "SIGTTOU"), (23, "SIGURG"), (24, "SIGXCPU"), (25, "SIGXFSZ"), (26, "SIGVTALRM"),
   (27, "SIGPROF"), (28, "SIGWINCH"), (29, "SIGIO"), (30, "SIGPWR"), (31, "SIGSYS")]

def text : ExitStatus → String
  | .code n => s!"exit status: {n}"
  | .signal n =>
      match signalNames.lookup n with
      | some name => s!"signal: {n} ({name})"
      | none => s!"signal: {n}"

end ExitStatus

structure Invocation where
  program : String
  args : List String
  directory : Option String
  input : Option String
  deriving DecidableEq, Repr

namespace Invocation

def texts (i : Invocation) : List String :=
  i.program :: i.args ++ i.directory.toList

def hasNull (i : Invocation) : Bool :=
  i.texts.any fun t => t.toList.contains (Char.ofNat 0)

def nullFound : OsError :=
  .other "nul byte found in provided data"

def obstacle? (i : Invocation) (d : Disk) : Option OsError :=
  if i.hasNull then some nullFound
  else
    match i.directory with
    | none => none
    | some path =>
        match d.find? path with
        | .error e => some e
        | .ok none => some .notFound
        | .ok (some (.file _)) => some .notDirectory
        | .ok (some .directory) => none

end Invocation

structure Finished where
  status : ExitStatus
  output : ByteArray
  errors : String

structure Completion where
  written : Except OsError Unit
  finished : Except OsError Finished

structure Processes (m : Type → Type) where
  run : Invocation → m (Except OsError Completion)

end IndexRefresh
