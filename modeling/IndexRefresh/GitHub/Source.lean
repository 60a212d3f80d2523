import IndexRefresh.Event
import IndexRefresh.GitHub.Access
import IndexRefresh.GitHub.Link
import IndexRefresh.Http.Message
import IndexRefresh.Json.Reader
import IndexRefresh.Repository.Change
import IndexRefresh.Update.Failure

namespace IndexRefresh.GitHub

structure CommitPage where
  sha : String
  message : String
  deriving DecidableEq, Repr

structure ListedFile where
  filename : String
  status : String
  previousFilename : Option String
  deriving DecidableEq, Repr

structure ComparePage where
  totalCommits : UInt32
  files : List ListedFile
  deriving DecidableEq, Repr

namespace CommitPage

def message? (v : Json) : Option String := do
  let fields ← Json.fields? ["message"] v
  Json.orDefault fields "message" ""

def ofJson? (v : Json) : Option CommitPage := do
  let fields ← Json.fields? ["sha", "commit"] v
  return {
    sha := ← Json.required fields "sha"
    message := ← (fields.lookup "commit").bind message? }

end CommitPage

def ListedFile.ofJson? (v : Json) : Option ListedFile := do
  let fields ← Json.fields? ["filename", "status", "previous_filename"] v
  return {
    filename := ← Json.required fields "filename"
    status := ← Json.required fields "status"
    previousFilename := ← Json.optional fields "previous_filename" }

namespace ComparePage

def files? (fields : List (String × Json)) : Option (List ListedFile) :=
  match fields.lookup "files" with
  | none => some []
  | some (.arr vs) => vs.mapM ListedFile.ofJson?
  | some _ => none

def ofJson? (v : Json) : Option ComparePage := do
  let fields ← Json.fields? ["total_commits", "files"] v
  return {
    totalCommits := ← Json.orDefault fields "total_commits" 0
    files := ← files? fields }

end ComparePage

def kindOf? (status : String) : Option ChangeKind :=
  if status = "added" then some .added
  else if status = "removed" then some .deleted
  else if status = "renamed" then some .renamed
  else if status = "unchanged" then none
  else some .modified

def isKnownStatus (status : String) : Bool :=
  ["added", "removed", "renamed", "modified", "changed", "copied", "unchanged"].contains status

namespace ListedFile

def changed? (f : ListedFile) : Option ChangedFile :=
  (kindOf? f.status).map fun kind => ⟨f.filename, kind, f.previousFilename⟩

end ListedFile

/-- The way to the service: one exchange, the log, and the pause after a failed attempt, none when
the patience is used up. -/
structure Wire (m : Type → Type) where
  exchange : Http.Request → m (Option Http.Response)
  emit : Event → m Unit
  pause : Nat → m (Option Nat)

structure Source (m : Type → Type) where
  access : Access
  wire : Wire m

namespace Source

def userAgent : String :=
  "reposync/0.3.0"

def fileLimit : Nat :=
  300

def pageSize : Nat :=
  100

def pageLimit : Nat :=
  30

def unsent : Fault :=
  .http "the request could not be carried out"

def unreadable : Fault :=
  .serialization "the answer is not the expected document"

def event (level : Level) (message : String) (fields : List (String × FieldValue)) : Event :=
  ⟨level, .github, message, fields⟩

variable {m : Type → Type} [Monad m]

def headers (access : Access) : List (String × String) :=
  [("accept", "application/vnd.github+json"), ("user-agent", userAgent)] ++
    match access.token with
    | some token => [("authorization", "Bearer " ++ token)]
    | none => []

def request? (access : Access) (url : String) : Option Http.Request :=
  let headers := headers access
  if headers.all (fun h => Http.isHeaderValue h.2) && access.timeoutSecs != 0 then
    (Http.Url.ofText? url).map fun u => ⟨u, headers⟩
  else none

def check (url : String) (r : Http.Response) : Except Fault Unit :=
  let shown := "HTTP " ++ Http.statusText r.status ++ ": " ++ r.content?.getD ""
  if r.status = 404 then .error (.notFound url)
  else if (500 ≤ r.status ∧ r.status < 600) ∨ r.status = 429 then .error (.http shown)
  else if r.isSuccess then .ok ()
  else .error (.other ("GitHub returned " ++ shown))

def nextOf? (r : Http.Response) : Option String :=
  ((r.header? "link").filter Http.isPlainHeader).bind nextPage?

def getOnce {α : Type} (s : Source m) (decode : Json → Option α) (url : String) :
    ExceptT Fault m (α × Option String) := do
  let some request := request? s.access url | throw unsent
  let answer : m (Option Http.Response) := Http.follow s.wire.exchange Http.maxRedirects request
  let some r ← answer | throw unsent
  liftExcept (check url r)
  match (r.content?.bind Json.ofText?).bind decode with
  | some a => return (a, nextOf? r)
  | none => throw unreadable
where
  liftExcept (e : Except Fault Unit) : ExceptT Fault m Unit := ExceptT.mk (pure e)

def isTransient : Fault → Bool
  | .http _ => true
  | _ => false

def getWithin {α : Type} (s : Source m) (decode : Json → Option α) (url : String) (attempt : Nat) :
    Nat → ExceptT Fault m (α × Option String)
  | 0 => throw unsent
  | left + 1 => do
      s.wire.emit (event .debug "Calling GitHub API"
        [("url", .text url), ("attempt", .number attempt)])
      match ← ExceptT.lift (s.getOnce decode url).run with
      | .ok page => return page
      | .error f =>
          if !isTransient f then throw f
          else if left = 0 then
            s.wire.emit (event .error "GitHub request failed, giving up"
              [("url", .text url), ("error", .text f.message)])
            throw f
          else
            let some wait ← s.wire.pause attempt | throw f
            s.wire.emit (event .warn "GitHub request failed, retrying"
              [("url", .text url), ("error", .text f.message), ("retry_in_ms", .number wait)])
            getWithin s decode url (attempt + 1) left

def get {α : Type} (s : Source m) (decode : Json → Option α) (url : String) :
    ExceptT Fault m (α × Option String) :=
  s.getWithin decode url 1 (max s.access.attempts.toNat 1)

def repositoryUrl (access : Access) (owner repo : String) : String :=
  String.ofList (Text.dropEnd (· == '/') access.apiUrl.toList) ++ "/repos/" ++ owner ++ "/" ++ repo

def headUrl (access : Access) (owner repo branch : String) : String :=
  repositoryUrl access owner repo ++ "/commits/" ++ branch

def compareUrl (access : Access) (owner repo base head : String) : String :=
  repositoryUrl access owner repo ++ "/compare/" ++ base ++ "..." ++ head ++ "?per_page=" ++
    toString pageSize

def head (s : Source m) (owner repo branch : String) : ExceptT Fault m HeadCommit := do
  let (page, _) ← s.get CommitPage.ofJson? (headUrl s.access owner repo branch)
  return ⟨page.sha, page.message⟩

structure Listed where
  pages : Nat
  totalCommits : UInt32
  files : List ChangedFile
  atLimit : Bool
  deriving DecidableEq, Repr

namespace Listed

def empty : Listed :=
  ⟨0, 0, [], false⟩

/-- A page that lists as many files as the service ever does may hide some. -/
def add (l : Listed) (p : ComparePage) : Listed where
  pages := l.pages + 1
  totalCommits := max l.totalCommits p.totalCommits
  files := l.files ++ p.files.filterMap ListedFile.changed?
  atLimit := if p.files.isEmpty then l.atLimit else decide (fileLimit ≤ p.files.length)

end Listed

def noteUnknown (s : Source m) (f : ListedFile) : m Unit :=
  if isKnownStatus f.status then pure ()
  else s.wire.emit (event .debug "Unknown file status, treating as modified"
    [("path", .text f.filename), ("status", .text f.status)])

def walk (s : Source m) (base head : String) (l : Listed) (url : String) :
    Nat → ExceptT Fault m Listed
  | 0 => do
      s.wire.emit (event .warn "Stopped following compare pages"
        [("base", .text base), ("head", .text head), ("pages", .number l.pages)])
      return { l with atLimit := true }
  | left + 1 => do
      let (page, next) ← s.get ComparePage.ofJson? url
      page.files.forM fun f => (s.noteUnknown f : m Unit)
      match next with
      | none => return l.add page
      | some next => walk s base head (l.add page) next left

def compare (s : Source m) (owner repo base head : String) : ExceptT Fault m Comparison := do
  let l ← s.walk base head .empty (compareUrl s.access owner repo base head) pageLimit
  s.wire.emit (event .debug "Comparison listed"
    [("base", .text base), ("head", .text head), ("pages", .number l.pages),
     ("files", .number l.files.length), ("truncated", .flag l.atLimit)])
  return ⟨base, head, l.totalCommits, l.files, l.atLimit⟩

end Source

end IndexRefresh.GitHub
