import IndexRefresh.Settings.Basic

namespace IndexRefresh.GitHub

structure Access where
  apiUrl : String
  token : Option String
  timeoutSecs : UInt64
  attempts : UInt32
  initialBackoffMs : Nat
  deriving DecidableEq, Repr

namespace Access

def firstBackoffMs : Nat :=
  500

def ofSettings (s : GitHubSettings) : Access :=
  ⟨s.apiUrl, s.token, s.timeoutSecs, max s.maxRetries 1, firstBackoffMs⟩

def standard : Access :=
  .ofSettings .standard

end Access

end IndexRefresh.GitHub
