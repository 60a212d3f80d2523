import IndexRefresh.Duration
import IndexRefresh.Settings.Basic

namespace IndexRefresh

structure Limits where
  timeout : Duration
  cooldown : Duration
  jobMaxAge : Duration
  evictionInterval : Duration
  deriving DecidableEq, Repr

/-- Finished jobs are swept at most once a second. -/
def Limits.ofSettings (s : UpdateSettings) : Limits where
  timeout := .ofSeconds s.timeoutSecs.toNat
  cooldown := .ofSeconds s.cooldownSecs.toNat
  jobMaxAge := .ofSeconds s.jobMaxAgeSecs.toNat
  evictionInterval := .ofSeconds (max s.evictionIntervalSecs.toNat 1)

end IndexRefresh
