import IndexRefresh.Ledger

namespace IndexRefresh

structure Sweep where
  interval : Duration
  due : Duration
  deriving DecidableEq, Repr

namespace Sweep

def start (now interval : Duration) : Sweep :=
  ⟨max interval 1, now + max interval 1⟩

def dueCount (s : Sweep) (time : Duration) : Nat :=
  if time < s.due then 0 else (time - s.due) / s.interval + 1

def upTo (s : Sweep) (time : Duration) (l : Ledger) : Traced (Ledger × Sweep) :=
  let n := s.dueCount time
  let swept := (List.range n).foldl
    (fun (t : Traced Ledger) k =>
      let next := t.value.evict (s.due + k * s.interval)
      ⟨next.value.1, t.events ++ next.events⟩)
    (.quiet l)
  swept.map fun l => (l, { s with due := s.due + n * s.interval })

/-- One sweep after time jumped; a sweep that comes more than five milliseconds late puts off those
after it. -/
def catchUp (s : Sweep) (now : Duration) (l : Ledger) : Traced (Ledger × Sweep) :=
  if now < s.due then .quiet (l, s)
  else
    let next := if s.due + .ofMillis 5 < now then now + s.interval else s.due + s.interval
    (l.evict now).map fun p => (p.1, { s with due := next })

end Sweep

/-- When somebody who sleeps on a clock of whole milliseconds wakes up. -/
def Duration.wakeAfter (now d : Duration) : Duration :=
  now + .ofMillis ((now + d + 999999) / 1000000 - now / 1000000)

end IndexRefresh
