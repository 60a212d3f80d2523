namespace IndexRefresh

def addCounter? (a b : UInt64) : Option UInt64 :=
  if a.toNat + b.toNat < UInt64.size then some (a + b) else none

theorem toNat_of_addCounter? {a b c : UInt64} (h : addCounter? a b = some c) :
    c.toNat = a.toNat + b.toNat := by
  unfold addCounter? at h
  split at h
  · next hlt =>
      cases h
      rw [UInt64.toNat_add]
      exact Nat.mod_eq_of_lt hlt
  · cases h

theorem addCounter?_eq_none_iff {a b : UInt64} :
    addCounter? a b = none ↔ UInt64.size ≤ a.toNat + b.toNat := by
  unfold addCounter?
  split <;> simp_all

def cutSub (a b : UInt64) : UInt64 :=
  if b ≤ a then a - b else 0

def overflowText : String :=
  "attempt to add with overflow"

end IndexRefresh
