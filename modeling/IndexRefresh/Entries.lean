namespace IndexRefresh

abbrev Entries (α : Type) := List (String × α)

namespace Entries

variable {α : Type}

def put (key : String) (value : α) : Entries α → Entries α
  | [] => [(key, value)]
  | e :: es => if key = e.1 then (key, value) :: es else e :: put key value es

theorem lookup_cons (key : String) (e : String × α) (es : Entries α) :
    (e :: es).lookup key = if key = e.1 then some e.2 else es.lookup key := by
  rcases e with ⟨k, v⟩
  by_cases h : key = k
  · subst h; simp
  · have hb : (key == k) = false := by simpa using h
    simp [List.lookup_cons, hb, h]

@[simp] theorem lookup_put_self (key : String) (value : α) (es : Entries α) :
    (put key value es).lookup key = some value := by
  induction es with
  | nil => simp [put]
  | cons e es ih =>
      simp only [put]
      split
      · simp
      · next hne => rw [lookup_cons, if_neg hne, ih]

theorem lookup_put_of_ne {key other : String} (value : α) (es : Entries α)
    (hne : ¬other = key) : (put key value es).lookup other = es.lookup other := by
  induction es with
  | nil => rw [put, lookup_cons, if_neg hne]
  | cons e es ih =>
      simp only [put]
      split
      · next heq => rw [lookup_cons, if_neg hne, lookup_cons, ← heq, if_neg hne]
      · rw [lookup_cons, ih, lookup_cons]

end Entries

end IndexRefresh
