namespace IndexRefresh.Counting

variable {α : Type}

theorem countP_set_add {p : α → Bool} {xs : List α} {i : Nat} {a : α} (h : xs[i]? = some a)
    (b : α) :
    (xs.set i b).countP p + (if p a then 1 else 0) = xs.countP p + (if p b then 1 else 0) := by
  induction xs generalizing i with
  | nil => simp at h
  | cons x xs ih =>
      cases i with
      | zero =>
          have hx : x = a := by simpa using h
          simp only [List.set_cons_zero, List.countP_cons, hx]
          omega
      | succ i =>
          have := ih (i := i) (by simpa using h)
          simp only [List.set_cons_succ, List.countP_cons]
          omega

theorem countP_erase_add [BEq α] [LawfulBEq α] {p : α → Bool} {xs : List α} {a : α} (h : a ∈ xs) :
    (xs.erase a).countP p + (if p a then 1 else 0) = xs.countP p := by
  rw [(List.perm_cons_erase h).countP_eq, List.countP_cons]

theorem eq_of_countP_le_one {p : α → Bool} {xs : List α} (h : xs.countP p ≤ 1) {i j : Nat}
    {a b : α} (hi : xs[i]? = some a) (hj : xs[j]? = some b) (ha : p a = true) (hb : p b = true) :
    i = j := by
  induction xs generalizing i j with
  | nil => simp at hi
  | cons x xs ih =>
      have none_of (k : Nat) (c : α) (hx : p x = true) (hk : xs[k]? = some c) (hc : p c = true) :
          False := by
        have := List.countP_pos_iff.2 ⟨c, List.mem_of_getElem? hk, hc⟩
        simp only [List.countP_cons, hx, if_true] at h
        omega
      cases i with
      | zero =>
          cases j with
          | zero => rfl
          | succ j =>
              have hx : x = a := by simpa using hi
              exact (none_of j b (hx ▸ ha) (by simpa using hj) hb).elim
      | succ i =>
          cases j with
          | zero =>
              have hx : x = b := by simpa using hj
              exact (none_of i a (hx ▸ hb) (by simpa using hi) ha).elim
          | succ j =>
              have hle : xs.countP p ≤ 1 := by
                simp only [List.countP_cons] at h
                omega
              exact congrArg (· + 1) (ih hle (by simpa using hi) (by simpa using hj))

theorem eq_of_nodup_filterMap {β : Type} {f : α → Option β} {xs : List α}
    (h : (xs.filterMap f).Nodup) {a b : α} {c : β} (ha : a ∈ xs) (hb : b ∈ xs)
    (hfa : f a = some c) (hfb : f b = some c) : a = b := by
  induction xs with
  | nil => cases ha
  | cons x xs ih =>
      have tail : (xs.filterMap f).Nodup := by
        rw [List.filterMap_cons] at h
        split at h
        · exact h
        · exact (List.nodup_cons.1 h).2
      have fresh (y : α) (hy : y ∈ xs) (hfx : f x = some c) (hfy : f y = some c) : False := by
        rw [List.filterMap_cons_some hfx] at h
        exact (List.nodup_cons.1 h).1 (List.mem_filterMap.2 ⟨y, hy, hfy⟩)
      rcases List.mem_cons.1 ha with rfl | hain
      · rcases List.mem_cons.1 hb with rfl | hbin
        · rfl
        · exact (fresh b hbin hfa hfb).elim
      · rcases List.mem_cons.1 hb with rfl | hbin
        · exact (fresh a hain hfb hfa).elim
        · exact ih tail hain hbin

theorem eq_of_mem_of_countP_le_one {p : α → Bool} {xs : List α} (h : xs.countP p ≤ 1) {a b : α}
    (ha : a ∈ xs) (hb : b ∈ xs) (hpa : p a = true) (hpb : p b = true) : a = b := by
  obtain ⟨i, hi⟩ := List.mem_iff_getElem?.1 ha
  obtain ⟨j, hj⟩ := List.mem_iff_getElem?.1 hb
  have hij := eq_of_countP_le_one h hi hj hpa hpb
  rw [hij, hj] at hi
  exact (Option.some.inj hi).symm

end IndexRefresh.Counting
