namespace IndexRefresh

theorem forM_eq_ok {α ε : Type} {f : α → Except ε Unit} {xs : List α} :
    xs.forM f = .ok () ↔ ∀ x ∈ xs, f x = .ok () := by
  induction xs with
  | nil =>
      constructor
      · exact fun _ x hx => absurd hx List.not_mem_nil
      · exact fun _ => rfl
  | cons x xs ih =>
      change (f x >>= fun _ => xs.forM f) = .ok () ↔ _
      cases hx : f x with
      | error e =>
          constructor
          · intro h
            cases h
          · intro h
            exact absurd (hx.symm.trans (h x (List.mem_cons_self ..))) (by simp)
      | ok u =>
          change xs.forM f = .ok () ↔ _
          rw [ih]
          constructor
          · intro h y hy
            rcases List.mem_cons.1 hy with rfl | hy
            · exact hx
            · exact h y hy
          · exact fun h y hy => h y (List.mem_cons_of_mem _ hy)

theorem forM_eq_ok_or_error {α ε : Type} {f : α → Except ε Unit} {e : ε} {xs : List α}
    (h : ∀ x ∈ xs, f x = .ok () ∨ f x = .error e) : xs.forM f = .ok () ∨ xs.forM f = .error e := by
  induction xs with
  | nil => exact .inl rfl
  | cons x xs ih =>
      change (f x >>= fun _ => xs.forM f) = .ok () ∨ (f x >>= fun _ => xs.forM f) = .error e
      rcases h x (List.mem_cons_self ..) with hx | hx
      · rw [hx]
        exact ih fun y hy => h y (List.mem_cons_of_mem _ hy)
      · rw [hx]
        exact .inr rfl

theorem exists_of_bind_eq_ok {α β ε : Type} {x : Except ε α} {f : α → Except ε β} {b : β}
    (h : x >>= f = .ok b) : ∃ a, x = .ok a ∧ f a = .ok b := by
  cases x with
  | error e => cases h
  | ok a => exact ⟨a, rfl, h⟩

theorem foldlM_eq_self {α β ε : Type} {f : β → α → Except ε β} {xs : List α} {b : β}
    (h : ∀ x ∈ xs, f b x = .ok b) : xs.foldlM f b = .ok b := by
  induction xs with
  | nil => rfl
  | cons x xs ih =>
      rw [List.foldlM_cons, h x (List.mem_cons_self ..)]
      exact ih fun y hy => h y (List.mem_cons_of_mem _ hy)

theorem foldlM_invariant {α β ε : Type} {f : β → α → Except ε β} {P : β → Prop} {xs : List α}
    {b c : β} (hstep : ∀ b x c, x ∈ xs → P b → f b x = .ok c → P c)
    (h : xs.foldlM f b = .ok c) (hb : P b) : P c := by
  induction xs generalizing b with
  | nil =>
      cases h
      exact hb
  | cons x xs ih =>
      rw [List.foldlM_cons] at h
      cases hx : f b x with
      | error e =>
          rw [hx] at h
          cases h
      | ok a =>
          rw [hx] at h
          exact ih (fun b y c hy => hstep b y c (List.mem_cons_of_mem _ hy)) h
            (hstep b x a (List.mem_cons_self ..) hb hx)

theorem exists_foldlM {α β ε : Type} {f : β → α → Except ε β} {P : β → Prop} {R : β → α → Prop}
    {xs : List α} {b : β}
    (hstep : ∀ b x, x ∈ xs → P b → ∃ c, f b x = .ok c ∧ P c ∧ R c x ∧ ∀ y, R b y → R c y)
    (hb : P b) : ∃ c, xs.foldlM f b = .ok c ∧ ∀ x ∈ xs, R c x := by
  have hall : ∃ c, xs.foldlM f b = .ok c ∧ (∀ x ∈ xs, R c x) ∧ ∀ y, R b y → R c y := by
    induction xs generalizing b with
    | nil => exact ⟨b, rfl, fun x hx => absurd hx List.not_mem_nil, fun _ h => h⟩
    | cons x xs ih =>
        obtain ⟨a, hx, ha, hdone, hkept⟩ := hstep b x (List.mem_cons_self ..) hb
        obtain ⟨c, hc, hall, hlater⟩ :=
          ih (fun b y hy => hstep b y (List.mem_cons_of_mem _ hy)) ha
        refine ⟨c, ?_, fun y hy => ?_, fun y hy => hlater y (hkept y hy)⟩
        · rw [List.foldlM_cons, hx]
          exact hc
        · rcases List.mem_cons.1 hy with rfl | hy
          · exact hlater y hdone
          · exact hall y hy
  obtain ⟨c, hc, hdone, -⟩ := hall
  exact ⟨c, hc, hdone⟩

theorem foldlM_related {α β ε : Type} {f : β → α → Except ε β} {R : β → β → Prop} {xs : List α}
    {b c : β}
    (hstep : ∀ b c x, x ∈ xs → R b c →
      (∃ b' c', f b x = .ok b' ∧ f c x = .ok c' ∧ R b' c') ∨ ∃ e, f b x = .error e ∧ f c x = .error e)
    (h : R b c) :
    (∃ b' c', xs.foldlM f b = .ok b' ∧ xs.foldlM f c = .ok c' ∧ R b' c') ∨
      ∃ e, xs.foldlM f b = .error e ∧ xs.foldlM f c = .error e := by
  induction xs generalizing b c with
  | nil => exact .inl ⟨b, c, rfl, rfl, h⟩
  | cons x xs ih =>
      rw [List.foldlM_cons, List.foldlM_cons]
      rcases hstep b c x (List.mem_cons_self ..) h with ⟨b', c', hb, hc, hr⟩ | ⟨e, hb, hc⟩
      · rw [hb, hc]
        exact ih (fun b c y hy => hstep b c y (List.mem_cons_of_mem _ hy)) hr
      · rw [hb, hc]
        exact .inr ⟨e, rfl, rfl⟩

section Run

variable {ε ω α β : Type} {x : ExceptT ε (StateM ω) α} {f : α → ExceptT ε (StateM ω) β} {w u : ω}

theorem run_bind_of_ok {a : α} (h : x.run w = (.ok a, u)) : (x >>= f).run w = (f a).run u := by
  rw [ExceptT.run_bind]
  simp only [bind, StateT.bind, h]

theorem run_bind_of_error {e : ε} (h : x.run w = (.error e, u)) :
    (x >>= f).run w = (.error e, u) := by
  rw [ExceptT.run_bind]
  simp only [bind, StateT.bind, h]
  rfl

theorem run_lift {y : StateM ω α} {a : α} (h : y.run w = (a, u)) :
    (ExceptT.lift y : ExceptT ε (StateM ω) α).run w = (.ok a, u) := by
  change (Except.ok (y.run w).1, (y.run w).2) = _
  rw [h]

end Run

end IndexRefresh
