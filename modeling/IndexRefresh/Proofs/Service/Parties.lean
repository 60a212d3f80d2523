import IndexRefresh.Proofs.Service.Admission
import Mathlib.Data.List.Nodup

namespace IndexRefresh

def Client.isJob : Client → Bool
  | .caller => false
  | .job _ => true

namespace Service

def party? (s : Service) (i : Nat) : Option Bool :=
  (s.watchOf? i).map (·.client.isJob)

structure Watchful (s : Service) : Prop where
  single : (s.watches.map Watch.run).Nodup
  started : ∀ w ∈ s.watches, w.run < s.runs.length

variable {limits : Limits} {threshold : UInt64} {history : List Deed} {s t : Service} {d : Deed}
  {w : Watch} {m : Moment} {i j : Nat} {c : Conclusion}

theorem watchful_spawn (h : s.Watchful) (m : Moment) (repository : String) (permit : Permit)
    (client : Client) : (s.spawn m repository permit client).Watchful where
  single := by
    have hfresh : s.runs.length ∉ s.watches.map Watch.run := by
      intro hmem
      obtain ⟨w, hw, heq⟩ := List.mem_map.1 hmem
      exact Nat.lt_irrefl _ (heq ▸ h.started w hw)
    simpa [spawn, List.nodup_append] using
      ⟨h.single, fun w hw heq => hfresh (heq ▸ List.mem_map_of_mem hw)⟩
  started w hw := by
    have hlength : (s.spawn m repository permit client).runs.length = s.runs.length + 1 := by
      simp [spawn]
    rw [hlength]
    rcases List.mem_append.1 hw with hw | hw
    · exact Nat.lt_succ_of_lt (h.started w hw)
    · rw [List.mem_singleton.1 hw]
      exact Nat.lt_succ_self _

theorem Watchful.of_sublist (h : s.Watchful)
    (hsub : (t.watches.map Watch.run).Sublist (s.watches.map Watch.run))
    (hle : s.runs.length ≤ t.runs.length) : t.Watchful where
  single := h.single.sublist hsub
  started w hw := by
    obtain ⟨v, hv, heq⟩ := List.mem_map.1 (hsub.subset (List.mem_map_of_mem hw))
    rw [← heq]
    exact Nat.lt_of_lt_of_le (h.started v hv) hle

theorem Effect.watchful (he : Effect s d t) (h : s.Watchful) : t.Watchful := by
  have hle := he.length_le
  cases he with
  | decline => exact h
  | accept =>
      apply watchful_spawn
      exact ⟨h.single, h.started⟩
  | enter => exact ⟨h.single, h.started⟩
  | launch =>
      apply watchful_spawn
      exact ⟨h.single, h.started⟩
  | work =>
      refine h.of_sublist ?_ hle
      rw [watches_putRun]
  | @expire w r hw hr hlive =>
      refine h.of_sublist ?_ hle
      have hsame : (Watch.run ∘ fun v : Watch =>
          if v.run = w.run then { v with gaveUp := true } else v) = Watch.run := by
        funext v
        dsimp only [Function.comp]
        split <;> rfl
      rw [List.map_map, hsame]
  | settle =>
      refine h.of_sublist ?_ hle
      rw [watches_conclude]
      exact List.erase_sublist.map _
  | abandon => exact h.of_sublist (List.filter_sublist.map _) hle
  | sweep => exact ⟨h.single, h.started⟩

theorem Regulated.watchful (h : Regulated limits threshold history s) : s.Watchful := by
  induction h with
  | new => exact ⟨List.nodup_nil, fun w hw => by cases hw⟩
  | step _ hs ih => exact hs.effect.watchful ih
  | setCooldown _ ih => exact ⟨ih.single, ih.started⟩

theorem Watchful.eq_of_run_eq (h : s.Watchful) {v : Watch} (hv : v ∈ s.watches)
    (hw : w ∈ s.watches) (heq : v.run = w.run) : v = w :=
  List.inj_on_of_nodup_map h.single hv hw heq

theorem Watchful.watchOf?_eq (h : s.Watchful) (hw : w ∈ s.watches) :
    s.watchOf? w.run = some w := by
  cases hfind : s.watchOf? w.run with
  | none =>
      have hno := List.find?_eq_none.1 hfind w hw
      simp at hno
  | some v =>
      have hrun : v.run = w.run := by simpa using List.find?_some hfind
      rw [h.eq_of_run_eq (List.mem_of_find?_eq_some hfind) hw hrun]

theorem watchOf?_eq_none (h : ∀ w ∈ s.watches, w.run ≠ i) : s.watchOf? i = none :=
  List.find?_eq_none.2 fun w hw => by simpa using h w hw

theorem party?_congr (h : t.watches = s.watches) (i : Nat) : t.party? i = s.party? i := by
  unfold party? watchOf?
  rw [h]

theorem party?_spawn_self (h : s.Watchful) (m : Moment) (repository : String) (permit : Permit)
    (client : Client) :
    (s.spawn m repository permit client).party? s.runs.length = some client.isJob := by
  have hnone : s.watchOf? s.runs.length = none :=
    watchOf?_eq_none fun w hw => Nat.ne_of_lt (h.started w hw)
  unfold watchOf? at hnone
  simp [party?, watchOf?, spawn, hnone]

theorem party?_spawn_of_lt (hi : i < s.runs.length) (m : Moment) (repository : String)
    (permit : Permit) (client : Client) :
    (s.spawn m repository permit client).party? i = s.party? i := by
  have hne : ¬s.runs.length = i := by omega
  simp [party?, watchOf?, spawn, hne]

theorem party?_conclude_self (h : s.Watchful) (hw : w ∈ s.watches) :
    (s.conclude m w c).value.1.party? w.run = none := by
  have hnodup : s.watches.Nodup := List.Nodup.of_map _ h.single
  have hnone : (s.conclude m w c).value.1.watchOf? w.run = none := by
    apply watchOf?_eq_none
    rw [watches_conclude]
    intro v hv heq
    rw [h.eq_of_run_eq (List.mem_of_mem_erase hv) hw heq] at hv
    exact hnodup.not_mem_erase hv
  rw [party?, hnone, Option.map_none]

theorem find?_erase_of_false {ws : List Watch} {p : Watch → Bool} (hp : p w = false) :
    (ws.erase w).find? p = ws.find? p := by
  induction ws with
  | nil => rfl
  | cons v ws ih =>
      rw [List.erase_cons]
      split
      · next heq =>
          have hvw : v = w := by simpa using heq
          rw [hvw, List.find?_cons, hp]
      · rw [List.find?_cons, List.find?_cons, ih]

theorem party?_conclude_of_ne (hne : w.run ≠ i) :
    (s.conclude m w c).value.1.party? i = s.party? i := by
  unfold party? watchOf?
  rw [watches_conclude, find?_erase_of_false (by simpa using hne)]

theorem party?_map {f : Watch → Watch} (hrun : ∀ w, (f w).run = w.run)
    (hclient : ∀ w, (f w).client = w.client) (ht : t.watches = s.watches.map f) (i : Nat) :
    t.party? i = s.party? i := by
  unfold party? watchOf?
  rw [ht, List.find?_map, Option.map_map]
  simp only [Function.comp_def, hrun, hclient]

theorem party?_abandon_of_ne (hne : j ≠ i) : (s.abandon i).party? j = s.party? j := by
  have hkept : (fun w : Watch => decide ((!(w.run == i && w.client == .caller)) = true ∧
      decide (w.run = j) = true)) = fun w => decide (w.run = j) := by
    funext w
    by_cases hj : w.run = j
    · simp [hj, hne]
    · simp [hj]
  unfold party? watchOf? abandon
  rw [List.find?_filter, hkept]

theorem party?_abandon_self (h : s.Watchful) :
    (s.abandon i).party? i = (s.party? i).filter id := by
  have left {w : Watch} (hw : w ∈ (s.abandon i).watches) (hi : w.run = i) :
      w ∈ s.watches ∧ w.client ≠ .caller := by
    obtain ⟨hin, hkept⟩ := List.mem_filter.1 hw
    exact ⟨hin, by simpa [hi] using hkept⟩
  unfold party?
  cases hfind : s.watchOf? i with
  | none =>
      have hnone : (s.abandon i).watchOf? i = none := by
        apply watchOf?_eq_none
        intro w hw hi
        have hno := List.find?_eq_none.1 hfind w (left hw hi).1
        exact hno (by simpa using hi)
      rw [hnone]
      rfl
  | some w =>
      have hin := List.mem_of_find?_eq_some hfind
      obtain rfl : w.run = i := by simpa using List.find?_some hfind
      cases hclient : w.client with
      | caller =>
          have hnone : (s.abandon w.run).watchOf? w.run = none := by
            apply watchOf?_eq_none
            intro v hv hi
            obtain ⟨hvin, hother⟩ := left hv hi
            rw [h.eq_of_run_eq hvin hin hi] at hother
            exact hother hclient
          rw [hnone, Option.map_some, hclient]
          rfl
      | job id =>
          have hkept : w ∈ (s.abandon w.run).watches :=
            List.mem_filter.2 ⟨hin, by simp [hclient]⟩
          have habandoned : (s.abandon w.run).Watchful :=
            h.of_sublist (List.filter_sublist.map _) (Nat.le_refl _)
          rw [habandoned.watchOf?_eq hkept, Option.map_some, hclient]
          rfl

end Service

end IndexRefresh
