import IndexRefresh.Proofs.Store.Files

namespace IndexRefresh

open DocumentStore (documentOf temporaryPath)

namespace FilePath

open Disk (names)

def EndsInName (path : String) : Prop :=
  ∃ pieces last, Text.split '/' path.toList = pieces ++ [last] ∧ isSelf last = false

variable {path : String}

theorem EndsInName.getLast?_ne (h : EndsInName path) : path.toList.getLast? ≠ some '/' := by
  obtain ⟨pieces, last, hpieces, hlast⟩ := h
  intro hslash
  obtain ⟨before, hbefore⟩ := List.getLast?_eq_some_iff.1 hslash
  rw [hbefore, Text.split_append_cons, Text.split_nil] at hpieces
  obtain ⟨-, hempty⟩ := List.append_inj' hpieces rfl
  rw [← List.singleton_inj.1 hempty] at hlast
  cases hlast

theorem EndsInName.names_eq (h : EndsInName path) :
    ∃ above name beside, names path = above ++ [name] ∧
      names (temporaryPath path) = above ++ [beside] ∧ (parent? path = none → above = []) := by
  obtain ⟨pieces, last, hpieces, hlast⟩ := h
  have hslash : '/' ∉ ".tmp".toList := by decide
  obtain ⟨before, ending, hs, happend⟩ := Text.split_append path.toList hslash
  obtain ⟨rfl, hending⟩ := List.append_inj' (hpieces.symm.trans hs) rfl
  obtain rfl : last = ending := List.singleton_inj.1 hending
  have htmp : isSelf (last ++ ".tmp".toList) = false := by
    cases last with
    | nil => rfl
    | cons c last =>
        cases last with
        | nil => simp [isSelf]
        | cons d last => simp [isSelf]
  refine ⟨steps pieces, String.ofList last, String.ofList (last ++ ".tmp".toList), ?_, ?_, ?_⟩
  · rw [names_eq_steps, hs, steps_append, steps_singleton hlast]
  · rw [temporaryPath, names_eq_steps, String.toList_append, happend, steps_append,
      steps_singleton htmp]
  · intro hnone
    unfold parent? at hnone
    rw [hs, List.reverse_append, List.reverse_singleton, List.singleton_append,
      List.dropWhile_cons_of_neg (by simp [hlast])] at hnone
    cases hrest : pieces.reverse with
    | nil =>
        rw [List.reverse_eq_nil_iff.1 hrest]
        rfl
    | cons next rest =>
        rw [hrest] at hnone
        dsimp only at hnone
        split at hnone <;> cases hnone

end FilePath

namespace Disk

theorem key_take_ne {xs : List String} {n : Nat} (h : n < xs.length) :
    key (xs.take n) ≠ key xs := by
  intro heq
  have hlt := length_key_take_lt h
  rw [heq] at hlt
  exact Nat.lt_irrefl _ hlt

variable {d : Disk} {path : String}

theorem exists_createDirectory
    (h : ∀ n, n < (names path).length → ∀ content,
      d.get? (key ((names path).take (n + 1))) ≠ some (.file content)) :
    ∃ e, d.createDirectory path = .ok e ∧ ∀ n ∈ List.range (names path).length,
      e.get? (key ((names path).take (n + 1))) = some .directory := by
  unfold createDirectory
  refine @exists_foldlM _ _ _ _
    (fun e => ∀ n, n < (names path).length → ∀ content,
      e.get? (key ((names path).take (n + 1))) ≠ some (.file content))
    (fun e n => e.get? (key ((names path).take (n + 1))) = some .directory) _ d ?_ h
  intro e n hn he
  dsimp only
  cases hnode : e.get? (key ((names path).take (n + 1))) with
  | none =>
      refine ⟨_, rfl, fun m hm content => ?_, Table.get?_insert_self .., fun m hm => ?_⟩
      · rw [Table.get?_insert]
        split
        · simp
        · exact he m hm content
      · rw [Table.get?_insert]
        split
        · rfl
        · exact hm
  | some node =>
      cases node with
      | directory => exact ⟨e, rfl, he, hnode, fun _ hm => hm⟩
      | file content => exact absurd hnode (he n (List.mem_range.1 hn) content)

theorem isEmpty_of_names_ne_nil (h : names path ≠ []) : path.isEmpty = false := by
  cases hempty : path.isEmpty with
  | false => rfl
  | true =>
      rw [String.isEmpty_iff] at hempty
      rw [hempty] at h
      exact absurd rfl h

theorem write_eq (hne : names path ≠ []) (hslash : path.toList.getLast? ≠ some '/')
    (hfile : d.get? (key (names path)) ≠ some .directory) (content : ByteArray) :
    d.write path content = (d.checkAbove (names path).dropLast).map fun _ =>
      d.insert (key (names path)) (.file content) := by
  have hempty := isEmpty_of_names_ne_nil hne
  unfold write
  cases habove : d.checkAbove (names path).dropLast with
  | error e =>
      unfold find?
      simp only [hempty, habove, bind, Except.bind, Bool.false_eq_true, if_false]
      rfl
  | ok u =>
      rw [find?_of_get? hempty habove hne hslash]
      cases hnode : d.get? (key (names path)) with
      | none => exact if_neg hslash
      | some node =>
          cases node with
          | directory => exact absurd hnode hfile
          | file stored => exact if_neg hslash

theorem write_of_directories {above : List String} {name : String}
    (hnames : names path = above ++ [name])
    (hdirs : ∀ n, n < above.length → d.get? (key (above.take (n + 1))) = some .directory)
    (hslash : path.toList.getLast? ≠ some '/')
    (hfile : d.get? (key (names path)) ≠ some .directory) (content : ByteArray) :
    d.write path content = .ok (d.insert (key (names path)) (.file content)) := by
  have hne : names path ≠ [] := by
    rw [hnames]
    exact List.append_ne_nil_of_right_ne_nil _ (List.cons_ne_nil _ _)
  have habove : d.checkAbove (names path).dropLast = .ok () := by
    rw [hnames, List.dropLast_concat]
    exact checkAbove_eq_ok.2 hdirs
  rw [write_eq hne hslash hfile, habove]
  rfl

theorem checkAbove_of_no_file {above : List String}
    (h : ∀ n, n < above.length → ∀ content,
      d.get? (key (above.take (n + 1))) ≠ some (.file content)) :
    d.checkAbove above = .ok () ∨ d.checkAbove above = .error .notFound := by
  refine forM_eq_ok_or_error fun n hn => ?_
  cases hnode : d.get? (key (above.take (n + 1))) with
  | none => exact .inr rfl
  | some node =>
      cases node with
      | directory => exact .inl rfl
      | file content => exact absurd hnode (h n (List.mem_range.1 hn) content)

theorem rename_of_write {e : Disk} {source : String} {content : ByteArray}
    (hread : d.read source = .ok content) (hwrite : d.write path content = .ok e)
    (hne : key (names source) ≠ key (names path)) :
    d.rename source path = .ok (e.remove source) := by
  unfold rename
  rw [hread]
  change (d.write path content).bind _ = _
  rw [hwrite]
  change Except.ok (if key (names source) = key (names path) then e else e.remove source) = _
  rw [if_neg hne]

theorem key_take_above_ne {above : List String} {n : Nat} (hn : n < above.length)
    (name : String) : key (above.take (n + 1)) ≠ key (above ++ [name]) := by
  have htake : (above ++ [name]).take (n + 1) = above.take (n + 1) :=
    List.take_append_of_le_length hn
  rw [← htake]
  refine key_take_ne ?_
  rw [List.length_append, List.length_singleton]
  omega

/-- A file can be written at the path, and another one beside it: no file stands where a directory
has to be, and no directory where a file has to be. -/
structure Accepts (d : Disk) (path : String) : Prop where
  name : FilePath.EndsInName path
  above : ∀ n, n < (names path).dropLast.length → ∀ content,
    d.get? (key ((names path).dropLast.take (n + 1))) ≠ some (.file content)
  file : d.get? (key (names path)) ≠ some .directory
  beside : d.get? (key (names (temporaryPath path))) ≠ some .directory

def withParent (d : Disk) (path : String) : Except OsError Disk :=
  match FilePath.parent? path with
  | some parent => d.createDirectory parent
  | none => .ok d

def replaced (d : Disk) (path : String) (document : Document) : Except OsError Disk := do
  let made ← d.withParent path
  let written ← made.write (temporaryPath path) document.text.toUTF8
  written.rename (temporaryPath path) path

theorem replaced_eq {document : Document} {made written : Disk}
    (hmade : d.withParent path = .ok made)
    (hwrite : made.write (temporaryPath path) document.text.toUTF8 = .ok written) :
    d.replaced path document = written.rename (temporaryPath path) path := by
  unfold replaced
  rw [hmade]
  change (made.write _ _).bind _ = _
  rw [hwrite]
  rfl

theorem read_of_replaced {document : Document} {e : Disk} (h : d.replaced path document = .ok e) :
    e.read path = .ok document.text.toUTF8 := by
  unfold replaced at h
  obtain ⟨made, -, h⟩ := exists_of_bind_eq_ok h
  obtain ⟨written, hwrite, hrename⟩ := exists_of_bind_eq_ok h
  exact read_rename hrename (read_write_self hwrite) (FilePath.length_key_names_tmp path)

theorem holds_of_replaced {document : Document} {e : Disk} (h : d.replaced path document = .ok e) :
    e.Holds path document :=
  .inr ⟨_, read_of_replaced h, document.ofBytes?_text⟩

theorem Accepts.exists_withParent (h : d.Accepts path) {above : List String} {name beside : String}
    (hnames : names path = above ++ [name])
    (hbeside : names (temporaryPath path) = above ++ [beside])
    (hroot : FilePath.parent? path = none → above = []) :
    ∃ made, d.withParent path = .ok made ∧
      (∀ n, n < above.length → made.get? (key (above.take (n + 1))) = some .directory) ∧
      made.get? (key (names path)) ≠ some .directory ∧
      made.get? (key (names (temporaryPath path))) ≠ some .directory := by
  unfold withParent
  cases hparent : FilePath.parent? path with
  | none =>
      refine ⟨d, rfl, fun n hn => ?_, h.file, h.beside⟩
      rw [hroot hparent] at hn
      exact absurd hn (Nat.not_lt_zero n)
  | some parent =>
      obtain ⟨last, hlast⟩ := FilePath.names_parent hparent
      obtain ⟨hsame, -⟩ := List.append_inj' (hnames.symm.trans hlast) rfl
      have hclear := h.above
      rw [hnames, List.dropLast_concat, hsame] at hclear
      obtain ⟨made, hmade, hdirs⟩ := exists_createDirectory hclear
      refine ⟨made, hmade, ?_, ?_, ?_⟩
      · rw [hsame]
        exact fun n hn => hdirs n (List.mem_range.2 hn)
      · rw [get?_createDirectory hmade fun n hn => ?_]
        · exact h.file
        · rw [hnames, hsame]
          exact (key_take_above_ne hn name).symm
      · rw [get?_createDirectory hmade fun n hn => ?_]
        · exact h.beside
        · rw [hbeside, hsame]
          exact (key_take_above_ne hn beside).symm

theorem getLast?_temporaryPath_ne (path : String) :
    (temporaryPath path).toList.getLast? ≠ some '/' := by
  have htmp : ".tmp".toList.getLast? = some 'p' := by decide
  rw [temporaryPath, String.toList_append, List.getLast?_append, htmp, Option.some_or]
  decide

theorem key_names_temporaryPath_ne (path : String) :
    key (names (temporaryPath path)) ≠ key (names path) := by
  intro heq
  have hlonger := FilePath.length_key_names_tmp path
  rw [← heq] at hlonger
  exact Nat.lt_irrefl _ hlonger

theorem Accepts.exists_replaced (h : d.Accepts path) (document : Document) :
    ∃ e, d.replaced path document = .ok e ∧ e.Accepts path := by
  obtain ⟨above, name, beside, hnames, hbeside, hroot⟩ := h.name.names_eq
  obtain ⟨made, hmade, hdirs, hfile, hfree⟩ := h.exists_withParent hnames hbeside hroot
  have hne := key_names_temporaryPath_ne path
  have hwrite := write_of_directories hbeside hdirs (getLast?_temporaryPath_ne path) hfree
    document.text.toUTF8
  have hwritten : ∀ n, n < above.length → Table.get? (made.insert (key (names (temporaryPath path)))
      (.file document.text.toUTF8)) (key (above.take (n + 1))) = some .directory := by
    intro n hn
    rw [Table.get?_insert_of_ne]
    · exact hdirs n hn
    · rw [hbeside]
      exact key_take_above_ne hn beside
  have hmove := write_of_directories hnames hwritten h.name.getLast?_ne
    (by rw [Table.get?_insert_of_ne _ _ hne.symm]; exact hfile) document.text.toUTF8
  have hrename := rename_of_write (read_write_self hwrite) hmove hne
  refine ⟨_, (replaced_eq hmade hwrite).trans hrename, h.name, fun n hn content => ?_, ?_, ?_⟩
  · rw [hnames, List.dropLast_concat] at hn ⊢
    rw [get?_remove, if_neg, Table.get?_insert, if_neg, hwritten n hn]
    · simp
    · exact key_take_above_ne hn name
    · rw [hbeside]
      exact key_take_above_ne hn beside
  · rw [get?_remove, if_neg hne.symm, Table.get?_insert_self]
    simp
  · rw [get?_remove, if_pos rfl]
    simp

theorem Accepts.documentOf_read {document : Document} (h : d.Accepts path)
    (hheld : d.Holds path document) : documentOf (d.read path) = .ok document := by
  rcases hheld with ⟨hnone, rfl⟩ | ⟨bytes, hread, hdocument⟩
  · have hread : d.read path = .error .notFound := by
      obtain ⟨above, name, beside, hnames, -, -⟩ := h.name.names_eq
      have hne : names path ≠ [] := by
        rw [hnames]
        exact List.append_ne_nil_of_right_ne_nil _ (List.cons_ne_nil _ _)
      have hempty := isEmpty_of_names_ne_nil hne
      unfold read
      rcases checkAbove_of_no_file h.above with habove | habove
      · rw [find?_of_get? hempty habove hne h.name.getLast?_ne, hnone]
        rfl
      · unfold find?
        simp only [hempty, habove, bind, Except.bind, Bool.false_eq_true, if_false]
    rw [hread]
    rfl
  · rw [hread]
    exact Holds.documentOf_read (.inr ⟨bytes, hread, hdocument⟩) hread

end Disk

end IndexRefresh
