import IndexRefresh.Proofs.Store.Refinement

namespace IndexRefresh

open DocumentStore (documentOf temporaryPath afterDone afterReading moving writing making
  making_cases quiet)

/-- What a file operation that fails leaves behind: nothing, any content of the file that was to be
written, or the first of the directories that were to be made. -/
inductive Debris where
  | nothing
  | content (bytes : ByteArray)
  | directories (reached : String)

inductive Fate where
  | goes
  | fails (text : String) (left : Debris)

namespace Disk

def tried (d : Disk) (change : Disk → Except OsError Disk) : Except OsError Unit × Disk :=
  commit id (fun e _ => e) change d

end Disk

namespace Debris

def inFile (left : Debris) (path : String) (d : Disk) : Disk :=
  match left with
  | .content bytes => (d.tried (·.write path bytes)).2
  | _ => d

def onTheWay (left : Debris) (path : String) (d : Disk) : Disk :=
  match left with
  | .directories reached =>
      if (Disk.names reached).isPrefixOf (Disk.names path) then
        (d.tried (·.createDirectory reached)).2
      else d
  | _ => d

end Debris

namespace Fate

def read (f : Fate) (path : String) (d : Disk) : Except OsError ByteArray :=
  match f with
  | .goes => d.read path
  | .fails text _ => .error (.other text)

def change (f : Fate) (made : Disk → Except OsError Disk) (leave : Debris → Disk → Disk)
    (d : Disk) : Except OsError Unit × Disk :=
  match f with
  | .goes => d.tried made
  | .fails text left => (.error (.other text), leave left d)

def write (f : Fate) (path : String) (content : ByteArray) : Disk → Except OsError Unit × Disk :=
  f.change (·.write path content) (·.inFile path)

def rename (f : Fate) (source target : String) : Disk → Except OsError Unit × Disk :=
  f.change (·.rename source target) fun _ d => d

def createDirectory (f : Fate) (path : String) : Disk → Except OsError Unit × Disk :=
  f.change (·.createDirectory path) (·.onTheWay path)

end Fate

/-- Carries a program out until the fates run out; the last one is that of its answer. -/
def FileProgram.play {α : Type} : List Fate → FileProgram α → Disk → Option α × Disk
  | [], _, d => (none, d)
  | _ :: _, .done a, d => (some a, d)
  | f :: fates, .read path next, d => play fates (next (f.read path d)) d
  | f :: fates, .write path content next, d =>
      play fates (next (f.write path content d).1) (f.write path content d).2
  | f :: fates, .rename source target next, d =>
      play fates (next (f.rename source target d).1) (f.rename source target d).2
  | f :: fates, .createDirectory path next, d =>
      play fates (next (f.createDirectory path d).1) (f.createDirectory path d).2

namespace Disk

def Replaced (path : String) (s : Snapshot) (d e : Disk) : Prop :=
  ∃ document, documentOf (d.read path) = .ok document ∧
    e.read path = .ok (Document.text (document.insert s.name s)).toUTF8 ∧
    documentOf (e.read path) = .ok (document.insert s.name s)

/-- The disks differ at most in the file that is written beside the one at a path. -/
def SameApart (path : String) (d e : Disk) : Prop :=
  ∀ k, d.get? k = e.get? k ∨ k = key (names (temporaryPath path)) ∧
    d.get? k ≠ some .directory ∧ e.get? k ≠ some .directory

variable {path : String} {d e : Disk}

theorem tried_cases (d : Disk) (change : Disk → Except OsError Disk) :
    (∃ e, change d = .ok e ∧ d.tried change = (.ok (), e)) ∨
      ∃ err, change d = .error err ∧ d.tried change = (.error err, d) := by
  unfold tried commit
  cases h : change d with
  | ok e => exact .inl ⟨e, rfl, by simp [h]⟩
  | error err => exact .inr ⟨err, rfl, by simp [h]⟩

theorem SameFile.inFile (path : String) (left : Debris) (d : Disk) :
    SameFile path d (left.inFile (temporaryPath path) d) := by
  cases left with
  | content bytes =>
      rcases d.tried_cases (·.write (temporaryPath path) bytes) with ⟨e, h, htried⟩ | ⟨err, -, htried⟩
      · rw [Debris.inFile, htried]
        exact .write h
      · rw [Debris.inFile, htried]
        exact .refl path d
  | _ => exact .refl path d

theorem SameFile.onTheWay {parent : String} (hparent : FilePath.parent? path = some parent)
    (left : Debris) (d : Disk) : SameFile path d (left.onTheWay parent d) := by
  cases left with
  | directories reached =>
      unfold Debris.onTheWay
      dsimp only
      split
      · next hwithin =>
          rcases d.tried_cases (·.createDirectory reached) with ⟨e, h, htried⟩ | ⟨err, -, htried⟩
          · rw [htried]
            refine .createDirectory ?_ h
            exact (List.isPrefixOf_iff_prefix.1 hwithin).trans
              (FilePath.names_parent_isPrefix hparent)
          · rw [htried]
            exact .refl path d
      · exact .refl path d
  | _ => exact .refl path d

theorem SameApart.refl (path : String) (d : Disk) : SameApart path d d :=
  fun _ => .inl rfl

theorem SameApart.get?_eq (h : SameApart path d e) {k : String}
    (hk : k ≠ key (names (temporaryPath path))) : d.get? k = e.get? k :=
  (h k).resolve_right fun hbeside => hk hbeside.1

theorem ne_of_shorter {xs : List String} {n : Nat}
    (h : (key xs).length < (key (names (temporaryPath path))).length) :
    key (xs.take n) ≠ key (names (temporaryPath path)) := by
  intro heq
  have hle := length_key_take_le xs n
  rw [heq] at hle
  omega

theorem SameApart.read (h : SameApart path d e) : d.read path = e.read path :=
  read_congr fun _ => h.get?_eq (ne_of_shorter (FilePath.length_key_names_tmp path))

theorem SameApart.insert (h : SameApart path d e) (k : String) (node : DiskNode) :
    SameApart path (d.insert k node) (e.insert k node) := by
  intro other
  rw [Table.get?_insert, Table.get?_insert]
  split
  · exact .inl rfl
  · exact h other

theorem SameApart.createDirectory (h : SameApart path d e) {directory : String}
    (hshort : (key (names directory)).length < (key (names (temporaryPath path))).length) :
    (∃ d' e', d.createDirectory directory = .ok d' ∧ e.createDirectory directory = .ok e' ∧
      SameApart path d' e') ∨
    ∃ err, d.createDirectory directory = .error err ∧ e.createDirectory directory = .error err := by
  unfold Disk.createDirectory
  refine foldlM_related (fun b c n _ hbc => ?_) h
  dsimp only
  rw [← hbc.get?_eq (ne_of_shorter hshort)]
  cases Table.get? b (key ((names directory).take (n + 1))) with
  | none => exact .inl ⟨_, _, rfl, rfl, hbc.insert _ _⟩
  | some node =>
      cases node with
      | directory => exact .inl ⟨_, _, rfl, rfl, hbc⟩
      | file content => exact .inr ⟨_, rfl, rfl⟩

theorem SameApart.tried_createDirectory (h : SameApart path d e) {directory : String}
    (hshort : (key (names directory)).length < (key (names (temporaryPath path))).length) :
    (d.tried (·.createDirectory directory)).1 = (e.tried (·.createDirectory directory)).1 ∧
      SameApart path (d.tried (·.createDirectory directory)).2
        (e.tried (·.createDirectory directory)).2 := by
  unfold tried commit
  rcases h.createDirectory hshort with ⟨d', e', hd, he, hmade⟩ | ⟨err, hd, he⟩
  · simp only [id, hd, he, true_and]
    exact hmade
  · simp only [id, hd, he, true_and]
    exact h

theorem SameApart.write (h : SameApart path d e) (content : ByteArray) :
    d.write (temporaryPath path) content = e.write (temporaryPath path) content := by
  by_cases hbeside :
      d.get? (key (names (temporaryPath path))) = e.get? (key (names (temporaryPath path)))
  · have hall : d = e := Table.eq_of_get?_eq fun k =>
      (h k).elim (fun heq => heq) fun hk => hk.1 ▸ hbeside
    rw [hall]
  · obtain ⟨-, hd, he⟩ := (h (key (names (temporaryPath path)))).resolve_left hbeside
    have hne : names (temporaryPath path) ≠ [] := by
      intro hnil
      have hlonger := FilePath.length_key_names_tmp path
      rw [temporaryPath] at hnil
      rw [hnil] at hlonger
      exact absurd hlonger (Nat.not_lt_zero _)
    have habove := @checkAbove_congr e d (temporaryPath path) fun n hn =>
      h.get?_eq (key_take_ne hn)
    have hinsert : Table.insert d (key (names (temporaryPath path))) (.file content) =
        Table.insert e (key (names (temporaryPath path))) (.file content) := by
      refine Table.eq_of_get?_eq fun k => ?_
      rw [Table.get?_insert, Table.get?_insert]
      split
      · rfl
      · next hk => exact h.get?_eq hk
    rw [write_eq hne (getLast?_temporaryPath_ne path) hd,
      write_eq hne (getLast?_temporaryPath_ne path) he, habove, hinsert]

theorem SameApart.tried_write (h : SameApart path d e) (content : ByteArray) :
    d.tried (·.write (temporaryPath path) content) =
        e.tried (·.write (temporaryPath path) content) ∨
      ∃ err, d.tried (·.write (temporaryPath path) content) = (.error err, d) ∧
        e.tried (·.write (temporaryPath path) content) = (.error err, e) := by
  have hwrite := h.write content
  unfold tried commit
  simp only [id, hwrite]
  cases e.write (temporaryPath path) content with
  | ok u => exact .inl rfl
  | error err => exact .inr ⟨err, rfl, rfl⟩

end Disk

theorem Fate.change_cases (f : Fate) (made : Disk → Except OsError Disk)
    (leave : Debris → Disk → Disk) (d : Disk) :
    (∃ e, made d = .ok e ∧ f.change made leave d = (.ok (), e)) ∨
      ∃ err e, f.change made leave d = (.error err, e) ∧ (e = d ∨ ∃ left, e = leave left d) := by
  cases f with
  | goes =>
      rcases d.tried_cases made with ⟨e, h, htried⟩ | ⟨err, -, htried⟩
      · exact .inl ⟨e, h, htried⟩
      · exact .inr ⟨err, d, htried, .inl rfl⟩
  | fails text left => exact .inr ⟨_, _, rfl, .inr ⟨left, rfl⟩⟩

namespace DocumentStore

open Disk (SameFile Replaced SameApart names key)

def Settles (path : String) (s : Snapshot) (d : Disk) (x : Option (Except Fault Unit) × Disk) :
    Prop :=
  x.1 ≠ some (.ok ()) ∧ SameFile path d x.2 ∨
    (∀ f, x.1 ≠ some (.error f)) ∧ Replaced path s d x.2

variable {path : String} {s : Snapshot} {d e : Disk} {document : Document}

theorem settles_of_stopped (h : SameFile path d e) : Settles path s d (none, e) :=
  .inl ⟨nofun, h⟩

theorem settles_of_error (h : SameFile path d e) (f : Fault) (fates : List Fate) :
    Settles path s d (FileProgram.play fates (.done (.error f)) e) := by
  cases fates with
  | nil => exact settles_of_stopped h
  | cons _ _ => exact .inl ⟨nofun, h⟩

theorem settles_of_ok (h : Replaced path s d e) (fates : List Fate) :
    Settles path s d (FileProgram.play fates (.done (.ok ())) e) := by
  cases fates with
  | nil => exact .inr ⟨nofun, h⟩
  | cons _ _ => exact .inr ⟨nofun, h⟩

theorem settles_moving (hdocument : documentOf (d.read path) = .ok document)
    (hsame : SameFile path d e)
    (hread : e.read (temporaryPath path) = .ok (Document.text (document.insert s.name s)).toUTF8)
    (fates : List Fate) : Settles path s d (FileProgram.play fates (moving path) e) := by
  cases fates with
  | nil => exact settles_of_stopped hsame
  | cons f fates =>
      simp only [moving, FileProgram.play, Fate.rename]
      rcases f.change_cases (·.rename (temporaryPath path) path) (fun _ d => d) e with
        ⟨u, hrename, hgone⟩ | ⟨err, u, hgone, hu⟩
      · rw [hgone]
        have hstored := Disk.read_rename hrename hread (FilePath.length_key_names_tmp path)
        have hback : documentOf (u.read path) = .ok (document.insert s.name s) := by
          rw [hstored, documentOf, Document.ofBytes?_text]
        exact settles_of_ok ⟨document, hdocument, hstored, hback⟩ fates
      · obtain rfl : u = e := by
          rcases hu with rfl | ⟨left, rfl⟩ <;> rfl
        rw [hgone]
        exact settles_of_error hsame _ fates

theorem settles_writing (hdocument : documentOf (d.read path) = .ok document)
    (hsame : SameFile path d e) (fates : List Fate) :
    Settles path s d (FileProgram.play fates (writing path (document.insert s.name s)) e) := by
  cases fates with
  | nil => exact settles_of_stopped hsame
  | cons f fates =>
      simp only [writing, FileProgram.play, Fate.write]
      rcases f.change_cases (·.write (temporaryPath path) _) (·.inFile (temporaryPath path)) e with
        ⟨u, hwrite, hgone⟩ | ⟨err, u, hgone, hu⟩
      · rw [hgone]
        exact settles_moving hdocument (hsame.trans (.write hwrite)) (Disk.read_write_self hwrite)
          fates
      · have hkept : SameFile path d u := by
          rcases hu with rfl | ⟨left, rfl⟩
          · exact hsame
          · exact hsame.trans (.inFile path left e)
        rw [hgone]
        exact settles_of_error hkept _ fates

theorem settles_making (hdocument : documentOf (d.read path) = .ok document)
    (fates : List Fate) :
    Settles path s d (FileProgram.play fates (making path (document.insert s.name s)) d) := by
  rcases making_cases path (document.insert s.name s) with ⟨parent, hparent, hmaking⟩ | hmaking
  · rw [hmaking]
    cases fates with
    | nil => exact settles_of_stopped (.refl path d)
    | cons f fates =>
        simp only [FileProgram.play, Fate.createDirectory]
        rcases f.change_cases (·.createDirectory parent) (·.onTheWay parent) d with
          ⟨u, hmade, hgone⟩ | ⟨err, u, hgone, hu⟩
        · rw [hgone]
          have habove := FilePath.names_parent_isPrefix hparent
          exact settles_writing hdocument (.createDirectory habove hmade) fates
        · have hkept : SameFile path d u := by
            rcases hu with rfl | ⟨left, rfl⟩
            · exact .refl path _
            · exact .onTheWay hparent left d
          rw [hgone]
          exact settles_of_error hkept _ fates
  · rw [hmaking]
    exact settles_writing hdocument (.refl path d) fates

theorem settles_put (path : String) (s : Snapshot) (fates : List Fate) (d : Disk) :
    Settles path s d (FileProgram.play fates ((quiet path).put s).run d) := by
  rw [put_run]
  cases fates with
  | nil => exact settles_of_stopped (.refl path d)
  | cons f fates =>
      simp only [FileProgram.play]
      unfold afterReading
      cases f with
      | goes =>
          cases hdocument : documentOf (d.read path) with
          | ok document =>
              simp only [Fate.read, hdocument]
              exact settles_making hdocument fates
          | error f =>
              simp only [Fate.read, hdocument]
              exact settles_of_error (.refl path d) f fates
      | fails text left => exact settles_of_error (.refl path d) _ fates

end DocumentStore

namespace FileProgram

open Disk (SameApart)

variable {α β : Type} {path : String}

/-- The program is answered in the same way whatever stands beside the file at a path. -/
def Heedless (path : String) (p : FileProgram α) : Prop :=
  ∀ fates d e, SameApart path d e →
    (play fates p d).1 = (play fates p e).1 ∧ SameApart path (play fates p d).2 (play fates p e).2

theorem heedless_done (path : String) (a : α) : Heedless path (.done a) := by
  intro fates d e h
  cases fates with
  | nil => exact ⟨rfl, h⟩
  | cons f fates => exact ⟨rfl, h⟩

theorem heedless_read {next : Except OsError ByteArray → FileProgram α}
    (hnext : ∀ reply, Heedless path (next reply)) : Heedless path (.read path next) := by
  intro fates d e h
  cases fates with
  | nil => exact ⟨rfl, h⟩
  | cons f fates =>
      have hreply : f.read path d = f.read path e := by
        cases f with
        | goes => exact h.read
        | fails text left => rfl
      simp only [play]
      rw [hreply]
      exact hnext _ fates d e h

theorem fate_createDirectory {parent : String} (hparent : FilePath.parent? path = some parent)
    (f : Fate) {d e : Disk} (h : SameApart path d e) :
    (f.createDirectory parent d).1 = (f.createDirectory parent e).1 ∧
      SameApart path (f.createDirectory parent d).2 (f.createDirectory parent e).2 := by
  have hshort : ∀ directory, Disk.names directory <+: Disk.names parent →
      (Disk.key (Disk.names directory)).length <
        (Disk.key (Disk.names (temporaryPath path))).length := by
    intro directory hwithin
    have hpath : Disk.names directory <+: Disk.names path :=
      (hwithin.trans (FilePath.names_parent_isPrefix hparent)).trans (List.dropLast_prefix _)
    have hle := Disk.length_key_take_le (Disk.names path) (Disk.names directory).length
    rw [← List.prefix_iff_eq_take.1 hpath] at hle
    exact Nat.lt_of_le_of_lt hle (FilePath.length_key_names_tmp path)
  cases f with
  | goes => exact h.tried_createDirectory (hshort parent List.prefix_rfl)
  | fails text left =>
      refine ⟨rfl, ?_⟩
      cases left with
      | directories reached =>
          simp only [Fate.createDirectory, Fate.change, Debris.onTheWay]
          split
          · next hwithin =>
              exact (h.tried_createDirectory
                (hshort reached (List.isPrefixOf_iff_prefix.1 hwithin))).2
          · exact h
      | _ => exact h

theorem fate_write (f : Fate) {d e : Disk} (h : SameApart path d e) (content : ByteArray) :
    f.write (temporaryPath path) content d = f.write (temporaryPath path) content e ∨
      ∃ err d' e', f.write (temporaryPath path) content d = (.error err, d') ∧
        f.write (temporaryPath path) content e = (.error err, e') ∧ SameApart path d' e' := by
  cases f with
  | goes =>
      rcases h.tried_write content with heq | ⟨err, hd, he⟩
      · exact .inl heq
      · exact .inr ⟨err, d, e, hd, he, h⟩
  | fails text left =>
      cases left with
      | content bytes =>
          simp only [Fate.write, Fate.change, Debris.inFile]
          rcases h.tried_write bytes with heq | ⟨err, hd, he⟩
          · rw [heq]
            exact .inl rfl
          · rw [hd, he]
            exact .inr ⟨_, d, e, rfl, rfl, h⟩
      | _ => exact .inr ⟨_, d, e, rfl, rfl, h⟩

theorem heedless_writing (path : String) (document : Document) :
    Heedless path (writing path document) := by
  intro fates d e h
  cases fates with
  | nil => exact ⟨rfl, h⟩
  | cons f fates =>
      simp only [writing, play]
      rcases fate_write f h document.text.toUTF8 with heq | ⟨err, d', e', hd, he, hleft⟩
      -- once the document is written the disks are one and the same, so what is moved is as well
      · rw [heq]
        exact ⟨rfl, .refl path _⟩
      · rw [hd, he]
        exact heedless_done path _ fates _ _ hleft

theorem heedless_making (path : String) (document : Document) :
    Heedless path (making path document) := by
  rcases making_cases path document with ⟨parent, hparent, hmaking⟩ | hmaking
  · intro fates d e h
    rw [hmaking]
    cases fates with
    | nil => exact ⟨rfl, h⟩
    | cons f fates =>
        obtain ⟨hreply, hmade⟩ := fate_createDirectory hparent f h
        simp only [play]
        rw [hreply]
        cases (f.createDirectory parent e).1 with
        | ok u => exact heedless_writing path document fates _ _ hmade
        | error err => exact heedless_done path _ fates _ _ hmade
  · rw [hmaking]
    exact heedless_writing path document

theorem heedless_put (path : String) (s : Snapshot) : Heedless path ((quiet path).put s).run := by
  rw [DocumentStore.put_run]
  refine heedless_read fun reply => ?_
  unfold afterReading
  cases documentOf reply with
  | ok document => exact heedless_making path _
  | error f => exact heedless_done path _

theorem play_bind_done (p : FileProgram α) (g : α → β) (fates : List Fate) (d : Disk) :
    play fates (p.bind fun a => .done (g a)) d =
      ((play fates p d).1.map g, (play fates p d).2) := by
  induction p generalizing fates d with
  | done a => cases fates <;> rfl
  | read path next ih =>
      cases fates with
      | nil => rfl
      | cons f fates => exact ih _ fates d
  | write path content next ih =>
      cases fates with
      | nil => rfl
      | cons f fates => exact ih _ fates _
  | rename source target next ih =>
      cases fates with
      | nil => rfl
      | cons f fates => exact ih _ fates _
  | createDirectory path next ih =>
      cases fates with
      | nil => rfl
      | cons f fates => exact ih _ fates _

theorem Heedless.bind_done {p : FileProgram α} (h : Heedless path p) (g : α → β) :
    Heedless path (p.bind fun a => .done (g a)) := by
  intro fates d e hde
  obtain ⟨hanswer, hdisk⟩ := h fates d e hde
  rw [play_bind_done, play_bind_done, hanswer]
  exact ⟨rfl, hdisk⟩

end FileProgram

namespace StoreRequest

open FileProgram (Heedless)

theorem heedless_perform (path : String) (c : StoreRequest) :
    Heedless path (c.perform (quiet path)).run := by
  have answered {α β : Type} {x : ExceptT Fault FileProgram α} (h : Heedless path x.run)
      (g : α → β) : Heedless path (x >>= fun a => pure (g a)).run := by
    have hbind : (x >>= fun a => pure (g a)).run = x.run.bind fun r => .done (r.map g) := by
      change x.run.bind _ = _
      congr 1
      funext r
      cases r <;> rfl
    rw [hbind]
    exact h.bind_done _
  have hdocument : Heedless path (quiet path).document.run := by
    rw [DocumentStore.document_run]
    exact FileProgram.heedless_read fun _ => FileProgram.heedless_done path _
  cases c with
  | put s => exact answered (FileProgram.heedless_put path s) fun _ => StoreAnswer.stored
  | get name => exact answered (answered hdocument fun d => d.get? name) StoreAnswer.found
  | list => exact answered (answered hdocument Table.values) StoreAnswer.listed

end StoreRequest

namespace DocumentStore

open Disk (SameFile Replaced SameApart)

def played (path : String) : List (StoreRequest × List Fate) → Disk →
    List (Option (Except Fault StoreAnswer)) × Disk
  | [], d => ([], d)
  | (c, fates) :: calls, d =>
      let x := FileProgram.play fates (c.perform (quiet path)).run d
      (x.1 :: (played path calls x.2).1, (played path calls x.2).2)

variable {path : String} {s : Snapshot} {fates : List Fate} {d e : Disk}

theorem played_of_sameApart (calls : List (StoreRequest × List Fate)) (h : SameApart path d e) :
    (played path calls d).1 = (played path calls e).1 ∧
      SameApart path (played path calls d).2 (played path calls e).2 := by
  induction calls generalizing d e with
  | nil => exact ⟨rfl, h⟩
  | cons call calls ih =>
      obtain ⟨c, fates⟩ := call
      obtain ⟨hanswer, hdisk⟩ := StoreRequest.heedless_perform path c fates d e h
      obtain ⟨hanswers, hlast⟩ := ih hdisk
      simp only [played]
      rw [hanswer, hanswers]
      exact ⟨rfl, hlast⟩

/-- However a put goes, the file is whole; what is left beside it is never seen again. -/
theorem put_keeps_or_replaces {answer : Option (Except Fault Unit)}
    (h : FileProgram.play fates ((quiet path).put s).run d = (answer, e)) :
    (SameFile path d e ∨ Replaced path s d e) ∧
    (answer = some (.ok ()) → Replaced path s d e) ∧
    (∀ f, answer = some (.error f) → SameFile path d e) ∧
    ∀ clean calls, SameApart path e clean →
      (played path calls e).1 = (played path calls clean).1 ∧
        SameApart path (played path calls e).2 (played path calls clean).2 := by
  have hsettles := settles_put path s fates d
  rw [h] at hsettles
  refine ⟨?_, ?_, ?_, fun clean calls hclean => played_of_sameApart calls hclean⟩
  · exact hsettles.imp And.right And.right
  · rintro rfl
    rcases hsettles with ⟨hnot, -⟩ | ⟨-, hreplaced⟩
    · exact absurd rfl hnot
    · exact hreplaced
  · rintro f rfl
    rcases hsettles with ⟨-, hsame⟩ | ⟨hnot, -⟩
    · exact hsame
    · exact absurd rfl (hnot f)

theorem put_keeps_or_replaces_on_full_disk :
    ∃ (s : Snapshot) (torn : ByteArray) (full : String) (e : Disk),
      FileProgram.play [.goes, .fails full (.content torn), .goes] ((quiet "r.json").put s).run
        Table.empty = (some (.error (.io full)), e) ∧
      e.get? "/r.json.tmp" = some (.file torn) ∧ SameFile "r.json" Table.empty e ∧
      (played "r.json" [(.put s, [.goes, .goes, .goes, .goes])] e).1 = [some (.ok .stored)] := by
  let s : Snapshot := .fresh "a" "" "" ""
  have hplayed : FileProgram.play
      [.goes, .fails "full" (.content "torn".toUTF8), .goes] ((quiet "r.json").put s).run
        Table.empty = (some (.error (.io "full")), _) := rfl
  obtain ⟨-, -, hkept, hlater⟩ := put_keeps_or_replaces hplayed
  refine ⟨s, "torn".toUTF8, "full", _, hplayed, rfl, hkept _ rfl, ?_⟩
  have hclean : SameApart "r.json" (Table.insert Table.empty "/r.json.tmp" (.file "torn".toUTF8))
      Table.empty := by
    intro k
    rw [Table.get?_insert]
    split
    · next hk => exact .inr ⟨hk, by simp, by simp⟩
    · exact .inl rfl
  exact (hlater Table.empty _ hclean).1.trans rfl

end DocumentStore

end IndexRefresh
