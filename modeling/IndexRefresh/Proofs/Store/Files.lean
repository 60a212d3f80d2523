import IndexRefresh.Proofs.Disk
import IndexRefresh.Proofs.Store.Document

namespace IndexRefresh

/-- The file operations that are still to be made, each with what follows upon its answer. -/
inductive FileProgram (α : Type) where
  | done (a : α)
  | read (path : String) (next : Except OsError ByteArray → FileProgram α)
  | write (path : String) (content : ByteArray) (next : Except OsError Unit → FileProgram α)
  | rename (source target : String) (next : Except OsError Unit → FileProgram α)
  | createDirectory (path : String) (next : Except OsError Unit → FileProgram α)

namespace FileProgram

variable {α β : Type}

def bind (p : FileProgram α) (f : α → FileProgram β) : FileProgram β :=
  match p with
  | .done a => f a
  | .read path next => .read path fun reply => (next reply).bind f
  | .write path content next => .write path content fun reply => (next reply).bind f
  | .rename source target next => .rename source target fun reply => (next reply).bind f
  | .createDirectory path next => .createDirectory path fun reply => (next reply).bind f

instance : Monad FileProgram where
  pure := .done
  bind := bind

def files : Files FileProgram where
  read path := .read path .done
  write path content := .write path content .done
  rename source target := .rename source target .done
  createDirectory path := .createDirectory path .done

def renames : FileProgram α → Bool
  | .rename _ _ _ => true
  | _ => false

inductive Step : Disk → FileProgram α → Disk → FileProgram α → Prop where
  | read {d : Disk} {path : String} {next : Except OsError ByteArray → FileProgram α}
      {content : ByteArray} (h : d.read path = .ok content) :
      Step d (.read path next) d (next (.ok content))
  | missing {d : Disk} {path : String} {next : Except OsError ByteArray → FileProgram α}
      (h : d.read path = .error .notFound) :
      Step d (.read path next) d (next (.error .notFound))
  | write {d e : Disk} {path : String} {content : ByteArray}
      {next : Except OsError Unit → FileProgram α} (h : d.write path content = .ok e) :
      Step d (.write path content next) e (next (.ok ()))
  | rename {d e : Disk} {source target : String} {next : Except OsError Unit → FileProgram α}
      (h : d.rename source target = .ok e) :
      Step d (.rename source target next) e (next (.ok ()))
  | createDirectory {d e : Disk} {path : String} {next : Except OsError Unit → FileProgram α}
      (h : d.createDirectory path = .ok e) :
      Step d (.createDirectory path next) e (next (.ok ()))

end FileProgram

namespace DocumentStore

def quiet (path : String) : DocumentStore FileProgram :=
  ⟨FileProgram.files, fun _ => .done (), path⟩

def documentOf : Except OsError ByteArray → Except Fault Document
  | .ok bytes =>
      match Document.ofBytes? bytes with
      | some d => .ok d
      | none => .error unreadable
  | .error .notFound => .ok Table.empty
  | .error e => .error (.io e.text)

def afterDone (reply : Except OsError Unit) (rest : FileProgram (Except Fault Unit)) :
    FileProgram (Except Fault Unit) :=
  match reply with
  | .ok _ => rest
  | .error e => .done (.error (.io e.text))

def afterReading (reply : Except OsError ByteArray)
    (rest : Document → FileProgram (Except Fault Unit)) : FileProgram (Except Fault Unit) :=
  match documentOf reply with
  | .ok d => rest d
  | .error f => .done (.error f)

def moving (path : String) : FileProgram (Except Fault Unit) :=
  .rename (temporaryPath path) path fun reply => afterDone reply (.done (.ok ()))

def writing (path : String) (d : Document) : FileProgram (Except Fault Unit) :=
  .write (temporaryPath path) d.text.toUTF8 fun reply => afterDone reply (moving path)

def making (path : String) (d : Document) : FileProgram (Except Fault Unit) :=
  match FilePath.parent? path with
  | some parent => .createDirectory parent fun reply => afterDone reply (writing path d)
  | none => writing path d

theorem making_cases (path : String) (d : Document) :
    (∃ parent, FilePath.parent? path = some parent ∧ making path d =
      .createDirectory parent fun reply => afterDone reply (writing path d)) ∨
    making path d = writing path d := by
  unfold making
  cases FilePath.parent? path with
  | some parent => exact .inl ⟨parent, rfl, rfl⟩
  | none => exact .inr rfl

variable (path : String)

theorem document_run : (quiet path).document.run =
    .read path fun reply => .done (documentOf reply) := by
  change FileProgram.read path _ = FileProgram.read path _
  congr 1
  funext reply
  cases reply with
  | error e => cases e <;> rfl
  | ok bytes =>
      change ExceptT.run (match Document.ofBytes? bytes with
        | some d => pure d
        | none => throw unreadable : ExceptT Fault FileProgram Document) =
        .done (match Document.ofBytes? bytes with
          | some d => .ok d
          | none => .error unreadable)
      cases Document.ofBytes? bytes with
      | some d => rfl
      | none => rfl

theorem get_run (name : String) : ((quiet path).get name).run =
    .read path fun reply => .done ((documentOf reply).map fun d => d.get? name) := by
  change ((quiet path).document.run).bind _ = _
  rw [document_run]
  change FileProgram.read path _ = FileProgram.read path _
  congr 1
  funext reply
  change FileProgram.bind (.done (documentOf reply)) _ = _
  cases documentOf reply with
  | ok d => rfl
  | error f => rfl

theorem writeDocument_run (d : Document) :
    ((quiet path).writeDocument d).run = making path d := by
  have hmoving : (run ((quiet path).files.rename (temporaryPath path) path)).run =
      moving path := by
    change FileProgram.rename _ _ _ = FileProgram.rename _ _ _
    congr 1
    funext reply
    cases reply <;> rfl
  have hwriting : (do
      run ((quiet path).files.write (temporaryPath path) d.text.toUTF8)
      run ((quiet path).files.rename (temporaryPath path) path) :
      ExceptT Fault FileProgram Unit).run = writing path d := by
    change FileProgram.write _ _ _ = FileProgram.write _ _ _
    congr 1
    funext reply
    cases reply with
    | ok u => exact hmoving
    | error e => rfl
  unfold writeDocument making
  have hpath : (quiet path).path = path := rfl
  rw [hpath]
  cases FilePath.parent? path with
  | none => exact hwriting
  | some parent =>
      change FileProgram.createDirectory _ _ = FileProgram.createDirectory _ _
      congr 1
      funext reply
      cases reply with
      | ok u => exact hwriting
      | error e => rfl

theorem bind_ok (p : FileProgram (Except Fault Unit)) :
    p.bind (fun result => match result with
      | .ok () => .done (.ok ())
      | .error f => .done (.error f)) = p := by
  induction p with
  | done result => cases result <;> rfl
  | read path next ih => exact congrArg (FileProgram.read path) (funext ih)
  | write path content next ih => exact congrArg (FileProgram.write path content) (funext ih)
  | rename source target next ih => exact congrArg (FileProgram.rename source target) (funext ih)
  | createDirectory path next ih => exact congrArg (FileProgram.createDirectory path) (funext ih)

theorem put_run (s : Snapshot) : ((quiet path).put s).run =
    .read path fun reply => afterReading reply fun d => making path (d.insert s.name s) := by
  change ((quiet path).document.run).bind _ = _
  rw [document_run]
  change FileProgram.read path _ = FileProgram.read path _
  congr 1
  funext reply
  unfold afterReading
  change FileProgram.bind (.done (documentOf reply)) _ = _
  cases documentOf reply with
  | error f => rfl
  | ok d =>
      have hwritten := writeDocument_run path (d.insert s.name s)
      change FileProgram.bind ((quiet path).writeDocument (d.insert s.name s)).run _ = _
      rw [hwritten]
      refine Eq.trans ?_ (bind_ok _)
      congr 1
      funext result
      cases result <;> rfl

end DocumentStore

namespace Disk

open DocumentStore (documentOf temporaryPath moving writing making)

structure SameFile (path : String) (d e : Disk) : Prop where
  node : e.get? (key (names path)) = d.get? (key (names path))
  read : ∀ content, d.read path = .ok content → e.read path = .ok content

def Holds (d : Disk) (path : String) (document : Document) : Prop :=
  d.get? (key (names path)) = none ∧ document = Table.empty ∨
    ∃ bytes, d.read path = .ok bytes ∧ Document.ofBytes? bytes = some document

variable {d e u : Disk} {path : String} {document : Document}

theorem SameFile.refl (path : String) (d : Disk) : SameFile path d d :=
  ⟨rfl, fun _ h => h⟩

theorem SameFile.trans (h : SameFile path d e) (hu : SameFile path e u) : SameFile path d u :=
  ⟨hu.node.trans h.node, fun content hread => hu.read content (h.read content hread)⟩

theorem SameFile.write {content : ByteArray}
    (h : d.write (temporaryPath path) content = .ok e) : SameFile path d e := by
  have hkept := get?_write_of_longer h (FilePath.length_key_names_tmp path)
  refine ⟨?_, fun content hread => (read_congr hkept).trans hread⟩
  have hself := hkept (names path).length
  rwa [List.take_length] at hself

theorem SameFile.createDirectory {directory : String}
    (habove : names directory <+: (names path).dropLast)
    (h : d.createDirectory directory = .ok e) : SameFile path d e := by
  have hshort := habove.length_le
  rw [List.length_dropLast] at hshort
  refine ⟨get?_createDirectory h fun n hn heq => ?_, fun content hread => ?_⟩
  · have hlt : n + 1 < (names path).length := by omega
    have hshorter := length_key_take_lt hlt
    rw [take_of_isPrefix (habove.trans (List.dropLast_prefix _)) hn, ← heq] at hshorter
    exact Nat.lt_irrefl _ hshorter
  · rw [createDirectory_of_read habove hread] at h
    cases h
    exact hread

theorem Holds.of_sameFile (h : d.Holds path document) (hsame : SameFile path d e) :
    e.Holds path document := by
  rcases h with ⟨hnone, hempty⟩ | ⟨bytes, hread, hdocument⟩
  · exact .inl ⟨hsame.node.trans hnone, hempty⟩
  · exact .inr ⟨bytes, hsame.read bytes hread, hdocument⟩

theorem Holds.unique {other : Document} (h : d.Holds path document) (ho : d.Holds path other) :
    other = document := by
  rcases h with ⟨hnone, rfl⟩ | ⟨bytes, hread, hdocument⟩
  · rcases ho with ⟨-, rfl⟩ | ⟨bytes, hread, -⟩
    · rfl
    · exact absurd hread (read_of_get?_eq_none hnone bytes)
  · rcases ho with ⟨hnone, -⟩ | ⟨stored, hstored, hother⟩
    · exact absurd hread (read_of_get?_eq_none hnone bytes)
    · obtain rfl : stored = bytes := Except.ok.inj (hstored.symm.trans hread)
      exact Option.some.inj (hother.symm.trans hdocument)

theorem Holds.documentOf_read (h : d.Holds path document) {bytes : ByteArray}
    (hread : d.read path = .ok bytes) : documentOf (.ok bytes) = .ok document := by
  rcases h with ⟨hnone, -⟩ | ⟨stored, hstored, hdocument⟩
  · exact absurd hread (read_of_get?_eq_none hnone bytes)
  · obtain rfl : stored = bytes := Except.ok.inj (hstored.symm.trans hread)
    change (match Document.ofBytes? stored with
      | some d => Except.ok d
      | none => Except.error DocumentStore.unreadable) = .ok document
    rw [hdocument]

theorem Holds.documentOf_missing (h : d.Holds path document)
    (hread : d.read path = .error .notFound) :
    documentOf (.error .notFound) = .ok document := by
  rcases h with ⟨-, rfl⟩ | ⟨stored, hstored, -⟩
  · rfl
  · rw [hstored] at hread
    cases hread

theorem holds_of_rename
    (hread : d.read (temporaryPath path) = .ok document.text.toUTF8)
    (hrename : d.rename (temporaryPath path) path = .ok e) : e.Holds path document :=
  .inr ⟨_, read_rename hrename hread (FilePath.length_key_names_tmp path),
    document.ofBytes?_text⟩

end Disk

namespace DocumentStore

inductive Loading (path : String) (document : Document) (name : String) :
    FileProgram (Except Fault (Option Snapshot)) → Prop where
  | start : Loading path document name ((quiet path).get name).run
  | found : Loading path document name (.done (.ok (document.get? name)))

inductive Saving (path : String) (d : Disk) (document : Document) (s : Snapshot) :
    FileProgram (Except Fault Unit) → Prop where
  | start : Saving path d document s ((quiet path).put s).run
  | making : Saving path d document s (making path (document.insert s.name s))
  | writing : Saving path d document s (writing path (document.insert s.name s))
  | moving
      (hread : d.read (temporaryPath path) =
        .ok (Document.text (document.insert s.name s)).toUTF8) :
      Saving path d document s (moving path)

variable {path name : String} {d e : Disk} {document : Document} {s : Snapshot}

theorem reading_of_step {α : Type} {next : Except OsError ByteArray → FileProgram α}
    {q : FileProgram α} (h : FileProgram.Step d (.read path next) e q)
    (hheld : d.Holds path document) :
    e = d ∧ ∃ reply, documentOf reply = .ok document ∧ q = next reply := by
  cases h with
  | read hread => exact ⟨rfl, _, hheld.documentOf_read hread, rfl⟩
  | missing hread => exact ⟨rfl, _, hheld.documentOf_missing hread, rfl⟩

theorem Loading.step {p q : FileProgram (Except Fault (Option Snapshot))}
    (h : Loading path document name p) (hheld : d.Holds path document)
    (hs : FileProgram.Step d p e q) : e = d ∧ Loading path document name q := by
  cases h with
  | start =>
      rw [get_run] at hs
      obtain ⟨he, reply, hreply, rfl⟩ := reading_of_step hs hheld
      refine ⟨he, ?_⟩
      rw [hreply]
      exact .found
  | found => cases hs

theorem Loading.congr {other : Document} {p : FileProgram (Except Fault (Option Snapshot))}
    (h : Loading path document name p) (hsame : other.get? name = document.get? name) :
    Loading path other name p := by
  cases h with
  | start => exact .start
  | found =>
      rw [← hsame]
      exact .found

theorem Saving.step {p q : FileProgram (Except Fault Unit)}
    (h : Saving path d document s p) (hheld : d.Holds path document)
    (hs : FileProgram.Step d p e q) (hp : p.renames = false) :
    e.Holds path document ∧ Saving path e document s q := by
  cases h with
  | start =>
      rw [put_run] at hs
      obtain ⟨rfl, reply, hreply, rfl⟩ := reading_of_step hs hheld
      refine ⟨hheld, ?_⟩
      unfold afterReading
      rw [hreply]
      exact .making
  | making =>
      rcases making_cases path (document.insert s.name s) with ⟨parent, hparent, hmaking⟩ | hmaking
      · rw [hmaking] at hs
        cases hs with
        | createDirectory hcreate =>
            have habove := FilePath.names_parent_isPrefix hparent
            exact ⟨hheld.of_sameFile (.createDirectory habove hcreate), .writing⟩
      · rw [hmaking] at hs
        cases hs with
        | write hwrite =>
            exact ⟨hheld.of_sameFile (.write hwrite), .moving (Disk.read_write_self hwrite)⟩
  | writing =>
      cases hs with
      | write hwrite =>
          exact ⟨hheld.of_sameFile (.write hwrite), .moving (Disk.read_write_self hwrite)⟩
  | moving => cases hp

theorem Saving.step_of_renames {p q : FileProgram (Except Fault Unit)}
    (h : Saving path d document s p) (hs : FileProgram.Step d p e q) (hp : p.renames = true) :
    e.Holds path (document.insert s.name s) ∧ q = .done (.ok ()) := by
  cases h with
  | start =>
      rw [put_run] at hp
      cases hp
  | making =>
      rcases making_cases path (document.insert s.name s) with ⟨parent, -, hmaking⟩ | hmaking
      · rw [hmaking] at hp
        cases hp
      · rw [hmaking] at hp
        cases hp
  | writing => cases hp
  | moving hread =>
      cases hs with
      | rename hrename => exact ⟨Disk.holds_of_rename hread hrename, rfl⟩

theorem Saving.ne_done {p : FileProgram (Except Fault Unit)} (h : Saving path d document s p)
    (result : Except Fault Unit) : p ≠ .done result := by
  intro hp
  cases h with
  | start =>
      rw [put_run] at hp
      cases hp
  | making =>
      rcases making_cases path (document.insert s.name s) with ⟨parent, -, hmaking⟩ | hmaking
      · rw [hmaking] at hp
        cases hp
      · rw [hmaking] at hp
        cases hp
  | writing => cases hp
  | moving => cases hp

end DocumentStore

end IndexRefresh
