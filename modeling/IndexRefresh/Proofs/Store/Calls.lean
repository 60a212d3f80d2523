import IndexRefresh.Proofs.Store.Memory
import IndexRefresh.Proofs.Store.Replacing

namespace IndexRefresh

theorem Disk.Holds.documentOf_read_cases {d : Disk} {path : String} {document : Document}
    (h : d.Holds path document) :
    DocumentStore.documentOf (d.read path) = .ok document ∨
      ∃ text, DocumentStore.documentOf (d.read path) = .error (.io text) := by
  cases hread : d.read path with
  | ok bytes => exact .inl (h.documentOf_read hread)
  | error e =>
      cases e with
      | notFound => exact .inl (h.documentOf_missing hread)
      | _ => exact .inr ⟨_, rfl⟩

namespace DocumentStore

variable {σ : Type} {get : σ → Disk} {set : Disk → σ → σ} {path : String}
  {s : DocumentStore (StateM σ)}

/-- The store in the file at a path of a disk that is part of a state. Its log is kept elsewhere. -/
structure At (get : σ → Disk) (set : Disk → σ → σ) (path : String)
    (s : DocumentStore (StateM σ)) : Prop where
  files : s.files = Disk.files get set
  path : s.path = path
  stored : ∀ d x, get (set d x) = d
  apart : ∀ e x, get (s.emit e x).2 = get x

theorem At.document_run (h : s.At get set path) (x : σ) :
    s.document.run x = (documentOf ((get x).read path), x) := by
  obtain ⟨files, emit, place⟩ := s
  obtain rfl : files = Disk.files get set := h.files
  obtain rfl : place = path := h.path
  have hread : (liftM ((Disk.files get set).read place) :
      ExceptT Fault (StateM σ) (Except OsError ByteArray)).run x =
      (.ok ((get x).read place), x) := rfl
  refine (run_bind_of_ok hread).trans ?_
  cases (get x).read place with
  | error e => cases e <;> rfl
  | ok bytes =>
      unfold documentOf
      dsimp only
      cases Document.ofBytes? bytes with
      | some d => rfl
      | none => rfl

theorem At.document_cases (h : s.At get set path) {document : Document} {x : σ}
    (hheld : (get x).Holds path document) :
    s.document.run x = (.ok document, x) ∨
      ¬(get x).Accepts path ∧ ∃ text, s.document.run x = (.error (.io text), x) := by
  have hdocument := h.document_run x
  rcases hheld.documentOf_read_cases with hread | ⟨text, hread⟩
  · rw [hread] at hdocument
    exact .inl hdocument
  · refine .inr ⟨fun haccepts => ?_, text, ?_⟩
    · rw [haccepts.documentOf_read hheld] at hread
      cases hread
    · rw [hread] at hdocument
      exact hdocument

theorem run_commit_of_ok {f : Disk → Except OsError Disk} {x : σ} {d : Disk}
    (h : f (get x) = .ok d) : (run (Disk.commit get set f)).run x = (.ok (), set d x) := by
  have hcommit : (liftM (Disk.commit get set f) :
      ExceptT Fault (StateM σ) (Except OsError Unit)).run x = (.ok (.ok ()), set d x) := by
    change (Except.ok (Disk.commit get set f x).1, (Disk.commit get set f x).2) = _
    unfold Disk.commit
    rw [h]
  exact run_bind_of_ok hcommit

theorem run_commit_of_error {f : Disk → Except OsError Disk} {x : σ} {e : OsError}
    (h : f (get x) = .error e) :
    (run (Disk.commit get set f)).run x = (.error (.io e.text), x) := by
  have hcommit : (liftM (Disk.commit get set f) :
      ExceptT Fault (StateM σ) (Except OsError Unit)).run x = (.ok (.error e), x) := by
    change (Except.ok (Disk.commit get set f x).1, (Disk.commit get set f x).2) = _
    unfold Disk.commit
    rw [h]
  exact run_bind_of_ok hcommit

inductive Reports (get : σ → Disk) : Except OsError Disk → Except Fault Unit × σ → Prop where
  | ok (y : σ) : Reports get (.ok (get y)) (.ok (), y)
  | error (e : OsError) (y : σ) : Reports get (.error e) (.error (.io e.text), y)

theorem reports_commit (hset : ∀ d x, get (set d x) = d) (f : Disk → Except OsError Disk) (x : σ) :
    Reports get (f (get x)) ((run (Disk.commit get set f)).run x) := by
  cases hf : f (get x) with
  | ok d =>
      rw [run_commit_of_ok hf]
      have hok := @Reports.ok σ get (set d x)
      rwa [hset] at hok
  | error e =>
      rw [run_commit_of_error hf]
      exact .error e x

theorem Reports.bind {action next : ExceptT Fault (StateM σ) Unit} {x : σ}
    {result : Except OsError Disk} {f : Disk → Except OsError Disk}
    (h : Reports get result (action.run x)) (hnext : ∀ y, Reports get (f (get y)) (next.run y)) :
    Reports get (result >>= f) ((action >>= fun _ => next).run x) := by
  generalize hran : action.run x = ran at h
  cases h with
  | ok y =>
      rw [run_bind_of_ok hran]
      exact hnext y
  | error e y =>
      rw [run_bind_of_error hran]
      exact .error e y

theorem At.reports_writeDocument (h : s.At get set path) (document : Document) (x : σ) :
    Reports get ((get x).replaced path document) ((s.writeDocument document).run x) := by
  obtain ⟨files, emit, place⟩ := s
  obtain rfl : files = Disk.files get set := h.files
  obtain rfl : place = path := h.path
  have hwrite := reports_commit h.stored fun d =>
    d.write (temporaryPath place) document.text.toUTF8
  have hrename := reports_commit h.stored fun d => d.rename (temporaryPath place) place
  unfold writeDocument Disk.replaced Disk.withParent
  dsimp only
  cases FilePath.parent? place with
  | none => exact (hwrite x).bind hrename
  | some parent =>
      have hcreate := reports_commit h.stored fun d => d.createDirectory parent
      exact (hcreate x).bind fun y => (hwrite y).bind hrename

theorem At.reports_put (h : s.At get set path) {document : Document} {x : σ}
    (hdocument : s.document.run x = (.ok document, x)) (u : Snapshot) :
    Reports get ((get x).replaced path (document.insert u.name u)) ((s.put u).run x) := by
  have hwritten := h.reports_writeDocument (document.insert u.name u) x
  have hlogged : ∀ y, Reports get (.ok (get y))
      ((liftM (s.emit (s.written u.name)) : ExceptT Fault (StateM σ) Unit).run y) := by
    intro y
    have hok := @Reports.ok σ get (s.emit (s.written u.name) y).2
    rw [h.apart] at hok
    exact hok
  have hput : (s.put u).run x = (s.writeDocument (document.insert u.name u) >>= fun _ =>
      (liftM (s.emit (s.written u.name)) : ExceptT Fault (StateM σ) Unit)).run x :=
    run_bind_of_ok hdocument
  rw [hput, ← bind_pure ((get x).replaced path _)]
  exact hwritten.bind hlogged

theorem At.put_cases (h : s.At get set path) {document : Document} {x : σ}
    (hheld : (get x).Holds path document) (u : Snapshot) :
    (∃ y, (s.put u).run x = (.ok (), y) ∧
      (get x).replaced path (document.insert u.name u) = .ok (get y) ∧
      ((get x).Accepts path → (get y).Accepts path)) ∨
    ¬(get x).Accepts path ∧ ∃ text y, (s.put u).run x = (.error (.io text), y) := by
  rcases h.document_cases hheld with hdocument | ⟨hclosed, text, hdocument⟩
  · have hput := h.reports_put hdocument u
    generalize hreplaced : (get x).replaced path _ = result at hput
    generalize hran : (s.put u).run x = ran at hput
    cases hput with
    | ok y =>
        refine .inl ⟨y, rfl, rfl, fun haccepts => ?_⟩
        obtain ⟨d, hd, hstill⟩ := haccepts.exists_replaced (document.insert u.name u)
        obtain rfl : d = get y := Except.ok.inj (hd.symm.trans hreplaced)
        exact hstill
    | error e y =>
        refine .inr ⟨fun haccepts => ?_, e.text, y, rfl⟩
        obtain ⟨d, hd, -⟩ := haccepts.exists_replaced (document.insert u.name u)
        cases hd.symm.trans hreplaced
  · exact .inr ⟨hclosed, text, x, run_bind_of_error hdocument⟩

end DocumentStore
end IndexRefresh
