import IndexRefresh.Proofs.Store.Calls

namespace IndexRefresh

inductive StoreRequest where
  | put (s : Snapshot)
  | get (name : String)
  | list

inductive StoreAnswer where
  | stored
  | found (s : Option Snapshot)
  | listed (ss : List Snapshot)

namespace StoreRequest

def put? : StoreRequest → Option Snapshot
  | .put s => some s
  | _ => none

def lastPut (name : String) (calls : List StoreRequest) : Option Snapshot :=
  (calls.filterMap put?).reverse.find? fun s => s.name = name

end StoreRequest

namespace MemoryStore

def answer (store : MemoryStore) : StoreRequest → StoreAnswer
  | .put _ => .stored
  | .get name => .found (store.get? name)
  | .list => .listed store.values

def next (store : MemoryStore) : StoreRequest → MemoryStore
  | .put s => store.put s
  | _ => store

def answers (store : MemoryStore) : List StoreRequest → List StoreAnswer
  | [] => []
  | c :: calls => store.answer c :: (store.next c).answers calls

theorem getElem?_answers (store : MemoryStore) (calls : List StoreRequest) (n : Nat) :
    (store.answers calls)[n]? =
      calls[n]?.map fun c => ((calls.take n).foldl next store).answer c := by
  induction calls generalizing store n with
  | nil => rfl
  | cons c calls ih =>
      cases n with
      | zero => rfl
      | succ n => exact ih (store.next c) n

theorem get?_foldl_next (store : MemoryStore) (calls : List StoreRequest) (name : String) :
    (calls.foldl next store).get? name =
      (StoreRequest.lastPut name calls).or (store.get? name) := by
  induction calls generalizing store with
  | nil => rfl
  | cons c calls ih =>
      rw [List.foldl_cons, ih (store.next c)]
      cases c with
      | put s =>
          have hlast : StoreRequest.lastPut name (.put s :: calls) =
              (StoreRequest.lastPut name calls).or (if name = s.name then some s else none) := by
            have hcons : (StoreRequest.put s :: calls).filterMap StoreRequest.put? =
                s :: calls.filterMap StoreRequest.put? := rfl
            unfold StoreRequest.lastPut
            rw [hcons, List.reverse_cons, List.find?_append]
            congr 1
            by_cases heq : name = s.name
            · simp [heq]
            · have hne : ¬s.name = name := fun h => heq h.symm
              simp [heq, hne]
          have hput : (store.next (.put s)).get? name =
              (if name = s.name then some s else none).or (store.get? name) := by
            change (Table.insert store s.name s).get? name = _
            rw [Table.get?_insert]
            split <;> rfl
          rw [hlast, hput, Option.or_assoc]
      | get other => rfl
      | list => rfl

theorem Named.next {store : MemoryStore} (h : store.Named) (c : StoreRequest) :
    (store.next c).Named := by
  cases c with
  | put s => exact h.put s
  | get name => exact h
  | list => exact h

theorem named_empty : Named Table.empty := by
  intro name s hs
  rw [Table.get?_empty] at hs
  cases hs

theorem named_foldl_next (calls : List StoreRequest) {store : MemoryStore} (h : store.Named) :
    (calls.foldl MemoryStore.next store).Named := by
  induction calls generalizing store with
  | nil => exact h
  | cons c calls ih => exact ih (h.next c)

theorem Named.mem_values {store : MemoryStore} (h : store.Named) {s : Snapshot} :
    s ∈ store.values ↔ store.get? s.name = some s := by
  rw [Table.mem_values]
  constructor
  · rintro ⟨key, hkey⟩
    rw [h key s hkey]
    exact hkey
  · exact fun hs => ⟨s.name, hs⟩

theorem Named.values_sorted {store : MemoryStore} (h : store.Named) :
    store.values.Pairwise fun a b => a.name < b.name := by
  have hname : ∀ e ∈ store.entries, e.2.name = e.1 := fun e he =>
    h e.1 e.2 (Table.get?_of_mem he)
  unfold Table.values
  rw [List.pairwise_map]
  refine store.sorted.imp_of_mem fun {a b} ha hb hlt => ?_
  rw [hname a ha, hname b hb]
  exact hlt

end MemoryStore

namespace StoreRequest

variable {m : Type → Type} [Monad m]

def perform (s : DocumentStore m) : StoreRequest → ExceptT Fault m StoreAnswer
  | .put u => do
      s.put u
      return .stored
  | .get name => do
      let found ← s.get name
      return .found found
  | .list => do
      let listed ← s.list
      return .listed listed

end StoreRequest

namespace DocumentStore

variable {σ : Type} {get : σ → Disk} {set : Disk → σ → σ} {path : String}
  {s : DocumentStore (StateM σ)} {store : MemoryStore} {x : σ}

theorem At.perform_cases (h : s.At get set path) (hheld : (get x).Holds path store)
    (c : StoreRequest) :
    (∃ y, (c.perform s).run x = (.ok (store.answer c), y) ∧
      (get y).Holds path (store.next c) ∧ ((get x).Accepts path → (get y).Accepts path)) ∨
    ¬(get x).Accepts path ∧ ∃ text y, (c.perform s).run x = (.error (.io text), y) := by
  cases c with
  | put u =>
      rcases h.put_cases hheld u with ⟨y, hput, hreplaced, hstill⟩ | ⟨hclosed, text, y, hput⟩
      · exact .inl ⟨y, run_bind_of_ok hput, Disk.holds_of_replaced hreplaced, hstill⟩
      · exact .inr ⟨hclosed, text, y, run_bind_of_error hput⟩
  | get name =>
      rcases h.document_cases hheld with hdocument | ⟨hclosed, text, hdocument⟩
      · exact .inl ⟨x, run_bind_of_ok (run_bind_of_ok hdocument), hheld, id⟩
      · exact .inr ⟨hclosed, text, x, run_bind_of_error (run_bind_of_error hdocument)⟩
  | list =>
      rcases h.document_cases hheld with hdocument | ⟨hclosed, text, hdocument⟩
      · exact .inl ⟨x, run_bind_of_ok (run_bind_of_ok hdocument), hheld, id⟩
      · exact .inr ⟨hclosed, text, x, run_bind_of_error (run_bind_of_error hdocument)⟩

def answers {m : Type → Type} [Monad m] :
    List (DocumentStore m × StoreRequest) → m (List (Except Fault StoreAnswer))
  | [] => return []
  | (s, c) :: calls => do
      let first ← (c.perform s).run
      let others ← answers calls
      return first :: others

theorem answers_cons (s : DocumentStore (StateM σ)) (c : StoreRequest)
    (calls : List (DocumentStore (StateM σ) × StoreRequest)) (x : σ) :
    (answers ((s, c) :: calls) x).1 =
      ((c.perform s).run x).1 :: (answers calls ((c.perform s).run x).2).1 := rfl

theorem answers_cases {calls : List (DocumentStore (StateM σ) × StoreRequest)}
    (hstores : ∀ c ∈ calls, c.1.At get set path) (hheld : (get x).Holds path store) :
    (answers calls x).1 = (store.answers (calls.map Prod.snd)).map .ok ∨
      ¬(get x).Accepts path ∧ ∃ text, .error (.io text) ∈ (answers calls x).1 := by
  -- the file holds what is in memory before every call, by induction on the calls to come
  induction calls generalizing store x with
  | nil => exact .inl rfl
  | cons c calls ih =>
      obtain ⟨s, c⟩ := c
      have hs : s.At get set path := hstores (s, c) (List.mem_cons_self ..)
      rw [answers_cons]
      rcases hs.perform_cases hheld c with ⟨y, hran, hnext, hstill⟩ | ⟨hclosed, text, y, hran⟩
      · rw [hran]
        rcases ih (fun d hd => hstores d (List.mem_cons_of_mem _ hd)) hnext with
          hall | ⟨hclosed, text, hmem⟩
        · left
          rw [hall]
          rfl
        · exact .inr ⟨fun haccepts => hclosed (hstill haccepts), text, List.mem_cons_of_mem _ hmem⟩
      · rw [hran]
        exact .inr ⟨hclosed, text, List.mem_cons_self ..⟩

/-- A store in a file, opened anew as often as one likes, answers as one in memory, and lists every
snapshot once, in the order of the names, as long as the disk takes the file or no operation on the
disk is seen to fail. -/
theorem answers_eq_in_memory {calls : List (DocumentStore (StateM σ) × StoreRequest)}
    (hstores : ∀ c ∈ calls, c.1.At get set path) (hempty : (get x).Holds path Table.empty)
    (hdisk : (get x).Accepts path ∨ ∀ text, .error (.io text) ∉ (answers calls x).1) :
    (answers calls x).1 = (MemoryStore.answers Table.empty (calls.map Prod.snd)).map .ok ∧
    ∀ n listed, (answers calls x).1[n]? = some (.ok (.listed listed)) →
      (listed.Pairwise fun a b => a.name < b.name) ∧
      ∀ u, u ∈ listed ↔ StoreRequest.lastPut u.name ((calls.map Prod.snd).take n) = some u := by
  have hsame : (answers calls x).1 =
      (MemoryStore.answers Table.empty (calls.map Prod.snd)).map .ok := by
    rcases answers_cases hstores hempty with hsame | ⟨hclosed, text, hmem⟩
    · exact hsame
    · rcases hdisk with haccepts | hquiet
      · exact absurd haccepts hclosed
      · exact absurd hmem (hquiet text)
  refine ⟨hsame, fun n listed hlisted => ?_⟩
  have hnamed := MemoryStore.named_foldl_next ((calls.map Prod.snd).take n)
    MemoryStore.named_empty
  rw [hsame, List.getElem?_map, MemoryStore.getElem?_answers] at hlisted
  cases hc : (calls.map Prod.snd)[n]? with
  | none =>
      rw [hc] at hlisted
      cases hlisted
  | some c =>
      rw [hc] at hlisted
      cases c with
      | put s => cases hlisted
      | get name => cases hlisted
      | list =>
          cases hlisted
          refine ⟨hnamed.values_sorted, fun u => ?_⟩
          rw [hnamed.mem_values, MemoryStore.get?_foldl_next, Table.get?_empty, Option.or_none]

theorem answers_eq_in_memory_after_reopening :
    ∃ (first second : DocumentStore (StateM (Disk × List Event))) (a b : Snapshot),
      first.path = "data/repositories.json" ∧ second.path = "data/repositories.json" ∧
      (answers [(first, .put b), (first, .put a), (second, .put (a.indexedAtCommit "sha")),
          (second, .get "a"), (first, .get ""), (second, .list)] (Table.empty, [])).1 =
        [.ok .stored, .ok .stored, .ok .stored, .ok (.found (some (a.indexedAtCommit "sha"))),
          .ok (.found none), .ok (.listed [a.indexedAtCommit "sha", b])] := by
  let get : Disk × List Event → Disk := Prod.fst
  let set : Disk → Disk × List Event → Disk × List Event := fun d x => (d, x.2)
  let path := "data/repositories.json"
  let first : DocumentStore (StateM (Disk × List Event)) :=
    ⟨Disk.files get set, fun e x => ((), (x.1, e :: x.2)), path⟩
  let second : DocumentStore (StateM (Disk × List Event)) :=
    ⟨Disk.files get set, fun _ x => ((), x), path⟩
  have hstores : ∀ calls : List (DocumentStore (StateM (Disk × List Event)) × StoreRequest),
      (∀ c ∈ calls, c.1 = first ∨ c.1 = second) → ∀ c ∈ calls, c.1.At get set path := by
    intro calls hcalls c hc
    rcases hcalls c hc with h | h
    · rw [h]
      exact ⟨rfl, rfl, fun _ _ => rfl, fun _ _ => rfl⟩
    · rw [h]
      exact ⟨rfl, rfl, fun _ _ => rfl, fun _ _ => rfl⟩
  have haccepts : Disk.Accepts Table.empty path := by
    refine ⟨⟨["data".toList], "repositories.json".toList, by decide, by decide⟩, ?_, ?_, ?_⟩
    · intro n hn content h
      cases h
    · intro h
      cases h
    · intro h
      cases h
  refine ⟨first, second, .fresh "a" "" "" "", .fresh "b" "" "" "", rfl, rfl, ?_⟩
  refine ((@answers_eq_in_memory _ get set path (Table.empty, []) _ (hstores _ ?_)
    (.inl ⟨rfl, rfl⟩) (.inl haccepts)).1).trans ?_
  · simp
  · rfl

end DocumentStore

end IndexRefresh
