import IndexRefresh.Disk
import IndexRefresh.Proofs.Fallible

namespace IndexRefresh

namespace Disk

theorem key_append_singleton (xs : List String) (x : String) :
    key (xs ++ [x]) = key xs ++ "/" ++ x := by
  simp [key]

theorem length_key_append (xs ys : List String) :
    (key xs).length + ys.length ≤ (key (xs ++ ys)).length := by
  induction ys generalizing xs with
  | nil => simp
  | cons y ys ih =>
      have h := ih (xs ++ [y])
      rw [List.append_assoc, List.singleton_append, key_append_singleton] at h
      have hslash : "/".length = 1 := rfl
      simp only [String.length_append, List.length_cons] at h ⊢
      omega

theorem length_key_take_lt {xs : List String} {n : Nat} (h : n < xs.length) :
    (key (xs.take n)).length < (key xs).length := by
  have hlen := length_key_append (xs.take n) (xs.drop n)
  rw [List.take_append_drop, List.length_drop] at hlen
  omega

theorem length_key_take_le (xs : List String) (n : Nat) :
    (key (xs.take n)).length ≤ (key xs).length := by
  have hlen := length_key_append (xs.take n) (xs.drop n)
  rw [List.take_append_drop] at hlen
  omega

theorem checkAbove_eq_ok {d : Disk} {above : List String} :
    d.checkAbove above = .ok () ↔
      ∀ n, n < above.length → d.get? (key (above.take (n + 1))) = some .directory := by
  unfold checkAbove
  rw [forM_eq_ok]
  constructor
  · intro h n hn
    have hx := h n (List.mem_range.2 hn)
    split at hx
    · cases hx
    · next hdir => exact hdir
    · cases hx
  · intro h n hn
    rw [h n (List.mem_range.1 hn)]

theorem checkAbove_congr {d e : Disk} {path : String}
    (h : ∀ n, n < (names path).length →
      e.get? (key ((names path).take n)) = d.get? (key ((names path).take n))) :
    e.checkAbove (names path).dropLast = d.checkAbove (names path).dropLast := by
  cases hlen : (names path).length with
  | zero =>
      rw [List.length_eq_zero_iff.1 hlen]
      rfl
  | succ len =>
      unfold checkAbove
      congr 1
      funext n
      have htake : (names path).dropLast.take (n + 1) = (names path).take (min (n + 1) len) := by
        rw [List.dropLast_eq_take, List.take_take, hlen, Nat.add_sub_cancel]
      rw [htake, h _ (by omega)]

theorem find?_congr {d e : Disk} {path : String}
    (h : ∀ n, e.get? (key ((names path).take n)) = d.get? (key ((names path).take n))) :
    e.find? path = d.find? path := by
  have hself : e.get? (key (names path)) = d.get? (key (names path)) := by
    simpa using h (names path).length
  unfold find?
  simp only [checkAbove_congr fun n _ => h n, hself]

theorem read_congr {d e : Disk} {path : String}
    (h : ∀ n, e.get? (key ((names path).take n)) = d.get? (key ((names path).take n))) :
    e.read path = d.read path := by
  unfold read
  rw [find?_congr h]

theorem get?_insert_of_longer {d : Disk} {k path : String} {node : DiskNode}
    (hk : (key (names path)).length < k.length) (n : Nat) :
    Table.get? (d.insert k node) (key ((names path).take n)) =
      d.get? (key ((names path).take n)) := by
  refine Table.get?_insert_of_ne _ _ fun heq => ?_
  have hle := length_key_take_le (names path) n
  rw [heq] at hle
  omega

theorem find?_eq_ok {d : Disk} {path : String} {node : Option DiskNode}
    (h : d.find? path = .ok node) :
    path.isEmpty = false ∧ d.checkAbove (names path).dropLast = .ok () ∧
      (names path = [] ∧ node = some .directory ∨
        names path ≠ [] ∧ node = d.get? (key (names path))) := by
  unfold find? at h
  cases hempty : path.isEmpty with
  | true => simp [hempty, bind, Except.bind, throw, throwThe, MonadExceptOf.throw] at h
  | false =>
      cases habove : d.checkAbove (names path).dropLast with
      | error e => simp [hempty, habove, bind, Except.bind] at h
      | ok u =>
          refine ⟨rfl, rfl, ?_⟩
          simp only [hempty, habove, bind, Except.bind, Bool.false_eq_true, if_false] at h
          split at h
          · next hnames => exact .inl ⟨hnames, (Except.ok.inj h).symm⟩
          · next hnames =>
              refine .inr ⟨hnames, ?_⟩
              split at h
              · cases h
              · exact (Except.ok.inj h).symm

theorem find?_of_get? {d : Disk} {path : String} (hempty : path.isEmpty = false)
    (habove : d.checkAbove (names path).dropLast = .ok ()) (hnames : names path ≠ [])
    (hslash : path.toList.getLast? ≠ some '/') :
    d.find? path = .ok (d.get? (key (names path))) := by
  unfold find?
  simp only [hempty, habove, bind, Except.bind, Bool.false_eq_true, if_false]
  split
  · next h => exact absurd h hslash
  · rfl

theorem read_eq_ok {d : Disk} {path : String} {content : ByteArray}
    (h : d.read path = .ok content) :
    d.checkAbove (names path).dropLast = .ok () ∧
      d.get? (key (names path)) = some (.file content) := by
  unfold read at h
  cases hfind : d.find? path with
  | error e => simp [hfind, bind, Except.bind] at h
  | ok node =>
      obtain ⟨-, habove, hnode⟩ := find?_eq_ok hfind
      refine ⟨habove, ?_⟩
      rw [hfind] at h
      cases node with
      | none => cases h
      | some node =>
          cases node with
          | directory => cases h
          | file stored =>
              cases h
              rcases hnode with ⟨-, hdir⟩ | ⟨-, hnode⟩
              · cases hdir
              · exact hnode.symm

theorem read_of_get?_eq_none {d : Disk} {path : String}
    (h : d.get? (key (names path)) = none) (content : ByteArray) :
    d.read path ≠ .ok content := by
  intro hread
  rw [(read_eq_ok hread).2] at h
  cases h

theorem write_eq_ok {d e : Disk} {path : String} {content : ByteArray}
    (h : d.write path content = .ok e) :
    e = d.insert (key (names path)) (.file content) ∧ path.isEmpty = false ∧
      d.checkAbove (names path).dropLast = .ok () ∧ names path ≠ [] ∧
      path.toList.getLast? ≠ some '/' := by
  unfold write at h
  cases hfind : d.find? path with
  | error e => simp [hfind, bind, Except.bind] at h
  | ok node =>
      obtain ⟨hempty, habove, hnode⟩ := find?_eq_ok hfind
      rw [hfind] at h
      have hfile : node ≠ some .directory := by
        intro hdir
        rw [hdir] at h
        cases h
      have hnames : names path ≠ [] := by
        rcases hnode with ⟨-, hdir⟩ | ⟨hnames, -⟩
        · exact absurd hdir hfile
        · exact hnames
      have h : (if path.toList.getLast? = some '/' then throw OsError.isDirectory
          else return Table.insert d (key (names path)) (.file content) :
          Except OsError Disk) = .ok e := by
        cases node with
        | none => exact h
        | some node =>
            cases node with
            | directory => exact absurd rfl hfile
            | file stored => exact h
      split at h
      · cases h
      · next hslash => exact ⟨(Except.ok.inj h).symm, hempty, habove, hnames, hslash⟩

theorem get?_write_of_longer {d e : Disk} {path other : String} {content : ByteArray}
    (h : d.write other content = .ok e)
    (hlonger : (key (names path)).length < (key (names other)).length) (n : Nat) :
    e.get? (key ((names path).take n)) = d.get? (key ((names path).take n)) := by
  rw [(write_eq_ok h).1]
  exact get?_insert_of_longer hlonger n

theorem read_write_self {d e : Disk} {path : String} {content : ByteArray}
    (h : d.write path content = .ok e) : e.read path = .ok content := by
  obtain ⟨rfl, hempty, habove, hnames, hslash⟩ := write_eq_ok h
  have habove : Disk.checkAbove (Table.insert d (key (names path)) (.file content))
      (names path).dropLast = .ok () := by
    refine (checkAbove_congr fun n hn => ?_).trans habove
    refine Table.get?_insert_of_ne _ _ fun heq => ?_
    have hlt := length_key_take_lt hn
    rw [heq] at hlt
    omega
  unfold read
  rw [find?_of_get? hempty habove hnames hslash, Table.get?_insert_self]
  rfl

theorem get?_remove (d : Disk) (path k : String) :
    (d.remove path).get? k = if k = key (names path) then none else d.get? k := by
  obtain ⟨es, hs⟩ := d
  change (es.filter fun e => e.1 ≠ key (names path)).lookup k = _
  change _ = if k = key (names path) then none else es.lookup k
  clear hs
  induction es with
  | nil => simp
  | cons e es ih =>
      rw [Entries.lookup_cons, List.filter_cons]
      by_cases hgone : e.1 = key (names path)
      · rw [if_neg (by simpa using hgone), ih]
        by_cases hk : k = key (names path)
        · rw [if_pos hk, if_pos hk]
        · have hne : ¬k = e.1 := fun heq => hk (heq.trans hgone)
          rw [if_neg hk, if_neg hk, if_neg hne]
      · rw [if_pos (by simpa using hgone), Entries.lookup_cons, ih]
        by_cases hk : k = key (names path)
        · have hne : ¬k = e.1 := fun heq => hgone (heq.symm.trans hk)
          rw [if_pos hk, if_pos hk, if_neg hne]
        · rw [if_neg hk, if_neg hk]

theorem read_rename {d e : Disk} {source path : String} {content : ByteArray}
    (h : d.rename source path = .ok e) (hread : d.read source = .ok content)
    (hlonger : (key (names path)).length < (key (names source)).length) :
    e.read path = .ok content := by
  unfold rename at h
  rw [hread] at h
  cases hwrite : d.write path content with
  | error e => simp [hwrite, bind, Except.bind] at h
  | ok moved =>
      have hne : ¬key (names source) = key (names path) := by
        intro heq
        rw [heq] at hlonger
        omega
      have he : e = moved.remove source := by
        simp only [hwrite, bind, Except.bind, hne, if_false] at h
        exact (Except.ok.inj h).symm
      have hkept (n : Nat) : e.get? (key ((names path).take n)) =
          moved.get? (key ((names path).take n)) := by
        rw [he, get?_remove, if_neg]
        intro heq
        have hle := length_key_take_le (names path) n
        rw [heq] at hle
        omega
      rw [read_congr hkept]
      exact read_write_self hwrite

theorem getLast?_of_find? {d : Disk} {path : String} {content : ByteArray}
    (h : d.find? path = .ok (some (.file content))) : path.toList.getLast? ≠ some '/' := by
  intro hslash
  obtain ⟨hempty, habove, ⟨-, hnode⟩ | ⟨hnames, hnode⟩⟩ := find?_eq_ok h
  · cases hnode
  · unfold find? at h
    simp only [hempty, habove, bind, Except.bind, Bool.false_eq_true, if_false, ← hnode,
      hslash] at h
    cases h

theorem exists_write_of_read {d : Disk} {path : String} {stored : ByteArray}
    (h : d.read path = .ok stored) (content : ByteArray) : ∃ e, d.write path content = .ok e := by
  unfold read at h
  cases hfind : d.find? path with
  | error e => simp [hfind, bind, Except.bind] at h
  | ok node =>
      rw [hfind] at h
      cases node with
      | none => cases h
      | some node =>
          cases node with
          | directory => cases h
          | file stored =>
              refine ⟨d.insert (key (names path)) (.file content), ?_⟩
              unfold write
              rw [hfind]
              exact if_neg (getLast?_of_find? hfind)

theorem exists_rename {d e : Disk} {source path : String} {content : ByteArray}
    (hread : d.read source = .ok content) (hwrite : d.write path content = .ok e) :
    ∃ moved, d.rename source path = .ok moved := by
  refine ⟨if key (names source) = key (names path) then e else e.remove source, ?_⟩
  unfold rename
  rw [hread]
  change (d.write path content).bind _ = _
  rw [hwrite]
  rfl

theorem createDirectory_of_directories {d : Disk} {path : String}
    (h : ∀ n, n < (names path).length →
      d.get? (key ((names path).take (n + 1))) = some .directory) :
    d.createDirectory path = .ok d := by
  unfold createDirectory
  refine foldlM_eq_self fun n hn => ?_
  dsimp only
  rw [h n (List.mem_range.1 hn)]

theorem get?_createDirectory {d e : Disk} {path k : String}
    (h : d.createDirectory path = .ok e)
    (hk : ∀ n, n < (names path).length → k ≠ key ((names path).take (n + 1))) :
    e.get? k = d.get? k := by
  unfold createDirectory at h
  refine foldlM_invariant (P := fun e => e.get? k = d.get? k) (fun b n c hn hb hc => ?_) h rfl
  dsimp only at hc
  split at hc
  · cases hc
    rw [← hb]
    exact Table.get?_insert_of_ne _ _ (hk n (List.mem_range.1 hn))
  · cases hc
    exact hb
  · cases hc

end Disk

namespace FilePath

open Disk (names key key_append_singleton)

def steps (pieces : List (List Char)) : List String :=
  (pieces.filter fun n => !isSelf n).map String.ofList

theorem steps_append (xs ys : List (List Char)) : steps (xs ++ ys) = steps xs ++ steps ys := by
  simp [steps]

theorem steps_of_isSelf {pieces : List (List Char)} (h : ∀ p ∈ pieces, isSelf p = true) :
    steps pieces = [] := by
  unfold steps
  rw [List.map_eq_nil_iff, List.filter_eq_nil_iff]
  intro p hp
  simp [h p hp]

theorem steps_singleton {piece : List Char} (h : isSelf piece = false) :
    steps [piece] = [String.ofList piece] := by
  simp [steps, h]

theorem names_eq_steps (path : String) : names path = steps (Text.split '/' path.toList) := rfl

theorem length_key_names_tmp (path : String) :
    (key (names path)).length < (key (names (path ++ ".tmp"))).length := by
  have hslash : '/' ∉ ".tmp".toList := by decide
  obtain ⟨pieces, last, hs, happend⟩ := Text.split_append path.toList hslash
  have htmp : isSelf (last ++ ".tmp".toList) = false := by
    cases last with
    | nil => rfl
    | cons c last =>
        cases last with
        | nil => simp [isSelf]
        | cons d last => simp [isSelf]
  rw [names_eq_steps, names_eq_steps, String.toList_append, happend, hs, steps_append,
    steps_append, steps_singleton htmp, key_append_singleton]
  have hlen : (String.ofList (last ++ ".tmp".toList)).length = last.length + 4 := by
    rw [String.length_ofList, List.length_append]
    rfl
  have hone : "/".length = 1 := rfl
  cases hself : isSelf last with
  | true =>
      have hnone : steps [last] = [] := steps_of_isSelf (by simpa using hself)
      rw [hnone, List.append_nil]
      simp only [String.length_append]
      omega
  | false =>
      rw [steps_singleton hself, key_append_singleton]
      simp only [String.length_append, String.length_ofList] at hlen ⊢
      omega

theorem dropWhile_isSelf (pieces : List (List Char)) :
    ∃ before, pieces = before ++ pieces.dropWhile isSelf ∧ ∀ p ∈ before, isSelf p = true := by
  refine ⟨pieces.takeWhile isSelf, (List.takeWhile_append_dropWhile).symm, fun p hp => ?_⟩
  have hall := List.all_takeWhile (p := isSelf) (l := pieces)
  exact List.all_eq_true.1 hall p hp

theorem names_parent {path parent : String} (h : parent? path = some parent) :
    ∃ name, names path = names parent ++ [name] := by
  obtain ⟨after, hsplit, hafter⟩ := dropWhile_isSelf (Text.split '/' path.toList).reverse
  unfold parent? at h
  cases hdrop : (Text.split '/' path.toList).reverse.dropWhile isSelf with
  | nil => simp [hdrop] at h
  | cons last above =>
      have hlast : isSelf last = false := by
        have hhead := List.head?_dropWhile_not isSelf (Text.split '/' path.toList).reverse
        rw [hdrop] at hhead
        simpa using hhead
      rw [hdrop] at hsplit h
      obtain ⟨middle, habove, hmiddle⟩ := dropWhile_isSelf above
      have hnames : names path = steps (above.dropWhile isSelf).reverse ++ [String.ofList last] := by
        have hpieces : Text.split '/' path.toList =
            (above.dropWhile isSelf).reverse ++ middle.reverse ++ [last] ++ after.reverse := by
          rw [← List.reverse_reverse (Text.split '/' path.toList), hsplit]
          conv => lhs; rw [habove]
          simp
        rw [names_eq_steps, hpieces, steps_append, steps_append, steps_append,
          steps_of_isSelf (fun p hp => hmiddle p (List.mem_reverse.1 hp)),
          steps_of_isSelf (fun p hp => hafter p (List.mem_reverse.1 hp)), steps_singleton hlast]
        simp
      refine ⟨String.ofList last, ?_⟩
      rw [hnames]
      congr 1
      cases above with
      | nil => simp at h
      | cons next rest =>
          dsimp only at h
          cases hrest : (next :: rest).dropWhile isSelf with
          | nil =>
              rw [hrest] at h
              have hparent : parent = "/" ∨ parent = "." := by
                simp only [Option.some.injEq] at h
                split at h
                · exact .inl h.symm
                · exact .inr h.symm
              rcases hparent with rfl | rfl <;> rfl
          | cons top others =>
              rw [hrest] at h
              cases h
              have hclean : ∀ p ∈ (top :: others).reverse, '/' ∉ p := by
                intro p hp
                refine @Text.not_mem_of_mem_split '/' path.toList p ?_
                rw [← List.mem_reverse, hsplit]
                have hmem : p ∈ (next :: rest).dropWhile isSelf := by
                  rw [hrest]
                  exact List.mem_reverse.1 hp
                exact List.mem_append_right _ (List.mem_cons_of_mem _
                  (List.dropWhile_sublist _ |>.mem hmem))
              rw [names_eq_steps, String.toList_ofList, Text.split_eq_splitOn,
                List.splitOn_intercalate _ hclean (by simp)]

theorem names_parent_isPrefix {path parent : String} (h : parent? path = some parent) :
    names parent <+: (names path).dropLast := by
  obtain ⟨name, hnames⟩ := names_parent h
  refine ⟨[], ?_⟩
  rw [hnames, List.dropLast_concat, List.append_nil]

end FilePath

namespace Disk

theorem take_of_isPrefix {xs ys : List String} (h : xs <+: ys) {n : Nat} (hn : n < xs.length) :
    ys.take (n + 1) = xs.take (n + 1) := by
  obtain ⟨zs, rfl⟩ := h
  exact List.take_append_of_le_length hn

theorem createDirectory_of_read {d : Disk} {path directory : String} {content : ByteArray}
    (habove : names directory <+: (names path).dropLast) (hread : d.read path = .ok content) :
    d.createDirectory directory = .ok d := by
  have hdirs := checkAbove_eq_ok.1 (read_eq_ok hread).1
  refine createDirectory_of_directories fun n hn => ?_
  rw [← take_of_isPrefix habove hn]
  exact hdirs n (Nat.lt_of_lt_of_le hn habove.length_le)

end Disk

end IndexRefresh
