import Mathlib.Data.List.TakeWhile
import IndexRefresh.Settings.Place

namespace IndexRefresh

/-- A word of an entry on a key: it gives a value for it, changes something inside of its value,
or puts something else in the place of a section that would hold it. -/
inductive Word where
  | given (value : Setting)
  | within (steps : List Step) (value : Setting)
  | gone

namespace Word

def after (old : Option Setting) : Word → Option Setting
  | given value => some value
  | within steps value => some (Setting.assign value steps old)
  | gone => none

def settle (old : Option Setting) (words : List Word) : Option Setting :=
  words.foldl after old

theorem settle_append (old : Option Setting) (ws ws' : List Word) :
    settle old (ws ++ ws') = settle (settle old ws) ws' :=
  List.foldl_append ..

theorem settle_given (old : Option Setting) (ws : List Word) (value : Setting) :
    settle old (ws ++ [.given value]) = some value :=
  settle_append ..

theorem settle_gone (old : Option Setting) (ws : List Word) :
    settle old (ws ++ [.gone]) = none :=
  settle_append ..

end Word

namespace Setting

def at? : List String → Setting → Option Setting
  | [], v => some v
  | k :: keys, v => (v.entries.lookup k).bind (at? keys)

theorem at?_append (keys more : List String) (v : Setting) :
    v.at? (keys ++ more) = (v.at? keys).bind (at? more) := by
  induction keys generalizing v with
  | nil => rfl
  | cons k keys ih =>
      rw [List.cons_append, at?, at?, Option.bind_assoc]
      exact congrArg _ (funext ih)

def words : List String → List Step → Setting → List Word
  | [], [], .branch es => [.within [] (.branch es)]
  | [], [], v => [.given v]
  | [], s :: steps, v => [.within (s :: steps) v]
  | k :: keys, [], .branch es => es.flatMap fun e => if e.1 = k then words keys [] e.2 else []
  | _ :: _, [], _ => [.gone]
  | k :: keys, .child k' :: steps, v => if k' = k then words keys steps v else []
  | _ :: _, .item _ :: _, _ => [.gone]

section Assign

variable {k : String} {keys : List String}

theorem at?_branch_put (k' : String) (v : Setting) (es : Entries Setting) :
    (branch (Entries.put k' v es)).at? (k :: keys) =
      if k' = k then v.at? keys else (branch es).at? (k :: keys) := by
  by_cases h : k' = k
  · rw [if_pos h, at?, h, entries, Entries.lookup_put_self]
    rfl
  · rw [if_neg h, at?, at?, entries, Entries.lookup_put_of_ne v es (Ne.symm h), entries]

theorem at?_entries (v : Setting) : (branch v.entries).at? (k :: keys) = v.at? (k :: keys) :=
  rfl

theorem at?_getD {start : Setting} (h : start.entries = []) (old : Option Setting) :
    (old.getD start).at? (k :: keys) = old.bind (at? (k :: keys)) := by
  cases old with
  | none => rw [Option.getD_none, at?, h]; rfl
  | some v => rfl

theorem at?_overlayAll (ih : ∀ (v : Setting) (old : Option Setting),
      (overlay old v).at? keys = Word.settle (old.bind (at? keys)) (words keys [] v))
    (es : Entries Setting) (root : Setting) :
    (overlayAll root es).at? (k :: keys) =
      Word.settle (root.at? (k :: keys))
        (es.flatMap fun e => if e.1 = k then words keys [] e.2 else []) := by
  induction es generalizing root with
  | nil => rfl
  | cons e es ihs =>
      obtain ⟨k', v⟩ := e
      rw [overlayAll, ihs, at?_branch_put, List.flatMap_cons, Word.settle_append]
      by_cases h : k' = k
      · rw [if_pos h, if_pos h, ih, h, at?]
      · rw [if_neg h, if_neg h, at?_entries]
        rfl

/-- What stands at a key after an entry depends on the words of the entry on that key, and on what
stood there, but on nothing else. -/
theorem at?_assign (keys : List String) (steps : List Step) (v : Setting) (old : Option Setting) :
    (assign v steps old).at? keys = Word.settle (old.bind (at? keys)) (words keys steps v) := by
  induction keys generalizing steps v old with
  | nil =>
      have hold : old.bind (at? []) = old := by cases old <;> rfl
      rw [hold]
      cases steps with
      | nil => cases v <;> rfl
      | cons s steps => rfl
  | cons k keys ih =>
      cases steps with
      | nil =>
          have hoverlay (v : Setting) (old : Option Setting) :
              (overlay old v).at? keys = Word.settle (old.bind (at? keys)) (words keys [] v) := by
            rw [← ih [] v old, assign]
          cases v with
          | branch es =>
              rw [assign, overlay, at?_overlayAll hoverlay, words, at?_getD rfl]
          | _ => rfl
      | cons s steps =>
          cases s with
          | child k' =>
              rw [assign, at?_branch_put, at?_entries, at?_getD rfl, words]
              by_cases h : k' = k
              · rw [if_pos h, if_pos h, ih, h]
                cases old <;> rfl
              · rw [if_neg h, if_neg h]
                rfl
          | item i =>
              rw [assign, words]
              split <;> rfl

end Assign

end Setting

namespace Place

theorem takeWhile_isKeyChar {name : List Char} (h : name.all Step.isKeyChar = true) :
    name.takeWhile Step.isKeyChar = name ∧ name.dropWhile Step.isKeyChar = [] :=
  ⟨List.takeWhile_eq_self_iff.2 (List.all_eq_true.1 h),
    List.dropWhile_eq_nil_iff.2 (List.all_eq_true.1 h)⟩

theorem ofText_key (name : List Char) (h : name.all Step.isKeyChar = true) (hne : name ≠ []) :
    ofText (String.ofList name) = ⟨String.ofList name, []⟩ := by
  have hempty : name.isEmpty = false := List.isEmpty_eq_false_iff.2 hne
  rw [ofText, String.toList_ofList, ofText?, (takeWhile_isKeyChar h).1, (takeWhile_isKeyChar h).2]
  simp [hempty, Step.ofText?]

theorem ofText_child (name key : List Char) (hname : name.all Step.isKeyChar = true)
    (hne : name ≠ []) (hkey : key.all Step.isKeyChar = true) (hkne : key ≠ []) :
    ofText (String.ofList (name ++ '.' :: key)) =
      ⟨String.ofList name, [.child (String.ofList key)]⟩ := by
  have hempty : name.isEmpty = false := List.isEmpty_eq_false_iff.2 hne
  have hkempty : key.isEmpty = false := List.isEmpty_eq_false_iff.2 hkne
  have hpoint : Step.isKeyChar '.' = false := by decide
  have htake : (name ++ '.' :: key).takeWhile Step.isKeyChar = name := by
    rw [List.takeWhile_append_of_pos (List.all_eq_true.1 hname)]
    simp [hpoint]
  have hdrop : (name ++ '.' :: key).dropWhile Step.isKeyChar = '.' :: key := by
    rw [List.dropWhile_append_of_pos (List.all_eq_true.1 hname)]
    simp [hpoint]
  have hstep : Step.ofText? ('.' :: key) = some [.child (String.ofList key)] := by
    rw [Step.ofText?, (takeWhile_isKeyChar hkey).1, (takeWhile_isKeyChar hkey).2]
    simp [hkempty, Step.ofText?]
  rw [ofText, String.toList_ofList, ofText?, htake, hdrop, hstep]
  simp [hempty]

end Place

namespace Layer

def wordsOn (keys : List String) (layer : Layer) : List Word :=
  layer.flatMap fun e => Setting.words keys (.child e.1.key :: e.1.steps) e.2

def value? (keys : List String) (layers : List Layer) : Option Setting :=
  Word.settle none (layers.flatMap (wordsOn keys))

variable {keys : List String}

theorem at?_apply (root : Setting) (layer : Layer) :
    (apply root layer).at? keys = Word.settle (root.at? keys) (wordsOn keys layer) := by
  induction layer generalizing root with
  | nil => rfl
  | cons e layer ih =>
      have hstep := Setting.at?_assign keys (.child e.1.key :: e.1.steps) e.2 (some root)
      rw [wordsOn, List.flatMap_cons, Word.settle_append]
      exact (ih _).trans (congrArg (fun old => Word.settle old (wordsOn keys layer)) hstep)

theorem at?_foldl_apply (root : Setting) (layers : List Layer) :
    (layers.foldl apply root).at? keys =
      Word.settle (root.at? keys) (layers.flatMap (wordsOn keys)) := by
  induction layers generalizing root with
  | nil => rfl
  | cons layer layers ih =>
      rw [List.foldl_cons, ih, at?_apply, List.flatMap_cons, Word.settle_append]

theorem at?_effective (k : String) (keys : List String) (layers : List Layer) :
    (effective layers).at? (k :: keys) = value? (k :: keys) layers :=
  at?_foldl_apply (.branch []) layers

theorem wordsOn_append (keys : List String) (l l' : Layer) :
    wordsOn keys (l ++ l') = wordsOn keys l ++ wordsOn keys l' :=
  List.flatMap_append

theorem value?_eq_flatten (keys : List String) (layers : List Layer) :
    value? keys layers = Word.settle none (wordsOn keys layers.flatten) := by
  rw [value?]
  congr 1
  induction layers with
  | nil => rfl
  | cons l layers ih => rw [List.flatMap_cons, List.flatten_cons, wordsOn_append, ih]

theorem value?_of_silent {layers : List Layer} (h : ∀ l ∈ layers, wordsOn keys l = []) :
    value? keys layers = none := by
  rw [value?, List.flatMap_eq_nil_iff.2 h]
  rfl

theorem value?_append_silent (before : List Layer) {after : List Layer}
    (h : ∀ l ∈ after, wordsOn keys l = []) : value? keys (before ++ after) = value? keys before := by
  rw [value?, List.flatMap_append, List.flatMap_eq_nil_iff.2 h, List.append_nil]
  rfl

theorem value?_of_given (before : List Layer) {layer : Layer} {after : List Layer}
    {ws : List Word} {value : Setting} (hgiven : wordsOn keys layer = ws ++ [.given value])
    (hsilent : ∀ l ∈ after, wordsOn keys l = []) :
    value? keys (before ++ layer :: after) = some value := by
  have hlist : before ++ layer :: after = before ++ [layer] ++ after := by simp
  rw [hlist, value?_append_silent _ hsilent, value?, List.flatMap_append, List.flatMap_singleton,
    hgiven, ← List.append_assoc, Word.settle_given]

theorem value?_of_gone (before : List Layer) {layer : Layer} {after : List Layer}
    {ws : List Word} (hgone : wordsOn keys layer = ws ++ [.gone])
    (hsilent : ∀ l ∈ after, wordsOn keys l = []) :
    value? keys (before ++ layer :: after) = none := by
  have hlist : before ++ layer :: after = before ++ [layer] ++ after := by simp
  rw [hlist, value?_append_silent _ hsilent, value?, List.flatMap_append, List.flatMap_singleton,
    hgone, ← List.append_assoc, Word.settle_gone]

end Layer

end IndexRefresh
