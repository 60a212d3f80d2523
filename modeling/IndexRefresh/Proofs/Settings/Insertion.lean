import IndexRefresh.Proofs.Settings.Keys

namespace IndexRefresh

namespace Setting

theorem words_of_apart {keys : List String} (path : List String) (x : Setting)
    (h : ¬keys <+: path) (h' : ¬path <+: keys) : words keys (path.map .child) x = [] := by
  induction keys generalizing path with
  | nil => exact absurd List.nil_prefix h
  | cons k keys ih =>
      cases path with
      | nil => exact absurd List.nil_prefix h'
      | cons k' path =>
          rw [List.map_cons, words]
          split
          · next heq =>
              rw [heq, List.cons_prefix_cons] at h'
              rw [heq, List.cons_prefix_cons] at h
              exact ih path (fun hp => h ⟨rfl, hp⟩) (fun hp => h' ⟨rfl, hp⟩)
          · rfl

theorem words_of_text? {x : Setting} {t : String} (hx : x.text? = some t) (path : List String) :
    words path (path.map .child) x = [.given x] := by
  induction path with
  | nil =>
      cases x with
      | null => cases hx
      | list _ => cases hx
      | branch _ => cases hx
      | _ => rfl
  | cons k path ih =>
      rw [List.map_cons]
      exact (if_pos rfl).trans ih

end Setting

namespace Layer

open Setting (IsSection reading)

def entry (k : String) (keys : List String) (x : Setting) : Place × Setting :=
  (⟨k, keys.map .child⟩, x)

theorem wordsOn_entry (k : String) (keys : List String) {x : Setting} {t : String}
    (hx : x.text? = some t) : wordsOn (k :: keys) [entry k keys x] = [.given x] := by
  rw [wordsOn, List.flatMap_singleton]
  exact Setting.words_of_text? hx (k :: keys)

theorem wordsOn_entry_of_apart {k : String} {keys path : List String} (x : Setting)
    (h : ¬path <+: k :: keys) (h' : ¬k :: keys <+: path) : wordsOn path [entry k keys x] = [] := by
  rw [wordsOn, List.flatMap_singleton]
  exact Setting.words_of_apart (k :: keys) x h h'

/-- One entry more, which gives a value for a key, and after it no word on that key. -/
def Insertion (k : String) (keys : List String) (x : Setting) (layers layers' : List Layer) :
    Prop :=
  ∃ before after : Layer, layers.flatten = before ++ after ∧
    layers'.flatten = before ++ [entry k keys x] ++ after ∧ wordsOn (k :: keys) after = []

namespace Insertion

variable {k : String} {keys path : List String} {x : Setting} {t : String}
  {layers layers' : List Layer}

theorem value? (h : Insertion k keys x layers layers') (hx : x.text? = some t) :
    value? (k :: keys) layers' = some x := by
  obtain ⟨before, after, -, hlayers', hafter⟩ := h
  rw [value?_eq_flatten, hlayers', wordsOn_append, wordsOn_append,
    wordsOn_entry k keys hx, hafter, List.append_nil, Word.settle_given]

theorem value?_of_apart (h : Insertion k keys x layers layers') (hpath : ¬path <+: k :: keys)
    (hpath' : ¬k :: keys <+: path) : Layer.value? path layers' = Layer.value? path layers := by
  obtain ⟨before, after, hlayers, hlayers', -⟩ := h
  rw [value?_eq_flatten, value?_eq_flatten, hlayers, hlayers', wordsOn_append, wordsOn_append,
    wordsOn_append, wordsOn_entry_of_apart x hpath hpath', List.append_nil]

theorem reading_kept {α : Type} [SettingForm α] {standard a : α}
    (h : Insertion k keys x layers layers') (name : String) (hname : name ≠ k)
    (ha : reading standard (Layer.value? [name] layers) = some a) :
    reading standard (Layer.value? [name] layers') = some a := by
  rw [h.value?_of_apart (by simp [hname]) (by simp [Ne.symm hname])]
  exact ha

theorem section_kept (h : Insertion k keys x layers layers') (name : String) (hname : name ≠ k)
    {names : List String} {α : Type} {Reads : (String → Option Setting) → α → Prop} {a : α}
    (hs : IsSection (Layer.value? [name] layers) ∧ Reads (inSection? name names layers) a) :
    IsSection (Layer.value? [name] layers') ∧ Reads (inSection? name names layers') a := by
  have hvalue : Layer.value? [name] layers' = Layer.value? [name] layers :=
    h.value?_of_apart (by simp [hname]) (by simp [Ne.symm hname])
  rw [hvalue, inSection?_congr hvalue]
  exact hs

theorem exists_reading {α : Type} [SettingForm α] {standard a : α} {name key key' : String}
    {names : List String} (h : Insertion name [key] x layers layers') (hkey : key' ≠ key)
    (ha : reading standard (inSection? name names layers key') = some a) :
    ∃ b, reading standard (Layer.value? [name, key'] layers') = some b := by
  rw [h.value?_of_apart (by simp [hkey]) (by simp [Ne.symm hkey])]
  rcases value?_eq_inSection?_or name names layers key' with hvalue | hvalue
  · exact ⟨a, hvalue ▸ ha⟩
  · exact ⟨standard, by rw [hvalue]; rfl⟩

end Insertion

end Layer

end IndexRefresh
