import IndexRefresh.Http.Url
import IndexRefresh.Proofs.Text.Bytes
import IndexRefresh.Proofs.Text.Cut

namespace IndexRefresh.Http.Url

section Escapes

variable {mustEscape : Char → Bool} {cs ds : List Char}

def byteOf (high low : Char) : UInt8 :=
  UInt8.ofNat ((Text.hexValue? high).getD 0 * 16 + (Text.hexValue? low).getD 0)

def bytesOf : List Char → List UInt8
  | '%' :: high :: low :: cs => byteOf high low :: bytesOf cs
  | c :: cs => String.utf8EncodeChar c ++ bytesOf cs
  | [] => []

theorem bytesOf_cons_of_ne {c : Char} (h : c ≠ '%') (cs : List Char) :
    bytesOf (c :: cs) = String.utf8EncodeChar c ++ bytesOf cs := by
  rw [bytesOf]
  rintro high low rest rfl
  exact absurd rfl h

theorem exists_escapedByte (b : UInt8) :
    ∃ high low, escapedByte b = ['%', high, low] ∧ byteOf high low = b := by
  have hall : ∀ n : Fin 256, (escapedByte (UInt8.ofNat n)).length = 3 ∧
      (escapedByte (UInt8.ofNat n)).head? = some '%' ∧
      byteOf ((escapedByte (UInt8.ofNat n))[1]!) ((escapedByte (UInt8.ofNat n))[2]!) =
        UInt8.ofNat n := by
    decide +kernel
  obtain ⟨hlength, hhead, hbyte⟩ := hall ⟨b.toNat, b.toNat_lt⟩
  rw [UInt8.ofNat_toNat] at hlength hhead hbyte
  match escapedByte b, hlength, hhead, hbyte with
  | [mark, high, low], _, hhead, hbyte => exact ⟨high, low, by simpa using hhead, hbyte⟩

theorem bytesOf_escapedByte_append (b : UInt8) (cs : List Char) :
    bytesOf (escapedByte b ++ cs) = b :: bytesOf cs := by
  obtain ⟨high, low, hb, hbyte⟩ := exists_escapedByte b
  rw [hb, ← hbyte]
  simp only [List.cons_append, List.nil_append, bytesOf]

theorem bytesOf_flatMap_append (bs : List UInt8) (cs : List Char) :
    bytesOf (bs.flatMap escapedByte ++ cs) = bs ++ bytesOf cs := by
  induction bs with
  | nil => rfl
  | cons b bs ih =>
      rw [List.flatMap_cons, List.append_assoc, bytesOf_escapedByte_append, ih, List.cons_append]

theorem percentEncode_append (mustEscape : Char → Bool) (cs ds : List Char) :
    percentEncode mustEscape (cs ++ ds) =
      percentEncode mustEscape cs ++ percentEncode mustEscape ds :=
  List.flatMap_append

theorem bytesOf_percentEncode (h : '%' ∉ cs) :
    bytesOf (percentEncode mustEscape cs) = cs.flatMap String.utf8EncodeChar := by
  induction cs with
  | nil => rfl
  | cons c cs ih =>
      have hc : c ≠ '%' := fun heq => h (heq ▸ List.mem_cons_self ..)
      have hcs : '%' ∉ cs := fun hmem => h (List.mem_cons_of_mem c hmem)
      have hcons : percentEncode mustEscape (c :: cs) =
          (if mustEscape c then (String.singleton c).toUTF8.toList.flatMap escapedByte else [c]) ++
            percentEncode mustEscape cs := List.flatMap_cons
      rw [hcons, List.flatMap_cons, ← ih hcs]
      split
      · have hbytes : (String.singleton c).toUTF8.toList = String.utf8EncodeChar c := by
          rw [← List.append_nil (String.utf8EncodeChar c)]
          exact Text.toList_toUTF8 [c]
        rw [bytesOf_flatMap_append, hbytes]
      · exact bytesOf_cons_of_ne hc _

theorem eq_of_percentEncode (hcs : '%' ∉ cs) (hds : '%' ∉ ds)
    (h : percentEncode mustEscape cs = percentEncode mustEscape ds) : cs = ds := by
  apply Text.eq_of_flatMap_utf8EncodeChar
  rw [← bytesOf_percentEncode hcs, h, bytesOf_percentEncode hds]

theorem percentEncode_cons_of_false {c : Char} (h : mustEscape c = false) (cs : List Char) :
    percentEncode mustEscape (c :: cs) = c :: percentEncode mustEscape cs := by
  rw [← List.singleton_append, percentEncode_append]
  simp [percentEncode, h]

theorem flatMap_split {mark : Char} (h : mustEscape mark = false) (cs : List Char) :
    (Text.split mark cs).flatMap (fun piece => mark :: percentEncode mustEscape piece) =
      mark :: percentEncode mustEscape cs := by
  induction cs with
  | nil => rfl
  | cons c cs ih =>
      by_cases heq : c = mark
      · subst heq
        rw [Text.split_cons_self, List.flatMap_cons, ih, percentEncode_cons_of_false h]
        rfl
      · obtain ⟨piece, pieces, hs⟩ := List.exists_cons_of_ne_nil (Text.split_ne_nil mark cs)
        rw [hs, List.flatMap_cons, List.cons_append, List.cons.injEq] at ih
        rw [Text.split_cons_of_ne heq hs, List.flatMap_cons, ← List.singleton_append (x := c) (l := cs),
          percentEncode_append, ← ih.2, ← List.singleton_append (x := c) (l := piece),
          percentEncode_append]
        simp

end Escapes

def lead (cs : List Char) : List Char :=
  (cs.dropWhile fun c => c.toNat ≤ 0x20).filter fun c => !(c == '\t' || c == '\n' || c == '\r')

section Reading

variable {c : Char} {cs ds before name : List Char}

theorem lead_append_cons (hc : 0x20 < c.toNat) (hcs : ∀ d ∈ cs, 0x20 < d.toNat)
    (before : List Char) : lead (before ++ c :: cs) = lead before ++ c :: cs := by
  have hplain : ∀ d ∈ c :: cs, 0x20 < d.toNat := List.forall_mem_cons.2 ⟨hc, hcs⟩
  have hwhole : (c :: cs).filter (fun c => !(c == '\t' || c == '\n' || c == '\r')) = c :: cs := by
    refine List.filter_eq_self.2 fun d hd => ?_
    have hd := hplain d hd
    simp only [Bool.not_eq_true', Bool.or_eq_false_iff, beq_eq_false_iff_ne]
    refine ⟨⟨?_, ?_⟩, ?_⟩ <;> (rintro rfl; exact absurd hd (by decide))
  have hkept : decide (c.toNat ≤ 0x20) = false := decide_eq_false (Nat.not_le.2 hc)
  rw [lead, Text.dropWhile_append_cons hkept, List.filter_append, hwhole]
  rfl

theorem cleaned_append (hc : 0x20 < c.toNat) (hcs : ∀ d ∈ cs, 0x20 < d.toNat) (before : List Char) :
    cleaned (before ++ c :: cs) = lead before ++ c :: cs := by
  have hplain : ∀ d ∈ c :: cs, 0x20 < d.toNat := List.forall_mem_cons.2 ⟨hc, hcs⟩
  have hkept : ∀ d ∈ c :: cs, decide (d.toNat ≤ 0x20) = false := fun d hd =>
    decide_eq_false (Nat.not_le.2 (hplain d hd))
  rw [← lead_append_cons hc hcs, cleaned, Text.strip, Text.dropStart, lead,
    Text.dropWhile_append_cons (hkept c (List.mem_cons_self ..)),
    Text.dropEnd_append_cons (hkept c (List.mem_cons_self ..)),
    Text.dropEnd_of_all_false fun d hd => hkept d (List.mem_cons_of_mem c hd)]

theorem scheme?_append (h : ':' ∉ cs) (before : List Char) :
    scheme? (before ++ cs) = (scheme? before).map fun p => (p.1, p.2 ++ cs) := by
  unfold scheme?
  rw [Text.cutAt_append_of_not_mem h]
  cases Text.cutAt ':' before with
  | none => rfl
  | some parts =>
      simp only [Option.map_some]
      split <;> rfl

theorem scheme?_snd {scheme : String} {rest : List Char} (h : scheme? before = some (scheme, rest)) :
    ∃ front, before = front ++ ':' :: rest ∧ ':' ∉ front := by
  unfold scheme? at h
  cases hcut : Text.cutAt ':' before with
  | none =>
      rw [hcut] at h
      cases h
  | some parts =>
      obtain ⟨front, after⟩ := parts
      rw [hcut] at h
      dsimp only at h
      split at h
      · cases h
        exact ⟨_, Text.eq_of_cutAt hcut⟩
      · cases h

theorem splitQuery_append (hbefore : '#' ∉ before) (hcs : '?' ∉ cs) :
    splitQuery (before ++ cs) =
      match splitQuery before with
      | (path, some query) => (path, some (query ++ cs.takeWhile (· != '#')))
      | (path, none) => (path ++ cs.takeWhile (· != '#'), none) := by
  have hall : ∀ d ∈ before, (d != '#') = true := by
    intro d hd
    rw [bne_iff_ne]
    rintro rfl
    exact hbefore hd
  have hkept : '?' ∉ cs.takeWhile (· != '#') := fun hmem =>
    hcs ((List.takeWhile_prefix _).subset hmem)
  have hself : before.takeWhile (· != '#') = before := List.takeWhile_eq_self_iff.2 hall
  unfold splitQuery
  rw [List.takeWhile_append_of_pos hall, hself]
  dsimp only
  rw [Text.cutAt_append_of_not_mem hkept]
  cases Text.cutAt '?' before with
  | none => rfl
  | some parts => rfl

theorem splitQuery_fragment (before cs : List Char) :
    splitQuery (before ++ '#' :: cs) = splitQuery before := by
  unfold splitQuery
  rw [Text.takeWhile_append_cons (by decide)]

end Reading

section Paths

variable {c : Char} {cs before : List Char}

def Undotted (cs : List Char) : Prop :=
  ∀ piece ∈ Text.split '/' cs, isSingleDot piece = false ∧ isDoubleDot piece = false

theorem foldl_addSegment {pieces : List (List Char)}
    (h : ∀ piece ∈ pieces, isSingleDot piece = false ∧ isDoubleDot piece = false)
    (segments : List (List Char)) :
    pieces.foldl addSegment segments =
      (pieces.map (percentEncode escapedInPath)).reverse ++ segments := by
  induction pieces generalizing segments with
  | nil => rfl
  | cons piece pieces ih =>
      obtain ⟨hpiece, hpieces⟩ := List.forall_mem_cons.1 h
      have hadd : addSegment segments piece = percentEncode escapedInPath piece :: segments := by
        simp [addSegment, hpiece]
      rw [List.foldl_cons, hadd, ih hpieces]
      simp

theorem slashed_of_not_mem (h : '\\' ∉ cs) : slashed cs = cs := by
  refine (List.map_congr_left fun d hd => ?_).trans (List.map_id cs)
  have hd : d ≠ '\\' := fun heq => h (heq ▸ hd)
  by_cases hslash : d = '/'
  · simp [hslash, isSlash]
  · simp [isSlash, hslash, hd]

theorem slashed_append_cons (h : '\\' ∉ cs) (before : List Char) :
    slashed (before ++ '/' :: cs) = slashed before ++ '/' :: cs := by
  have hcs := slashed_of_not_mem h
  rw [slashed, List.map_append, List.map_cons]
  rw [slashed] at hcs
  rw [hcs]
  rfl

theorem exists_normalPath (before : List Char) :
    ∃ front, ∀ cs, '\\' ∉ cs → Undotted cs →
      normalPath (before ++ '/' :: cs) = front ++ '/' :: percentEncode escapedInPath cs := by
  obtain ⟨pieces, hpieces⟩ : ∃ pieces, ∀ cs, '\\' ∉ cs →
      Text.split '/' (slashed (before ++ '/' :: cs)).tail = pieces ++ Text.split '/' cs := by
    cases before with
    | nil =>
        refine ⟨[], fun cs hcs => ?_⟩
        rw [slashed_append_cons hcs]
        rfl
    | cons c before =>
        refine ⟨Text.split '/' (slashed before), fun cs hcs => ?_⟩
        rw [slashed_append_cons hcs, ← Text.split_append_cons]
        rfl
  refine ⟨joinSegments (pieces.foldl addSegment []), fun cs hcs h => ?_⟩
  obtain ⟨init, last, hsplit⟩ : ∃ init last, Text.split '/' cs = init ++ [last] :=
    (List.eq_nil_or_concat' _).resolve_left (Text.split_ne_nil '/' cs)
  have hlast : isSingleDot last = false ∧ isDoubleDot last = false := h last (by simp [hsplit])
  have hinit : ∀ piece ∈ init, isSingleDot piece = false ∧ isDoubleDot piece = false :=
    fun piece hmem => h piece (by simp [hsplit, hmem])
  have hslash : escapedInPath '/' = false := by decide
  have hjoin := flatMap_split hslash cs
  rw [normalPath, hpieces cs hcs, ← hjoin, hsplit]
  rw [← List.append_assoc, List.dropLast_concat, List.getLast?_concat, Option.getD_some,
    List.foldl_append, foldl_addSegment hinit, addLast]
  simp [hlast, joinSegments, List.flatMap_map]

end Paths

section Targets

variable {scheme : String} {before cs kept lost path query : List Char}

theorem dropWhile_append {p : Char → Bool} (h : ∃ c ∈ before, p c = false) (cs : List Char) :
    (before ++ cs).dropWhile p = before.dropWhile p ++ cs := by
  have hne : before.dropWhile p ≠ [] := by
    intro hnil
    obtain ⟨c, hc, hp⟩ := h
    rw [List.dropWhile_eq_nil_iff.1 hnil c hc] at hp
    cases hp
  rw [List.dropWhile_append, if_neg (by simpa using hne)]

theorem afterScheme?_eq (scheme : String) (rest : List Char) {parts : List Char × Option (List Char)}
    (h : splitQuery (rest.dropWhile isSlash) = parts) :
    afterScheme? scheme rest =
      (authority? scheme (parts.1.takeWhile fun c => !isSlash c)).map fun authority =>
        ofParts scheme authority (parts.1.dropWhile fun c => !isSlash c) parts.2 := by
  subst h
  rfl

theorem splitQuery_host (hfragment : '#' ∉ before) (hsolid : ∃ c ∈ before, isSlash c = false)
    (hcs : '?' ∉ cs) :
    splitQuery ((before ++ '/' :: cs).dropWhile isSlash) =
      match splitQuery (before.dropWhile isSlash) with
      | (path, some query) => (path, some (query ++ '/' :: cs.takeWhile (· != '#')))
      | (path, none) => (path ++ '/' :: cs.takeWhile (· != '#'), none) := by
  have hhost : '#' ∉ before.dropWhile isSlash := fun hmem =>
    hfragment ((List.dropWhile_suffix _).subset hmem)
  rw [dropWhile_append hsolid, splitQuery_append hhost (by simpa using hcs)]
  rfl

theorem afterScheme?_of_query (hfragment : '#' ∉ before) (hsolid : ∃ c ∈ before, isSlash c = false)
    (hread : splitQuery (before.dropWhile isSlash) = (path, some query)) (hcs : '?' ∉ cs) :
    afterScheme? scheme (before ++ '/' :: cs) =
      (authority? scheme (path.takeWhile fun c => !isSlash c)).map fun authority =>
        ofParts scheme authority (path.dropWhile fun c => !isSlash c)
          (some (query ++ '/' :: cs.takeWhile (· != '#'))) := by
  have hparts := splitQuery_host hfragment hsolid hcs
  rw [hread] at hparts
  rw [afterScheme?_eq scheme _ hparts]

theorem afterScheme?_of_path (hfragment : '#' ∉ before) (hsolid : ∃ c ∈ before, isSlash c = false)
    (hread : splitQuery (before.dropWhile isSlash) = (path, none)) (hcs : '?' ∉ cs) :
    afterScheme? scheme (before ++ '/' :: cs) =
      (authority? scheme (path.takeWhile fun c => !isSlash c)).map fun authority =>
        ofParts scheme authority
          (path.dropWhile (fun c => !isSlash c) ++ '/' :: cs.takeWhile (· != '#')) none := by
  have hslash : (!isSlash '/') = false := rfl
  have hparts := splitQuery_host hfragment hsolid hcs
  rw [hread] at hparts
  rw [afterScheme?_eq scheme _ hparts, Text.takeWhile_append_cons hslash,
    Text.dropWhile_append_cons hslash]

theorem exists_afterScheme (scheme : String) (hfragment : '#' ∉ before)
    (hsolid : ∃ c ∈ before, isSlash c = false) :
    (∀ cs, '?' ∉ cs → afterScheme? scheme (before ++ '/' :: cs) = none) ∨
    ∃ front mustEscape, ∀ cs, '?' ∉ cs → '\\' ∉ cs →
      ∃ u, afterScheme? scheme (before ++ '/' :: cs) = some u ∧
        (Undotted (cs.takeWhile (· != '#')) →
          u.target.toList = front ++ percentEncode mustEscape (cs.takeWhile (· != '#'))) := by
  obtain ⟨path, query?, hread⟩ :
      ∃ path query?, splitQuery (before.dropWhile isSlash) = (path, query?) := ⟨_, _, rfl⟩
  cases hauthority : authority? scheme (path.takeWhile fun c => !isSlash c) with
  | none =>
      refine .inl fun cs hcs => ?_
      cases query? with
      | some query =>
          rw [afterScheme?_of_query hfragment hsolid hread hcs, hauthority]
          rfl
      | none =>
          rw [afterScheme?_of_path hfragment hsolid hread hcs, hauthority]
          rfl
  | some authority =>
      refine .inr ?_
      cases query? with
      | some query =>
          refine ⟨normalPath (path.dropWhile fun c => !isSlash c) ++
            '?' :: percentEncode escapedInQuery (query ++ ['/']), escapedInQuery, fun cs hcs _ => ?_⟩
          refine ⟨_, by rw [afterScheme?_of_query hfragment hsolid hread hcs, hauthority]; rfl,
            fun _ => ?_⟩
          simp [target, ofParts, ← percentEncode_append]
      | none =>
          obtain ⟨front, hfront⟩ := exists_normalPath (path.dropWhile fun c => !isSlash c)
          refine ⟨front ++ ['/'], escapedInPath, fun cs hcs hback => ?_⟩
          have hkept : '\\' ∉ cs.takeWhile (· != '#') := fun hmem =>
            hback ((List.takeWhile_prefix _).subset hmem)
          refine ⟨_, by rw [afterScheme?_of_path hfragment hsolid hread hcs, hauthority]; rfl,
            fun hdots => ?_⟩
          simp [target, ofParts, hfront _ hkept hdots]

/-- Characters that mean nothing in an address before its fragment and separate no pieces but at
slashes. -/
def Plain (cs : List Char) : Prop :=
  ∀ c ∈ cs, 0x20 < c.toNat ∧ c ≠ ':' ∧ c ≠ '?' ∧ c ≠ '\\'

theorem Plain.not_mem {c : Char} (h : Plain cs) (hc : c = ':' ∨ c = '?' ∨ c = '\\') : c ∉ cs := by
  intro hmem
  obtain ⟨-, hcolon, hquestion, hback⟩ := h c hmem
  rcases hc with hc | hc | hc
  · exact hcolon hc
  · exact hquestion hc
  · exact hback hc

theorem ofText?_eq (hcs : Plain cs) (before : List Char) :
    ofText? (String.ofList (before ++ '/' :: cs)) = (scheme? (lead before)).bind fun p =>
      if isWebScheme p.1 then afterScheme? p.1 (p.2 ++ '/' :: cs) else none := by
  have hcolon : ':' ∉ '/' :: cs := by
    simpa using hcs.not_mem (.inl rfl)
  unfold ofText?
  rw [String.toList_ofList, cleaned_append (by decide) fun d hd => (hcs d hd).1,
    scheme?_append hcolon]
  cases scheme? (lead before) with
  | none => simp only [Option.map_none, Option.bind_eq_bind, Option.bind_none]
  | some p => simp only [Option.map_some, Option.bind_eq_bind, Option.bind_some]

theorem exists_target {front : List Char} {c : Char} (hc : 0x20 < c.toNat)
    (hslash : isSlash c = false) (hcolon : c ≠ ':') (hfragment : '#' ∉ front ++ [c]) :
    (∀ cs, Plain cs → ofText? (String.ofList (front ++ [c] ++ '/' :: cs)) = none) ∨
    ∃ ahead mustEscape, ∀ cs, Plain cs →
      ∃ u, ofText? (String.ofList (front ++ [c] ++ '/' :: cs)) = some u ∧
        (Undotted (cs.takeWhile (· != '#')) →
          u.target.toList = ahead ++ percentEncode mustEscape (cs.takeWhile (· != '#'))) := by
  cases hscheme : scheme? (lead (front ++ [c])) with
  | none =>
      refine .inl fun cs hcs => ?_
      rw [ofText?_eq hcs, hscheme]
      rfl
  | some p =>
      obtain ⟨scheme, rest⟩ := p
      obtain ⟨opening, hlead, -⟩ := scheme?_snd hscheme
      have hsub : ∀ d ∈ rest, d ∈ front ++ [c] := by
        intro d hd
        have hmem : d ∈ lead (front ++ [c]) := by simp [hlead, hd]
        exact (List.dropWhile_suffix _).subset (List.mem_of_mem_filter hmem)
      have hsolid : ∃ d ∈ rest, isSlash d = false := by
        rw [lead_append_cons hc fun d hd => absurd hd List.not_mem_nil] at hlead
        have hlast := congrArg List.getLast? hlead
        rcases List.eq_nil_or_concat' rest with rfl | ⟨init, d, rfl⟩
        · simp [hcolon] at hlast
        · rw [List.getLast?_concat, ← List.cons_append, ← List.append_assoc,
            List.getLast?_concat, Option.some.injEq] at hlast
          exact ⟨d, by simp, hlast ▸ hslash⟩
      cases hweb : isWebScheme scheme with
      | false =>
          refine .inl fun cs hcs => ?_
          rw [ofText?_eq hcs, hscheme]
          simp [hweb]
      | true =>
          have hread (cs : List Char) (hcs : Plain cs) :
              ofText? (String.ofList (front ++ [c] ++ '/' :: cs)) =
                afterScheme? scheme (rest ++ '/' :: cs) := by
            rw [ofText?_eq hcs, hscheme]
            simp [hweb]
          rcases exists_afterScheme scheme (fun hmem => hfragment (hsub _ hmem)) hsolid with
            hnone | ⟨ahead, mustEscape, hall⟩
          · refine .inl fun cs hcs => ?_
            rw [hread cs hcs]
            exact hnone cs (hcs.not_mem (.inr (.inl rfl)))
          · refine .inr ⟨ahead, mustEscape, fun cs hcs => ?_⟩
            rw [hread cs hcs]
            exact hall cs (hcs.not_mem (.inr (.inl rfl))) (hcs.not_mem (.inr (.inr rfl)))

theorem afterScheme?_fragment (scheme : String) (before lost : List Char) :
    afterScheme? scheme (before ++ '#' :: lost) = afterScheme? scheme before := by
  have hparts : splitQuery ((before ++ '#' :: lost).dropWhile isSlash) =
      splitQuery (before.dropWhile isSlash) := by
    rw [Text.dropWhile_append_cons (by decide), splitQuery_fragment]
  rw [afterScheme?_eq scheme _ hparts, afterScheme?_eq scheme before rfl]

theorem ofText?_fragment (h : Plain (kept ++ '#' :: lost)) (before : List Char) :
    ofText? (String.ofList (before ++ '/' :: (kept ++ '#' :: lost))) =
      ofText? (String.ofList (before ++ '/' :: kept)) := by
  have hkept : Plain kept := fun c hc => h c (List.mem_append_left _ hc)
  have hsame (scheme : String) (rest : List Char) :
      afterScheme? scheme (rest ++ '/' :: (kept ++ '#' :: lost)) =
        afterScheme? scheme (rest ++ '/' :: kept) := by
    rw [← List.cons_append, ← List.append_assoc, afterScheme?_fragment]
  simp only [ofText?_eq h, ofText?_eq hkept, hsame]

end Targets

section Dots

theorem eq_of_toLower {c d : Char} (hd : d = '.' ∨ d = '%') (h : c.toLower = d) : c = d := by
  unfold Char.toLower at h
  split at h
  · next hupper =>
      have hlow : 65 ≤ c.toNat := UInt32.le_iff_toNat_le.1 hupper.1
      have hhigh : c.toNat ≤ 90 := UInt32.le_iff_toNat_le.1 hupper.2
      have hnat := congrArg Char.toNat h
      exfalso
      rcases hd with rfl | rfl
      · simp at hnat
        omega
      · simp at hnat
        omega
  · exact h

theorem head?_of_dots {piece : List Char} (h : isSingleDot piece = true ∨ isDoubleDot piece = true) :
    piece.head? = some '.' ∨ piece.head? = some '%' := by
  have hlower : ∃ text ∈ [".", "%2e", "..", ".%2e", "%2e.", "%2e%2e"],
      String.ofList (piece.map Char.toLower) = text := by
    rcases h with h | h
    · exact ⟨_, List.mem_append_left ["..", ".%2e", "%2e.", "%2e%2e"] (List.contains_iff_mem.1 h), rfl⟩
    · exact ⟨_, List.mem_append_right [".", "%2e"] (List.contains_iff_mem.1 h), rfl⟩
  obtain ⟨text, htext, hpiece⟩ := hlower
  have hheads : ∀ text ∈ [".", "%2e", "..", ".%2e", "%2e.", "%2e%2e"],
      text.toList.head? = some '.' ∨ text.toList.head? = some '%' := by
    decide
  have hhead := hheads text htext
  rw [← hpiece, String.toList_ofList, List.head?_map] at hhead
  rcases hhead with hhead | hhead
  · obtain ⟨c, hc, hdot⟩ := Option.map_eq_some_iff.1 hhead
    exact .inl (eq_of_toLower (.inl rfl) hdot ▸ hc)
  · obtain ⟨c, hc, hpercent⟩ := Option.map_eq_some_iff.1 hhead
    exact .inr (eq_of_toLower (.inr rfl) hpercent ▸ hc)

theorem undotted_of_heads {cs : List Char} (hpercent : '%' ∉ cs)
    (h : ∀ piece ∈ Text.split '/' cs, piece.head? ≠ some '.') : Undotted cs := by
  intro piece hpiece
  have hnone : ¬(isSingleDot piece = true ∨ isDoubleDot piece = true) := by
    intro hdots
    rcases head?_of_dots hdots with hhead | hhead
    · exact h piece hpiece hhead
    · exact hpercent (Text.mem_of_mem_split hpiece (List.mem_of_mem_head? hhead))
  simpa [not_or] using hnone

end Dots

end IndexRefresh.Http.Url
