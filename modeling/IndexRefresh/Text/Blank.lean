namespace IndexRefresh.Text

def blankRanges : List (Nat × Nat) :=
  [(0x09, 0x0D), (0x20, 0x20), (0x85, 0x85), (0xA0, 0xA0), (0x1680, 0x1680), (0x2000, 0x200A),
   (0x2028, 0x2029), (0x202F, 0x202F), (0x205F, 0x205F), (0x3000, 0x3000)]

def isBlank (c : Char) : Bool :=
  blankRanges.any fun r => r.1 ≤ c.toNat && c.toNat ≤ r.2

def isAsciiBlank (c : Char) : Bool :=
  c == ' ' || c == '\t' || c == '\n' || c == '\x0c' || c == '\r'

def dropStart (p : Char → Bool) (cs : List Char) : List Char :=
  cs.dropWhile p

def dropEnd (p : Char → Bool) (cs : List Char) : List Char :=
  (cs.reverse.dropWhile p).reverse

def strip (p : Char → Bool) (cs : List Char) : List Char :=
  dropEnd p (dropStart p cs)

def trim (cs : List Char) : List Char :=
  strip isBlank cs

theorem dropEnd_append_of_all {p : Char → Bool} {cs ds : List Char}
    (h : ∀ d ∈ ds, p d = true) : dropEnd p (cs ++ ds) = dropEnd p cs := by
  have hd : ∀ d ∈ ds.reverse, p d = true := fun d hd => h d (List.mem_reverse.1 hd)
  simp only [dropEnd, List.reverse_append]
  rw [List.dropWhile_append_of_pos hd]

theorem dropStart_append_of_all {p : Char → Bool} {cs ds : List Char}
    (h : ∀ d ∈ ds, p d = true) : dropStart p (ds ++ cs) = dropStart p cs := by
  induction ds with
  | nil => rfl
  | cons d ds ih =>
      have hd : p d = true := h d (List.mem_cons_self ..)
      have ht : ∀ x ∈ ds, p x = true := fun x hx => h x (List.mem_cons_of_mem _ hx)
      simpa [dropStart, List.dropWhile, hd] using ih ht

end IndexRefresh.Text
