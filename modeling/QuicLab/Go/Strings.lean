import QuicLab.Go.Strconv

/-!
# Strings

The functions of Go's package `strings` that the program uses, on texts of any
bytes. White space is that of Unicode, by its encodings.
-/

namespace QuicLab.Go

/-- The white space of Unicode (`unicode.IsSpace`). -/
def spaces : List Bytes :=
  [[9], [10], [11], [12], [13], [32], [0xC2, 0x85], [0xC2, 0xA0], [0xE1, 0x9A, 0x80]] ++
    ((List.range 11).map fun k => [0xE2, 0x80, UInt8.ofNat (0x80 + k)]) ++
    [[0xE2, 0x80, 0xA8], [0xE2, 0x80, 0xA9], [0xE2, 0x80, 0xAF], [0xE2, 0x81, 0x9F],
      [0xE3, 0x80, 0x80]]

/-- The text without those of the texts `ts` it starts with, at most `n` of them. -/
def trimStart (ts : List Bytes) : ℕ → Bytes → Bytes
  | 0, s => s
  | n + 1, s =>
    match ts.find? (·.isPrefixOf s) with
    | none => s
    | some t => trimStart ts n (s.drop t.length)

/-- `strings.TrimSpace`. -/
def trimSpace (s : Bytes) : Bytes :=
  let s := trimStart spaces s.length s
  (trimStart (spaces.map List.reverse) s.length s.reverse).reverse

example : trimSpace (str " \t10.0.0.0/8 \n") = str "10.0.0.0/8" := by decide

/-- `strings.Split`, at a byte. -/
def split (s : Bytes) (sep : UInt8) : List Bytes := s.splitOn sep

/-- `strings.Cut`, at a byte: the text before and after the first one. -/
def cut (s : Bytes) (sep : UInt8) : Option (Bytes × Bytes) :=
  if sep ∈ s then some (s.takeWhile (· ≠ sep), (s.dropWhile (· ≠ sep)).tail) else none

/-- `strings.Join`. -/
def join (elems : List Bytes) (sep : Bytes) : Bytes := sep.intercalate elems

/-- `strings.ToLower`, of an ASCII text. -/
def toLower (s : Bytes) : Bytes := s.map fun c => if 65 ≤ c.toNat ∧ c.toNat ≤ 90 then c + 32 else c

/-! ## Trimming

A graphic byte is in no encoding of a space, so that trimming stops there. -/

/-- Is the byte a graphic character of ASCII? -/
def isGraphic (c : UInt8) : Bool := 33 ≤ c.toNat && c.toNat ≤ 126

/-- The text starts with a graphic byte. -/
def StartsGraphic (s : Bytes) : Prop := ∃ c ∈ s.head?, isGraphic c = true

/-- The text ends with a graphic byte. -/
def EndsGraphic (s : Bytes) : Prop := ∃ c ∈ s.getLast?, isGraphic c = true

variable {s : Bytes}

theorem StartsGraphic.append (h : StartsGraphic s) (t : Bytes) :
    StartsGraphic (s ++ t) := by
  obtain ⟨c, hc, hg⟩ := h
  exact ⟨c, by rw [List.head?_append, Option.mem_def.1 hc]; rfl, hg⟩

theorem EndsGraphic.append {t : Bytes} (h : EndsGraphic t) (s : Bytes) : EndsGraphic (s ++ t) := by
  obtain ⟨c, hc, hg⟩ := h
  exact ⟨c, by rw [List.getLast?_append, Option.mem_def.1 hc]; rfl, hg⟩

theorem startsGraphic_of_forall (hs : s ≠ []) (h : ∀ c ∈ s, isGraphic c = true) :
    StartsGraphic s :=
  ⟨s.head hs, List.head?_eq_some_head hs, h _ (List.head_mem hs)⟩

theorem endsGraphic_of_forall (hs : s ≠ []) (h : ∀ c ∈ s, isGraphic c = true) :
    EndsGraphic s :=
  ⟨s.getLast hs, List.getLast?_eq_some_getLast hs, h _ (List.getLast_mem hs)⟩

variable {c : UInt8}

theorem isGraphic_of_isDigit (h : isDigit c = true) : isGraphic c = true := by
  rw [isDigit_iff] at h
  rw [isGraphic, Bool.and_eq_true, decide_eq_true_eq, decide_eq_true_eq]
  omega

section TrimStart

variable {ts : List Bytes} (hts : ∀ t ∈ ts, t ≠ [] ∧ ∀ c ∈ t, isGraphic c = false)

include hts

/-- A space that a text starts with ends before its first graphic byte. -/
theorem prefix_of_prefix_append {t s u : Bytes} (ht : t ∈ ts) (hu : StartsGraphic u)
    (h : t <+: s ++ u) : t <+: s := by
  obtain ⟨c, hc, hg⟩ := hu
  obtain ⟨u, rfl⟩ := List.head?_eq_some_iff.1 hc
  have hmem : c ∉ t := fun hmem => by
    rw [(hts t ht).2 c hmem] at hg
    cases hg
  have hsc : s ++ [c] <+: s ++ c :: u := ⟨u, by rw [List.append_assoc, List.singleton_append]⟩
  rcases List.prefix_or_prefix_of_prefix h hsc with h | h
  · rcases List.prefix_concat_iff.1 h with rfl | h
    · exact absurd (List.mem_append_right s (List.mem_singleton_self c)) hmem
    · exact h
  · exact absurd (h.subset (List.mem_append_right s (List.mem_singleton_self c))) hmem

/-- Trimming takes no graphic byte. -/
theorem trimStart_append (s : Bytes) {u : Bytes} (hu : StartsGraphic u) (n : ℕ) :
    ∃ pre rest, s = pre ++ rest ∧ (∀ c ∈ pre, isGraphic c = false) ∧
      trimStart ts n (s ++ u) = rest ++ u := by
  induction n generalizing s with
  | zero => exact ⟨[], s, rfl, List.forall_mem_nil _, rfl⟩
  | succ n ih =>
    rw [trimStart]
    split
    · exact ⟨[], s, rfl, List.forall_mem_nil _, rfl⟩
    · rename_i t hfind
      have ht := List.mem_of_find?_eq_some hfind
      have hpre := List.find?_some hfind
      obtain ⟨s, rfl⟩ := prefix_of_prefix_append hts ht hu (List.isPrefixOf_iff_prefix.1 hpre)
      obtain ⟨pre, rest, rfl, hspace, htrim⟩ := ih s
      refine ⟨t ++ pre, rest, (List.append_assoc ..).symm, fun c hc => ?_, ?_⟩
      · rcases List.mem_append.1 hc with hc | hc
        · exact (hts t ht).2 c hc
        · exact hspace c hc
      · rw [List.append_assoc, List.drop_left, htrim]

theorem trimStart_of_startsGraphic {u : Bytes} (hu : StartsGraphic u) (n : ℕ) :
    trimStart ts n u = u := by
  obtain ⟨pre, rest, hs, _, htrim⟩ := trimStart_append hts [] hu n
  rw [List.nil_append, (List.append_eq_nil_iff.1 hs.symm).2, List.nil_append] at htrim
  exact htrim

end TrimStart

theorem spaces_not_graphic : ∀ t ∈ spaces, t ≠ [] ∧ ∀ c ∈ t, isGraphic c = false := by decide

theorem spaces_reverse_not_graphic :
    ∀ t ∈ spaces.map List.reverse, t ≠ [] ∧ ∀ c ∈ t, isGraphic c = false := by decide

theorem EndsGraphic.reverse (h : EndsGraphic s) : StartsGraphic s.reverse := by
  obtain ⟨c, hc, hg⟩ := h
  exact ⟨c, by rwa [List.head?_reverse], hg⟩

/-- Nothing is trimmed at the end of a text that ends with a graphic byte. -/
theorem trimSpace_append (s : Bytes) {u : Bytes} (hu : StartsGraphic u) (hu' : EndsGraphic u) :
    ∃ pre rest, s = pre ++ rest ∧ (∀ c ∈ pre, isGraphic c = false) ∧
      trimSpace (s ++ u) = rest ++ u := by
  obtain ⟨pre, rest, hs, hspace, htrim⟩ :=
    trimStart_append spaces_not_graphic s hu (s ++ u).length
  refine ⟨pre, rest, hs, hspace, ?_⟩
  rw [trimSpace, htrim, trimStart_of_startsGraphic spaces_reverse_not_graphic
    (hu'.append rest).reverse, List.reverse_reverse]

theorem trimSpace_of_graphic (h : StartsGraphic s) (h' : EndsGraphic s) :
    trimSpace s = s := by
  rw [trimSpace, trimStart_of_startsGraphic spaces_not_graphic h,
    trimStart_of_startsGraphic spaces_reverse_not_graphic h'.reverse, List.reverse_reverse]

/-- A blank before the text. -/
theorem trimSpace_blank_cons (s : Bytes) : trimSpace (32 :: s) = trimSpace s := rfl

/-- A blank after the text. -/
theorem trimSpace_append_blank (h : StartsGraphic s) (h' : EndsGraphic s) :
    trimSpace (s ++ [32]) = s := by
  have hrev : (s ++ [32]).reverse = 32 :: s.reverse := List.reverse_concat
  have htrim : ∀ n, trimStart (spaces.map List.reverse) (n + 1) (32 :: s.reverse) =
      trimStart (spaces.map List.reverse) n s.reverse := fun _ => rfl
  rw [trimSpace, trimStart_of_startsGraphic spaces_not_graphic (h.append _), hrev,
    List.length_append, List.length_singleton, htrim,
    trimStart_of_startsGraphic spaces_reverse_not_graphic h'.reverse, List.reverse_reverse]

/-! ### What is trimmed

No encoding of a space is at the start or at the end of another one, so that it does not
matter in which order spaces are taken off. -/

/-- No text of `ts` starts `s`. -/
def NoStart (ts : List Bytes) (s : Bytes) : Prop := ∀ t ∈ ts, ¬ t <+: s

/-- A text of `ts` is not empty, and it is the only one that can start a text. -/
structure PrefixFree (ts : List Bytes) : Prop where
  ne_nil : ∀ t ∈ ts, t ≠ []
  unique : ∀ t ∈ ts, ∀ t' ∈ ts, t <+: t' → t = t'

section PrefixFree

variable {ts : List Bytes} (hts : PrefixFree ts)

include hts

theorem PrefixFree.eq {t t' s : Bytes} (ht : t ∈ ts) (ht' : t' ∈ ts) (h : t <+: s)
    (h' : t' <+: s) : t = t' := by
  rcases List.prefix_or_prefix_of_prefix h h' with h | h
  · exact hts.unique t ht t' ht' h
  · exact (hts.unique t' ht' t ht h).symm

/-- All texts that start a text are taken off. -/
theorem trimStart_flatten {l : List Bytes} (hl : ∀ t ∈ l, t ∈ ts) {r : Bytes} (hr : NoStart ts r)
    {n : ℕ} (hn : l.length ≤ n) : trimStart ts n (l.flatten ++ r) = r := by
  induction l generalizing n with
  | nil =>
    cases n with
    | zero => rfl
    | succ n =>
      have hfind : ts.find? (·.isPrefixOf r) = none := by
        rw [List.find?_eq_none]
        intro t ht hpre
        exact hr t ht (List.isPrefixOf_iff_prefix.1 hpre)
      rw [List.flatten_nil, List.nil_append, trimStart, hfind]
  | cons t l ih =>
    obtain ⟨n, rfl⟩ : ∃ m, n = m + 1 := ⟨n - 1, by rw [List.length_cons] at hn; omega⟩
    have ht := hl t List.mem_cons_self
    rw [List.flatten_cons, List.append_assoc, trimStart]
    have hpre : t <+: t ++ (l.flatten ++ r) := List.prefix_append _ _
    cases hfind : ts.find? (·.isPrefixOf (t ++ (l.flatten ++ r))) with
    | none =>
      rw [List.find?_eq_none] at hfind
      exact absurd (List.isPrefixOf_iff_prefix.2 hpre) (hfind t ht)
    | some t' =>
      have hfound := List.find?_some hfind
      obtain rfl := hts.eq ht (List.mem_of_find?_eq_some hfind) hpre
        (List.isPrefixOf_iff_prefix.1 hfound)
      dsimp only
      rw [List.drop_left]
      exact ih (fun u hu => hl u (List.mem_cons_of_mem t hu)) (Nat.le_of_succ_le_succ hn)

theorem length_le_of_flatten {l : List Bytes} (hl : ∀ t ∈ l, t ∈ ts) :
    l.length ≤ l.flatten.length := by
  induction l with
  | nil => rfl
  | cons t l ih =>
    have ht := List.length_pos_iff.2 (hts.ne_nil t (hl t List.mem_cons_self))
    have ih := ih fun u hu => hl u (List.mem_cons_of_mem t hu)
    rw [List.flatten_cons, List.length_append, List.length_cons]
    omega

/-- What trimming takes off, and that nothing is left to take off. -/
theorem exists_trimStart (s : Bytes) : ∃ (l : List Bytes) (r : Bytes), (∀ t ∈ l, t ∈ ts) ∧
    s = l.flatten ++ r ∧ NoStart ts r := by
  induction hn : s.length using Nat.strongRecOn generalizing s with
  | ind n ih =>
    subst hn
    by_cases h : NoStart ts s
    · exact ⟨[], s, List.forall_mem_nil _, rfl, h⟩
    · rw [NoStart] at h
      push Not at h
      obtain ⟨t, ht, s, rfl⟩ := h
      have hpos := List.length_pos_iff.2 (hts.ne_nil t ht)
      obtain ⟨l, r, hl, rfl, hr⟩ := ih s.length (by rw [List.length_append]; omega) s rfl
      refine ⟨t :: l, r, fun u hu => ?_, by rw [List.flatten_cons, List.append_assoc], hr⟩
      rcases List.mem_cons.1 hu with rfl | hu
      · exact ht
      · exact hl u hu

end PrefixFree

theorem prefixFree_spaces : PrefixFree spaces := ⟨by decide, by decide⟩

theorem prefixFree_spaces_reverse : PrefixFree (spaces.map List.reverse) := ⟨by decide, by decide⟩

/-- The first byte of a space is no later byte of one. -/
theorem head_notMem_tail_spaces : ∀ t ∈ spaces, ∀ u ∈ spaces, ∀ c ∈ t.head?, c ∉ u.tail := by
  have hall : ∀ t ∈ spaces, ∀ u ∈ spaces, t.head?.all (fun c => decide (c ∉ u.tail)) = true := by
    decide
  intro t ht u hu c hc
  exact of_decide_eq_true ((Option.all_eq_true _ _).1 (hall t ht u hu) c hc)

/-- A text is what is left of it, if spaces are added at both ends. -/
theorem trimSpace_of_spaces {l l' : List Bytes} (hl : ∀ t ∈ l, t ∈ spaces)
    (hl' : ∀ t ∈ l', t ∈ spaces) {r : Bytes} (hstart : NoStart spaces r)
    (hend : NoStart (spaces.map List.reverse) r.reverse) :
    trimSpace (l.flatten ++ (r ++ l'.flatten)) = r := by
  by_cases hr : r = []
  · subst hr
    have hall : ∀ t ∈ l ++ l', t ∈ spaces := fun t ht => (List.mem_append.1 ht).elim (hl t) (hl' t)
    have hlen := length_le_of_flatten prefixFree_spaces hall
    have htrim := trimStart_flatten prefixFree_spaces hall hstart hlen
    rw [List.nil_append, ← List.flatten_append, trimSpace]
    rw [List.append_nil] at htrim
    rw [htrim]
    rfl
  · -- No space starts in `r` and goes on behind it.
    have hstart' : NoStart spaces (r ++ l'.flatten) := by
      intro u hu hpre
      rcases List.prefix_or_prefix_of_prefix hpre (List.prefix_append r l'.flatten) with h | h
      · exact hstart u hu h
      obtain ⟨x, rfl⟩ := h
      cases x with
      | nil => exact hstart _ hu (by simp)
      | cons c x =>
        have hx : c :: x <+: l'.flatten := (List.prefix_append_right_inj r).1 hpre
        cases l' with
        | nil => simp at hx
        | cons t l' =>
          have ht := hl' t List.mem_cons_self
          obtain ⟨c', t, rfl⟩ := List.exists_cons_of_ne_nil (prefixFree_spaces.ne_nil t ht)
          rw [List.flatten_cons, List.cons_append, List.cons_prefix_cons] at hx
          refine head_notMem_tail_spaces _ ht _ hu c' rfl ?_
          rw [List.tail_append_of_ne_nil hr, ← hx.1]
          exact List.mem_append_right _ List.mem_cons_self
    have hlen : l.length ≤ (l.flatten ++ (r ++ l'.flatten)).length := by
      have := length_le_of_flatten prefixFree_spaces hl
      rw [List.length_append]
      omega
    have hrev : (r ++ l'.flatten).reverse =
        (l'.map List.reverse).reverse.flatten ++ r.reverse := by
      rw [List.reverse_append, List.reverse_flatten]
    have hl'' : ∀ t ∈ (l'.map List.reverse).reverse, t ∈ spaces.map List.reverse := by
      intro t ht
      obtain ⟨u, hu, rfl⟩ := List.mem_map.1 (List.mem_reverse.1 ht)
      exact List.mem_map_of_mem (hl' u hu)
    have hlen' : (l'.map List.reverse).reverse.length ≤ (r ++ l'.flatten).length := by
      have := length_le_of_flatten prefixFree_spaces hl'
      rw [List.length_reverse, List.length_map, List.length_append]
      omega
    rw [trimSpace, trimStart_flatten prefixFree_spaces hl hstart' hlen, hrev,
      trimStart_flatten prefixFree_spaces_reverse hl'' hend hlen', List.reverse_reverse]

theorem mem_spaces_of_reverse {m : List Bytes} (hm : ∀ t ∈ m, t ∈ spaces.map List.reverse) :
    ∀ t ∈ (m.map List.reverse).reverse, t ∈ spaces := by
  intro t ht
  obtain ⟨u, hu, rfl⟩ := List.mem_map.1 (List.mem_reverse.1 ht)
  obtain ⟨t, ht, rfl⟩ := List.mem_map.1 (hm u hu)
  rwa [List.reverse_reverse]

/-- What `TrimSpace` takes off. -/
theorem exists_trimSpace (s : Bytes) : ∃ l l' : List Bytes, (∀ t ∈ l, t ∈ spaces) ∧
    (∀ t ∈ l', t ∈ spaces) ∧ s = l.flatten ++ (trimSpace s ++ l'.flatten) ∧
    NoStart spaces (trimSpace s) ∧ NoStart (spaces.map List.reverse) (trimSpace s).reverse := by
  obtain ⟨l, r, hl, rfl, hr⟩ := exists_trimStart prefixFree_spaces s
  obtain ⟨m, q, hm, hq, hend⟩ := exists_trimStart prefixFree_spaces_reverse r.reverse
  have hrev : r = q.reverse ++ (m.map List.reverse).reverse.flatten := by
    rw [← List.reverse_reverse r, hq, List.reverse_append, List.reverse_flatten]
  have hm' := mem_spaces_of_reverse hm
  have hstart : NoStart spaces q.reverse := by
    intro t ht hpre
    refine hr t ht (hpre.trans ?_)
    rw [hrev]
    exact List.prefix_append _ _
  have hend' : NoStart (spaces.map List.reverse) q.reverse.reverse := by
    rwa [List.reverse_reverse]
  have htrim : trimSpace (l.flatten ++ r) = q.reverse := by
    rw [hrev]
    exact trimSpace_of_spaces hl hm' hstart hend'
  refine ⟨l, _, hl, hm', ?_, ?_, ?_⟩
  · rw [htrim, ← hrev]
  · rwa [htrim]
  · rwa [htrim]

/-- Spaces at the ends do not matter. -/
theorem trimSpace_flatten_append {l l' : List Bytes} (hl : ∀ t ∈ l, t ∈ spaces)
    (hl' : ∀ t ∈ l', t ∈ spaces) (s : Bytes) :
    trimSpace (l.flatten ++ (s ++ l'.flatten)) = trimSpace s := by
  obtain ⟨m, m', hm, hm', hs, hstart, hend⟩ := exists_trimSpace s
  have heq : l.flatten ++ (s ++ l'.flatten) =
      (l ++ m).flatten ++ (trimSpace s ++ (m' ++ l').flatten) := by
    rw [List.flatten_append, List.flatten_append]
    conv_lhs => rw [hs]
    simp only [List.append_assoc]
  rw [heq]
  refine trimSpace_of_spaces (fun t ht => ?_) (fun t ht => ?_) hstart hend
  · exact (List.mem_append.1 ht).elim (hl t) (hm t)
  · exact (List.mem_append.1 ht).elim (hm' t) (hl' t)

/-- A text with a graphic byte in it is trimmed on both sides of it. -/
theorem trimSpace_graphic (p : Bytes) (hc : isGraphic c = true) (v : Bytes) :
    ∃ p' v', trimSpace (p ++ c :: v) = p' ++ c :: v' ∧ trimSpace p' = trimSpace p ∧
      trimSpace v' = trimSpace v := by
  have hstarts : ∀ s, StartsGraphic (c :: s) := fun s => ⟨c, rfl, hc⟩
  obtain ⟨l, r, hl, rfl, hr⟩ := exists_trimStart prefixFree_spaces p
  obtain ⟨m, q, hm, hq, hend⟩ := exists_trimStart prefixFree_spaces_reverse v.reverse
  have hm' := mem_spaces_of_reverse hm
  have hv : v = q.reverse ++ (m.map List.reverse).reverse.flatten := by
    rw [← List.reverse_reverse v, hq, List.reverse_append, List.reverse_flatten]
  have hleft : NoStart spaces (r ++ c :: v) := fun t ht hpre =>
    hr t ht (prefix_of_prefix_append spaces_not_graphic ht (hstarts v) hpre)
  have hright : NoStart (spaces.map List.reverse) (q ++ c :: r.reverse) := fun t ht hpre =>
    hend t ht (prefix_of_prefix_append spaces_reverse_not_graphic ht (hstarts r.reverse) hpre)
  have hlen : l.length ≤ (l.flatten ++ (r ++ c :: v)).length := by
    have := length_le_of_flatten prefixFree_spaces hl
    rw [List.length_append]
    omega
  have hlen' : m.length ≤ (r ++ c :: v).length := by
    have := length_le_of_flatten prefixFree_spaces_reverse hm
    have hsum := congrArg List.length hq
    rw [List.length_reverse, List.length_append] at hsum
    rw [List.length_append, List.length_cons]
    omega
  refine ⟨r, q.reverse, ?_, ?_, ?_⟩
  · have hrev : (r ++ c :: v).reverse = m.flatten ++ (q ++ c :: r.reverse) := by
      rw [List.reverse_append, List.reverse_cons, hq]
      simp
    rw [List.append_assoc, trimSpace, trimStart_flatten prefixFree_spaces hl hleft hlen, hrev,
      trimStart_flatten prefixFree_spaces_reverse hm hright hlen']
    simp
  · have h := trimSpace_flatten_append hl (List.forall_mem_nil _) r
    rw [List.flatten_nil, List.append_nil] at h
    exact h.symm
  · have h := trimSpace_flatten_append (List.forall_mem_nil _) hm' q.reverse
    rw [List.flatten_nil, List.nil_append, ← hv] at h
    exact h.symm

/-! ## Splitting -/

theorem join_cons_cons (s t : Bytes) (l : List Bytes) (sep : Bytes) :
    join (s :: t :: l) sep = s ++ (sep ++ join (t :: l) sep) := by
  simp [join, List.intercalate]

theorem join_cons (c : UInt8) (s : Bytes) (l : List Bytes) (sep : Bytes) :
    join ((c :: s) :: l) sep = c :: join (s :: l) sep := by
  cases l with
  | nil => simp [join]
  | cons t l => rw [join_cons_cons, join_cons_cons, List.cons_append]

variable {l : List Bytes}

theorem mem_join {sep : Bytes} (h : c ∈ join l sep) :
    c ∈ sep ∨ ∃ s ∈ l, c ∈ s := by
  induction l with
  | nil => cases h
  | cons s l ih =>
    cases l with
    | nil => exact .inr ⟨s, List.mem_cons_self, by simpa [join] using h⟩
    | cons t l =>
      rw [join_cons_cons, List.mem_append, List.mem_append] at h
      rcases h with h | h | h
      · exact .inr ⟨s, List.mem_cons_self, h⟩
      · exact .inl h
      · exact (ih h).imp_right fun ⟨u, hu, hc⟩ => ⟨u, List.mem_cons_of_mem _ hu, hc⟩

theorem length_join (hne : l ≠ []) (sep : Bytes) :
    (join l sep).length + sep.length = (l.map fun s => s.length + sep.length).sum := by
  induction l with
  | nil => exact absurd rfl hne
  | cons s l ih =>
    cases l with
    | nil => simp [join]
    | cons t l =>
      have ht := ih (List.cons_ne_nil _ _)
      rw [join_cons_cons, List.map_cons, List.sum_cons, ← ht, List.length_append,
        List.length_append]
      omega

theorem length_join_perm {l l' : List Bytes} (h : l.Perm l') (sep : Bytes) :
    (join l sep).length = (join l' sep).length := by
  by_cases hne : l = []
  · subst hne
    rw [List.nil_perm.1 h]
  · have hne' : l' ≠ [] := fun h' => hne (List.perm_nil.1 (h' ▸ h))
    have hsum := (h.map fun s : Bytes => s.length + sep.length).sum_nat
    rw [← length_join hne, ← length_join hne'] at hsum
    exact Nat.add_right_cancel hsum

theorem startsGraphic_join (hs : StartsGraphic s) (l : List Bytes) (sep : Bytes) :
    StartsGraphic (join (s :: l) sep) := by
  cases l with
  | nil => simpa [join] using hs
  | cons t l =>
    rw [join_cons_cons]
    exact hs.append _

theorem endsGraphic_join (hne : l ≠ []) (h : ∀ s ∈ l, EndsGraphic s) (sep : Bytes) :
    EndsGraphic (join l sep) := by
  induction l with
  | nil => exact absurd rfl hne
  | cons s l ih =>
    cases l with
    | nil => simpa [join] using h s List.mem_cons_self
    | cons t l =>
      rw [join_cons_cons]
      exact ((ih (List.cons_ne_nil t l) fun u hu => h u (List.mem_cons_of_mem _ hu)).append
        sep).append s

variable {sep : UInt8}

/-- Lines are read as they were joined. -/
theorem split_join {elems : List Bytes} (hne : elems ≠ []) (h : ∀ s ∈ elems, sep ∉ s) :
    split (join elems [sep]) sep = elems :=
  List.splitOn_intercalate sep h hne

theorem cut_append (h : sep ∉ s) (t : Bytes) :
    cut (s ++ sep :: t) sep = some (s, t) := by
  have hs : ∀ c ∈ s, decide (c ≠ sep) = true := fun c hc => decide_eq_true fun heq => h (heq ▸ hc)
  rw [cut, if_pos (List.mem_append_right _ List.mem_cons_self), takeWhile_ne_append h,
    List.dropWhile_append_of_pos hs, List.dropWhile_cons_of_neg (by simp), List.tail_cons]

/-! ## Parts of a text -/

/-- What is in a text and has no separator is on one side of it. -/
theorem infix_cases {s x y : Bytes} (h : s <:+: x ++ c :: y) (hc : c ∉ s) :
    s <:+: x ∨ s <:+: y := by
  obtain ⟨u, v, huv⟩ := h
  rcases List.append_eq_append_iff.1 huv with ⟨w, rfl, -⟩ | ⟨w, hw, hy⟩
  · exact .inl ⟨u, w, rfl⟩
  · -- The separator is after `x`, in `u ++ s`: it must be in `u`.
    cases w with
    | nil =>
      rw [List.append_nil] at hw
      exact .inl ⟨u, [], by rw [hw, List.append_nil]⟩
    | cons d w =>
      obtain ⟨rfl, rfl⟩ := List.cons.inj hy
      rcases List.append_eq_append_iff.1 hw with ⟨w', rfl, hs⟩ | ⟨w', rfl, hs⟩
      · exact absurd (hs ▸ List.mem_append_right _ List.mem_cons_self) hc
      · cases w' with
        | nil => exact absurd (hs ▸ List.mem_cons_self : c ∈ [] ++ s) hc
        | cons d' w' =>
          obtain ⟨-, rfl⟩ := List.cons.inj hs
          exact .inr ⟨w', v, rfl⟩

/-- What is in a text and has no separator is in one of its parts. -/
theorem exists_infix_of_split {s t : Bytes} (h : s <:+: t) (hsep : sep ∉ s) :
    ∃ w ∈ split t sep, s <:+: w := by
  rw [← @List.intercalate_splitOn _ t _ _ sep] at h
  have hne : split t sep ≠ [] := List.splitOn_ne_nil sep t
  rw [split] at hne ⊢
  generalize t.splitOn sep = l at h hne ⊢
  induction l with
  | nil => exact absurd rfl hne
  | cons w l ih =>
    cases l with
    | nil => exact ⟨w, List.mem_cons_self, by simpa using h⟩
    | cons w' l =>
      rw [show [sep].intercalate (w :: w' :: l) = w ++ sep :: [sep].intercalate (w' :: l) from
        join_cons_cons w w' l [sep]] at h
      rcases infix_cases h hsep with h | h
      · exact ⟨w, List.mem_cons_self, h⟩
      · obtain ⟨w'', hmem, hw''⟩ := ih h (List.cons_ne_nil _ _)
        exact ⟨w'', List.mem_cons_of_mem _ hmem, hw''⟩

theorem infix_join {w : Bytes} (h : w ∈ l) (sep : Bytes) : w <:+: join l sep := by
  induction l with
  | nil => cases h
  | cons s l ih =>
    cases l with
    | nil =>
      obtain rfl := List.mem_singleton.1 h
      exact ⟨[], [], by simp [join]⟩
    | cons t l =>
      rw [join_cons_cons]
      rcases List.mem_cons.1 h with rfl | h
      · exact (List.prefix_append _ _).isInfix
      · exact (ih h).trans ((List.suffix_append _ _).trans (List.suffix_append _ _)).isInfix

/-- The parts of a text are in it. -/
theorem infix_of_mem_split {t w : Bytes} (h : w ∈ split t sep) : w <:+: t := by
  have hpart := infix_join h [sep]
  rwa [join, split, List.intercalate_splitOn] at hpart

theorem trimSpace_isInfix (s : Bytes) : trimSpace s <:+: s := by
  obtain ⟨l, l', -, -, hs, -⟩ := exists_trimSpace s
  exact ⟨l.flatten, l'.flatten, by rw [List.append_assoc, ← hs]⟩

end QuicLab.Go
