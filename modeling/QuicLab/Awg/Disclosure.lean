import QuicLab.Awg.Order

/-!
# What errors disclose

The errors of `Parse` are fixed texts, some of them with the name of a field. A known name
is short, so that no key fits into it; the name in

    unsupported AWG field %s (legacy format only)

is whatever stands before the first `=` of a line. The padding of a key is such a `=`, so
that a key alone on a line of a section is a name, and ends up in the error.

* `Keyless`: texts that no key can be part of;
* `Parser.line_error`: the errors of a line are keyless, or name what is before the `=`;
* `parse_discloses`: keys are disclosed by such lines, and only by them.
-/

namespace QuicLab.Awg

open Go Netip

/-! ## Texts of errors -/

/-- The text of a format, with the arguments in place of `%s`. -/
def sprintf : Bytes → List Bytes → Bytes
  | 37 :: 115 :: format, arg :: args => arg ++ sprintf format args
  | c :: format, args => c :: sprintf format args
  | [], _ => []

/-- `Error()`, for the errors of `Parse`. -/
def errorText : Error → Bytes
  | .EOF => str "EOF"
  | .ErrUnexpectedEOF => str "unexpected EOF"
  | .ErrNoProgress => str "multiple Read calls return no data or error"
  | .ErrClosedPipe => str "io: read/write on closed pipe"
  | .new text => str text
  | .errorf format args => sprintf (str format) args
  | .sys text => str text

/-- The text of a key of 32 bytes, without its padding. -/
def IsKeyBody (s : Bytes) : Prop := ∃ b, b.length = 32 ∧ s = (base64Encode b).take 43

theorem IsKeyBody.spec {s : Bytes} (h : IsKeyBody s) :
    s.length = 43 ∧ ∀ c ∈ s, ∃ n < 64, c = base64Digit n := by
  obtain ⟨b, hb, rfl⟩ := h
  obtain ⟨d, p, heq, hd, hlen⟩ := exists_base64Encode b
  rw [hb] at hlen
  rw [heq, List.take_left' hlen]
  exact ⟨hlen, hd⟩

theorem IsKeyBody.blank {s : Bytes} (h : IsKeyBody s) : ascii ' ' ∉ s := by
  have hdigit : ∀ n < 64, ascii ' ' ≠ base64Digit n := by decide
  intro hmem
  obtain ⟨n, hn, heq⟩ := h.spec.2 _ hmem
  exact hdigit n hn heq

/-- No key is part of the text. -/
def Keyless (t : Bytes) : Prop := ∀ s, IsKeyBody s → ¬ s <:+: t

namespace Keyless

theorem of_length {t : Bytes} (h : t.length < 43) : Keyless t := by
  intro s hs hpart
  have hlen := hpart.length_le
  rw [hs.spec.1] at hlen
  omega

/-- Words that are short. -/
theorem of_words {t : Bytes} (h : ∀ w ∈ split t (ascii ' '), w.length < 43) : Keyless t := by
  intro s hs hpart
  obtain ⟨w, hw, hpart⟩ := exists_infix_of_split hpart hs.blank
  exact of_length (h w hw) s hs hpart

theorem append {x y : Bytes} (hx : Keyless x) (hy : Keyless y) : Keyless (x ++ ascii ' ' :: y) := by
  intro s hs hpart
  exact (infix_cases hpart hs.blank).elim (hx s hs) (hy s hs)

end Keyless

/-- The error for a name that is not known. -/
def unsupported (k : Bytes) : Error :=
  .errorf "unsupported AWG field %s (legacy format only)" [k]

theorem errorText_unsupported (k : Bytes) :
    errorText (unsupported k) =
      str "unsupported AWG field" ++ ascii ' ' :: (k ++ ascii ' ' :: str "(legacy format only)") := by
  rfl

/-- The text of this error holds the keys of the name. -/
theorem infix_unsupported {s k : Bytes} (hs : IsKeyBody s) :
    s <:+: errorText (unsupported k) ↔ s <:+: k := by
  rw [errorText_unsupported]
  constructor
  · intro h
    have hleft : Keyless (str "unsupported AWG field") := .of_words (by decide)
    have hright : Keyless (str "(legacy format only)") := .of_words (by decide)
    rcases infix_cases h hs.blank with h | h
    · exact absurd h (hleft s hs)
    · exact (infix_cases h hs.blank).resolve_right (hright s hs)
  · intro h
    exact h.trans ((List.prefix_append _ _).isInfix.trans
      ((List.suffix_cons _ _).trans (List.suffix_append _ _)).isInfix)

/-! ## Errors of fields -/

theorem keyless_new {text : String} (h : ∀ w ∈ split (str text) (ascii ' '), w.length < 43) :
    Keyless (errorText (.new text)) :=
  .of_words h

theorem keyless_invalid {k : Bytes} (hk : k.length < 43) :
    Keyless (errorText (.errorf "invalid %s" [k])) := by
  show Keyless (str "invalid" ++ ascii ' ' :: (k ++ []))
  rw [List.append_nil]
  exact .append (.of_words (by decide)) (.of_length hk)

namespace Config

section

variable {c : Config} {s k v : Bytes} {e : Error}

theorem key_error (hk : k.length < 43) (h : key k v = .error e) : Keyless (errorText e) := by
  have hzero : Keyless (errorText (.errorf "zero %s" [k])) := by
    show Keyless (str "zero" ++ ascii ' ' :: (k ++ []))
    rw [List.append_nil]
    exact .append (.of_words (by decide)) (.of_length hk)
  unfold key at h
  split at h
  · cases h
    exact keyless_invalid hk
  · split_ifs at h
    · cases h
      exact keyless_invalid hk
    · cases h
      exact hzero

theorem addAddress_error (h : c.addAddress s = .error e) : Keyless (errorText e) := by
  unfold addAddress at h
  dsimp only at h
  split at h
  · cases h
    exact keyless_new (by decide)
  · split_ifs at h
    cases h
    exact keyless_new (by decide)

theorem addAllowed_error (h : c.addAllowed s = .error e) : Keyless (errorText e) := by
  unfold addAllowed at h
  split at h
  · cases h
    exact keyless_new (by decide)
  · split_ifs at h

theorem setDNS_error (h : c.setDNS v = .error e) : Keyless (errorText e) := by
  unfold setDNS at h
  split at h
  · cases h
  · cases h
    exact keyless_new (by decide)

theorem setMTU_error (h : c.setMTU v = .error e) : Keyless (errorText e) := by
  have htext : Keyless (errorText (.new "MTU must be 1280..1420")) := keyless_new (by decide)
  unfold setMTU at h
  split at h
  · cases h
    exact htext
  · split_ifs at h
    cases h
    exact htext

theorem setEndpoint_error (h : c.setEndpoint v = .error e) : Keyless (errorText e) := by
  have htext : Keyless (errorText (.new "invalid Endpoint")) := keyless_new (by decide)
  unfold setEndpoint at h
  split at h
  · cases h
    exact htext
  · split at h
    · cases h
      exact htext
    · split_ifs at h
      · cases h
        exact htext
      · cases h
        exact keyless_new (by decide)

theorem setKeepalive_error (h : c.setKeepalive v = .error e) : Keyless (errorText e) := by
  unfold setKeepalive at h
  split at h
  · cases h
    exact keyless_new (by decide)
  · cases h

/-- The names of the parameters are short. -/
theorem length_lt_of_lookup {bound : Option ℕ} (h : paramBounds.lookup k = some bound) :
    k.length ≤ 4 := by
  have hall : ∀ p ∈ paramBounds, p.1.length ≤ 4 := by decide
  obtain ⟨l, l', hl, -⟩ := List.lookup_eq_some_iff.1 h
  exact hall (k, bound) (hl ▸ List.mem_append_right _ List.mem_cons_self)

theorem setParam_error {sect : Bytes} (h : c.setParam sect k v = .error e) :
    Keyless (errorText e) ∨ e = unsupported k := by
  unfold setParam at h
  split at h
  · cases h
    exact .inr rfl
  · rename_i bound hbound
    have hk : k.length < 43 := by
      split_ifs at hbound
      exact (length_lt_of_lookup hbound).trans_lt (by decide)
    left
    split at h
    · cases h
      exact keyless_invalid hk
    · split_ifs at h
      cases h
      show Keyless (k ++ ascii ' ' :: str "exceeds supported bound")
      exact .append (.of_length hk) (.of_words (by decide))

/-- The errors of a field hold no key, except that for a name that is not known. -/
theorem field_error {sect : Bytes} (h : c.field sect k v = .error e) :
    Keyless (errorText e) ∨ e = unsupported k := by
  have hshort : ∀ tag : Bytes, sect ++ k = tag → tag.length < 43 → k.length < 43 := by
    rintro tag rfl hlen
    rw [List.length_append] at hlen
    omega
  have hkey : ∀ {f : Bytes → Config}, k.length < 43 → f <$> key k v = .error e →
      Keyless (errorText e) := by
    intro f hk h
    cases hr : key k v with
    | ok s =>
      rw [hr] at h
      cases h
    | error e' =>
      rw [hr] at h
      cases h
      exact key_error hk hr
  simp only [field] at h
  split_ifs at h with h₁ h₂ h₃ h₄ h₅ h₆ h₇ h₈ h₉
  · exact .inl (hkey (hshort _ h₁ (by decide)) h)
  · exact .inl (hkey (hshort _ h₂ (by decide)) h)
  · exact .inl (hkey (hshort _ h₃ (by decide)) h)
  · obtain ⟨_, _, _, _, -, -, hs⟩ := foldlM_eq_error h
    exact .inl (addAddress_error hs)
  · exact .inl (setDNS_error h)
  · exact .inl (setMTU_error h)
  · exact .inl (setEndpoint_error h)
  · obtain ⟨_, _, _, _, -, -, hs⟩ := foldlM_eq_error h
    exact .inl (addAllowed_error hs)
  · exact .inl (setKeepalive_error h)
  · exact setParam_error h

/-- A long name is not known. -/
theorem field_long {sect : Bytes} (h : 43 ≤ (sect ++ k).length) :
    c.field sect k v = .error (unsupported k) := by
  have hne : ∀ tag : Bytes, tag.length < 43 → sect ++ k ≠ tag := by
    rintro tag hlen rfl
    omega
  have hbound : (if sect = str "[Interface]" then paramBounds.lookup k else none) = none := by
    by_cases hsect : sect = str "[Interface]"
    · rw [if_pos hsect]
      cases hlookup : paramBounds.lookup k with
      | none => rfl
      | some bound =>
        have hk := length_lt_of_lookup hlookup
        rw [List.length_append, hsect, show (str "[Interface]").length = 11 by decide] at h
        omega
    · rw [if_neg hsect]
  simp only [field]
  rw [if_neg (hne _ (by decide)), if_neg (hne _ (by decide)), if_neg (hne _ (by decide)),
    if_neg (hne _ (by decide)), if_neg (hne _ (by decide)), if_neg (hne _ (by decide)),
    if_neg (hne _ (by decide)), if_neg (hne _ (by decide)), if_neg (hne _ (by decide)),
    setParam, hbound]
  rfl

end

theorem finish_error {c : Config} {e : Error} (h : c.finish = .error e) : Keyless (errorText e) := by
  unfold finish at h
  dsimp only at h
  split_ifs at h
  · cases h
    exact keyless_new (by decide)
  · cases h
    exact keyless_new (by decide)
  · cases h
    exact keyless_new (by decide)

end Config

/-! ## Errors of lines -/

/-- The text before the first `=` of a line. -/
def IsName (line k : Bytes) : Prop :=
  (content line).head? ≠ some (ascii '[') ∧ ∃ v, cut (content line) (ascii '=') = some (k, v)

namespace Parser

variable {st st' : Parser} {line : Bytes}

/-- The fields seen have short names. -/
def Short (st : Parser) : Prop := ∀ tag ∈ st.seen, tag.length < 43

theorem Short.start : start.Short := List.forall_mem_nil _

theorem Short.step (h : st.Short) (hline : st.line line = .ok st') : st'.Short := by
  unfold Parser.line at hline
  dsimp only at hline
  split_ifs at hline
  · cases hline
    exact h
  · cases hline
    exact h
  · unfold assign at hline
    split at hline
    · cases hline
    · rename_i k v _
      dsimp only at hline
      split_ifs at hline
      cases hfield : st.config.field st.sect (trimSpace k) (trimSpace v) with
      | error e =>
        rw [hfield] at hline
        cases hline
      | ok config =>
        rw [hfield] at hline
        cases hline
        intro tag htag
        rcases List.mem_cons.1 htag with rfl | htag
        · by_contra hlong
          rw [Config.field_long (not_lt.1 hlong)] at hfield
          cases hfield
        · exact h tag htag

theorem Short.lines {lines : List Bytes} (h : st.Short)
    (hlines : lines.foldlM Parser.line st = .ok st') : st'.Short := by
  induction lines generalizing st with
  | nil =>
    cases hlines
    exact h
  | cons l lines ih =>
    cases hl : st.line l with
    | error e =>
      rw [List.foldlM_cons, hl] at hlines
      cases hlines
    | ok st₁ =>
      rw [foldlM_cons_of_ok hl] at hlines
      exact ih (h.step hl) hlines

/-- The errors of a line hold no key, except that for a name that is not known. -/
theorem line_error (h : st.Short) {e : Error} (hline : st.line line = .error e) :
    Keyless (errorText e) ∨
      st.sect ≠ [] ∧ ∃ k, IsName line k ∧ e = unsupported (trimSpace k) := by
  unfold Parser.line at hline
  dsimp only at hline
  rw [← content] at hline
  split_ifs at hline with hempty hhead hname hseen
  · cases hline
    exact .inl (keyless_new (by decide))
  · cases hline
    exact .inl (keyless_new (by decide))
  · unfold assign at hline
    split at hline
    · cases hline
      exact .inl (keyless_new (by decide))
    · rename_i k v hcut
      dsimp only at hline
      split_ifs at hline with hsect hdup
      · cases hline
        exact .inl (keyless_new (by decide))
      · cases hline
        have hlen := h _ hdup
        rw [List.length_append] at hlen
        left
        show Keyless (str "duplicate AWG field" ++ ascii ' ' :: (trimSpace k ++ []))
        rw [List.append_nil]
        exact .append (.of_words (by decide)) (.of_length (by omega))
      · cases hfield : st.config.field st.sect (trimSpace k) (trimSpace v) with
        | ok config =>
          rw [hfield] at hline
          cases hline
        | error e' =>
          rw [hfield] at hline
          cases hline
          exact (Config.field_error hfield).imp_right fun he => ⟨hsect, k, ⟨hhead, v, hcut⟩, he⟩

/-- A key in a name is disclosed. -/
theorem line_name (h : st.Short) (hsect : st.sect ≠ []) {k s : Bytes} (hk : IsName line k)
    (hs : IsKeyBody s) (hpart : s <:+: trimSpace k) :
    st.line line = .error (unsupported (trimSpace k)) := by
  obtain ⟨hhead, v, hcut⟩ := hk
  have hlen : 43 ≤ (st.sect ++ trimSpace k).length := by
    have hle := hpart.length_le
    rw [hs.spec.1] at hle
    rw [List.length_append]
    omega
  have hne : content line ≠ [] := by
    intro hempty
    rw [hempty] at hcut
    cases hcut
  have hnew : st.sect ++ trimSpace k ∉ st.seen := fun hmem => absurd (h _ hmem) (not_lt.2 hlen)
  unfold Parser.line
  dsimp only
  rw [← content, if_neg hne, if_neg hhead, assign, hcut]
  dsimp only
  rw [if_neg hsect, if_neg hnew, Config.field_long hlen]
  rfl

end Parser

/-- `Parse` reads these lines, and is then in a section. -/
def InSection (lines : List Bytes) : Prop :=
  ∃ st, lines.foldlM Parser.line Parser.start = .ok st ∧ st.sect ≠ []

/-- A line read in a section has a key in its name. -/
def KeyAsName (raw : Bytes) : Prop :=
  ∃ before line after, split raw (ascii '\n') = before ++ line :: after ∧ InSection before ∧
    ∃ k, IsName line k ∧ ∃ s, IsKeyBody s ∧ s <:+: trimSpace k

theorem IsName.isInfix {line k : Bytes} (h : IsName line k) : trimSpace k <:+: line := by
  obtain ⟨-, v, hcut⟩ := h
  have hk : k <+: content line := by
    unfold cut at hcut
    split_ifs at hcut
    cases hcut
    exact List.takeWhile_prefix _
  exact (trimSpace_isInfix k).trans (hk.isInfix.trans ((trimSpace_isInfix _).trans
    (List.takeWhile_prefix _).isInfix))

/-- **What errors disclose.** The error of a text holds none of the keys in the text if and
    only if no line of it that is read in a section has a key in its name. -/
theorem parse_discloses {raw : Bytes} {e : Error} (h : parse raw = .error e) :
    (∀ s, IsKeyBody s → s <:+: raw → ¬ s <:+: errorText e) ↔
      32768 < raw.length ∨ ¬ KeyAsName raw := by
  unfold parse at h
  by_cases hlen : 32768 < raw.length
  · rw [if_pos hlen] at h
    cases h
    have htext : Keyless (errorText (.new "AWG config exceeds 32 KiB")) := keyless_new (by decide)
    exact iff_of_true (fun s hs _ => htext s hs) (.inl hlen)
  rw [if_neg hlen] at h
  constructor
  · -- The line with a key in its name is the one that fails.
    rintro hkept
    refine .inr ?_
    rintro ⟨before, line, after, hsplit, ⟨st, hst, hsect⟩, k, hk, s, hs, hpart⟩
    have hline := Parser.line_name (Parser.Short.start.lines hst) hsect hk hs hpart
    rw [hsplit, foldlM_append_error hst hline] at h
    cases h
    have hmem : line ∈ split raw (ascii '\n') := by
      rw [hsplit]
      exact List.mem_append_right _ List.mem_cons_self
    refine hkept s hs ?_ ((infix_unsupported hs).2 hpart)
    exact hpart.trans (hk.isInfix.trans (infix_of_mem_split hmem))
  · rintro hname s hs - hpart
    have hname := hname.resolve_left hlen
    cases hlines : (split raw (ascii '\n')).foldlM Parser.line Parser.start with
    | ok st =>
      rw [hlines] at h
      exact Config.finish_error h s hs hpart
    | error e' =>
      rw [hlines] at h
      cases h
      obtain ⟨before, line, after, st, hsplit, hst, hline⟩ := foldlM_eq_error hlines
      rcases Parser.line_error (Parser.Short.start.lines hst) hline with hfree | ⟨hsect, k, hk, rfl⟩
      · exact hfree s hs hpart
      · exact hname ⟨before, line, after, hsplit, ⟨st, hst, hsect⟩, k, hk, s, hs,
          (infix_unsupported hs).1 hpart⟩

namespace Sample

/-- The bytes of a key. -/
def keyBytes : Bytes := (List.range 32).map fun n => UInt8.ofNat (n + 1)

/-- A key alone on the line of a section. -/
def pasted : Bytes := str "[Interface]\n" ++ base64Encode keyBytes

end Sample

/-- A text without a section is refused and its keys are not told. -/
theorem parse_discloses_sample :
    ∃ e, parse (base64Encode Sample.keyBytes) = .error e ∧
      ∀ s, IsKeyBody s → s <:+: base64Encode Sample.keyBytes → ¬ s <:+: errorText e := by
  have hparse : parse (base64Encode Sample.keyBytes) =
      .error (.new "invalid AWG config line") := by
    rfl
  refine ⟨_, hparse, (parse_discloses hparse).2 (.inr ?_)⟩
  rintro ⟨before, line, after, hsplit, ⟨st, hst, hsect⟩, -⟩
  have hone : split (base64Encode Sample.keyBytes) (ascii '\n') = [base64Encode Sample.keyBytes] :=
    rfl
  -- There is nothing before the only line.
  have hbefore : before = [] := by
    have hlen := congrArg List.length (hone.symm.trans hsplit)
    simp only [List.length_append, List.length_cons, List.length_nil] at hlen
    exact List.eq_nil_of_length_eq_zero (by omega)
  subst hbefore
  cases hst
  exact hsect rfl

/-- A key alone on a line is told. -/
theorem parse_discloses_pasted :
    ∃ e s, parse Sample.pasted = .error e ∧ IsKeyBody s ∧ s <:+: Sample.pasted ∧
      s <:+: errorText e := by
  refine ⟨unsupported ((base64Encode Sample.keyBytes).take 43),
    (base64Encode Sample.keyBytes).take 43, rfl, ⟨Sample.keyBytes, rfl, rfl⟩, ?_, ?_⟩
  · decide +kernel
  · decide +kernel

end QuicLab.Awg
