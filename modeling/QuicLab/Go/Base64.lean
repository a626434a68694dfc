import QuicLab.Go.Strconv

/-!
# Base64

`base64.StdEncoding` of Go. Decoding gives back what was encoded
(`base64Decode_encode`), and the text of an encoding tells what was encoded.
-/

namespace QuicLab.Go

/-- The alphabet of the standard encoding. -/
def base64Digit (n : ℕ) : UInt8 :=
  if n < 26 then UInt8.ofNat (65 + n)
  else if n < 52 then UInt8.ofNat (71 + n)
  else if n < 62 then UInt8.ofNat (n - 4)
  else if n = 62 then ascii '+'
  else ascii '/'

/-- The value of a character of the alphabet. -/
def base64Value (c : UInt8) : Option ℕ :=
  if 65 ≤ c.toNat ∧ c.toNat ≤ 90 then some (c.toNat - 65)
  else if 97 ≤ c.toNat ∧ c.toNat ≤ 122 then some (c.toNat - 71)
  else if 48 ≤ c.toNat ∧ c.toNat ≤ 57 then some (c.toNat + 4)
  else if c = ascii '+' then some 62
  else if c = ascii '/' then some 63
  else none

/-- `EncodeToString`: three bytes are four characters, and the last ones are
    padded. -/
def base64Encode : Bytes → Bytes
  | [] => []
  | [a] => [base64Digit (a.toNat / 4), base64Digit (a.toNat % 4 * 16), ascii '=', ascii '=']
  | [a, b] => [base64Digit (a.toNat / 4), base64Digit (a.toNat % 4 * 16 + b.toNat / 16),
      base64Digit (b.toNat % 16 * 4), ascii '=']
  | a :: b :: c :: rest =>
    base64Digit (a.toNat / 4) :: base64Digit (a.toNat % 4 * 16 + b.toNat / 16) ::
      base64Digit (b.toNat % 16 * 4 + c.toNat / 64) :: base64Digit (c.toNat % 64) ::
      base64Encode rest

/-- The quanta of four characters, the last of which may be padded. -/
def base64Quanta : Bytes → Option Bytes
  | [] => some []
  | w :: x :: y :: z :: rest => do
    let a ← base64Value w
    let b ← base64Value x
    if z = ascii '=' then
      if rest ≠ [] then none
      else if y = ascii '=' then some [UInt8.ofNat (a * 4 + b / 16)]
      else do
        let c ← base64Value y
        some [UInt8.ofNat (a * 4 + b / 16), UInt8.ofNat (b % 16 * 16 + c / 4)]
    else do
      let c ← base64Value y
      let d ← base64Value z
      let bytes ← base64Quanta rest
      some (UInt8.ofNat (a * 4 + b / 16) :: UInt8.ofNat (b % 16 * 16 + c / 4) ::
        UInt8.ofNat (c % 4 * 64 + d) :: bytes)
  | _ => none

/-- `DecodeString`, which skips line breaks. -/
def base64Decode (s : Bytes) : Option Bytes :=
  base64Quanta (s.filter fun c => c ≠ ascii '\r' ∧ c ≠ ascii '\n')

/-! ## Round trip -/

theorem base64Value_digit {n : ℕ} (h : n < 64) :
    base64Value (base64Digit n) = some n ∧ base64Digit n ≠ ascii '=' ∧
      base64Digit n ≠ ascii '\r' ∧ base64Digit n ≠ ascii '\n' := by
  revert h n
  decide

theorem ofNat_eq_of_toNat {n : ℕ} {c : UInt8} (h : n = c.toNat) : UInt8.ofNat n = c := by
  rw [h, UInt8.ofNat_toNat]

theorem base64Quanta_encode (b : Bytes) : base64Quanta (base64Encode b) = some b := by
  fun_induction base64Encode b with
  | case1 => rfl
  | case2 a =>
    have ha := a.toNat_lt
    rw [base64Quanta, (base64Value_digit (by omega)).1, (base64Value_digit (by omega)).1]
    simp only [Option.bind_eq_bind, Option.bind_some, ne_eq, not_true_eq_false, if_false, if_true]
    rw [ofNat_eq_of_toNat (c := a) (by omega)]
  | case3 a b =>
    have ha := a.toNat_lt
    have hb := b.toNat_lt
    have hy := base64Value_digit (n := b.toNat % 16 * 4) (by omega)
    rw [base64Quanta, (base64Value_digit (by omega)).1, (base64Value_digit (by omega)).1]
    simp only [Option.bind_eq_bind, Option.bind_some, ne_eq, not_true_eq_false, if_false, if_true,
      if_neg hy.2.1, hy.1]
    rw [ofNat_eq_of_toNat (c := a) (by omega), ofNat_eq_of_toNat (c := b) (by omega)]
  | case4 a b c rest ih =>
    have ha := a.toNat_lt
    have hb := b.toNat_lt
    have hc := c.toNat_lt
    have hz := base64Value_digit (n := c.toNat % 64) (by omega)
    rw [base64Quanta, (base64Value_digit (by omega)).1, (base64Value_digit (by omega)).1, ih,
      (base64Value_digit (by omega)).1, hz.1]
    simp only [Option.bind_eq_bind, Option.bind_some, if_neg hz.2.1]
    rw [ofNat_eq_of_toNat (c := a) (by omega), ofNat_eq_of_toNat (c := b) (by omega),
      ofNat_eq_of_toNat (c := c) (by omega)]

/-- The characters of an encoding. -/
theorem mem_base64Encode {b : Bytes} {x : UInt8} (h : x ∈ base64Encode b) :
    x = ascii '=' ∨ ∃ n < 64, x = base64Digit n := by
  fun_induction base64Encode b with
  | case1 => cases h
  | case2 a =>
    have ha := a.toNat_lt
    simp only [List.mem_cons, List.not_mem_nil, or_false] at h
    rcases h with h | h | h | h
    · exact .inr ⟨_, by omega, h⟩
    · exact .inr ⟨_, by omega, h⟩
    · exact .inl h
    · exact .inl h
  | case3 a b =>
    have ha := a.toNat_lt
    have hb := b.toNat_lt
    simp only [List.mem_cons, List.not_mem_nil, or_false] at h
    rcases h with h | h | h | h
    · exact .inr ⟨_, by omega, h⟩
    · exact .inr ⟨_, by omega, h⟩
    · exact .inr ⟨_, by omega, h⟩
    · exact .inl h
  | case4 a b c rest ih =>
    have ha := a.toNat_lt
    have hb := b.toNat_lt
    have hc := c.toNat_lt
    simp only [List.mem_cons] at h
    rcases h with h | h | h | h | h
    · exact .inr ⟨_, by omega, h⟩
    · exact .inr ⟨_, by omega, h⟩
    · exact .inr ⟨_, by omega, h⟩
    · exact .inr ⟨_, by omega, h⟩
    · exact ih h

/-- An encoding has no line break. -/
theorem ne_lineBreak_of_mem_base64Encode {b : Bytes} {x : UInt8} (h : x ∈ base64Encode b) :
    x ≠ ascii '\r' ∧ x ≠ ascii '\n' := by
  rcases mem_base64Encode h with rfl | ⟨n, hn, rfl⟩
  · decide
  · exact (base64Value_digit hn).2.2

@[simp]
theorem length_base64Encode (b : Bytes) : (base64Encode b).length = (b.length + 2) / 3 * 4 := by
  fun_induction base64Encode b with
  | case1 => rfl
  | case2 a => simp only [List.length_cons, List.length_nil]
  | case3 a b => simp only [List.length_cons, List.length_nil]
  | case4 a b c rest ih =>
    simp only [List.length_cons, ih]
    omega

/-- An encoding is its digits, and then the padding. -/
theorem exists_base64Encode (b : Bytes) : ∃ d p, base64Encode b = d ++ p ∧
    (∀ c ∈ d, ∃ n < 64, c = base64Digit n) ∧ d.length = (8 * b.length + 5) / 6 := by
  have hcons : ∀ {n : ℕ} {d : Bytes}, n < 64 → (∀ c ∈ d, ∃ n < 64, c = base64Digit n) →
      ∀ c ∈ base64Digit n :: d, ∃ n < 64, c = base64Digit n := by
    intro n d hn hd c hc
    rcases List.mem_cons.1 hc with rfl | hc
    · exact ⟨n, hn, rfl⟩
    · exact hd c hc
  have hnil : ∀ c ∈ ([] : Bytes), ∃ n < 64, c = base64Digit n := List.forall_mem_nil _
  fun_induction base64Encode b with
  | case1 => exact ⟨[], [], rfl, hnil, rfl⟩
  | case2 a =>
    have ha := a.toNat_lt
    exact ⟨[_, _], [_, _], rfl, hcons (by omega) (hcons (by omega) hnil), by simp⟩
  | case3 a b =>
    have ha := a.toNat_lt
    have hb := b.toNat_lt
    exact ⟨[_, _, _], [_], rfl, hcons (by omega) (hcons (by omega) (hcons (by omega) hnil)),
      by simp⟩
  | case4 a b c rest ih =>
    have ha := a.toNat_lt
    have hb := b.toNat_lt
    have hc := c.toNat_lt
    obtain ⟨d, p, heq, hd, hlen⟩ := ih
    refine ⟨_ :: _ :: _ :: _ :: d, p, by rw [heq]; rfl,
      hcons (by omega) (hcons (by omega) (hcons (by omega) (hcons (by omega) hd))), ?_⟩
    simp only [List.length_cons, hlen]
    omega

/-- Decoding gives back what was encoded. -/
theorem base64Decode_encode (b : Bytes) : base64Decode (base64Encode b) = some b := by
  rw [base64Decode, List.filter_eq_self.2, base64Quanta_encode]
  exact fun x hx => decide_eq_true (ne_lineBreak_of_mem_base64Encode hx)

/-! ## Hexadecimal -/

theorem hexDigit_inj {m n : ℕ} (hm : m < 16) (hn : n < 16) (h : hexDigit m = hexDigit n) :
    m = n := by
  have hall : ∀ m < 16, ∀ n < 16, hexDigit m = hexDigit n → m = n := by decide
  exact hall m hm n hn h

@[simp]
theorem length_hexEncode (b : Bytes) : (hexEncode b).length = 2 * b.length := by
  induction b with
  | nil => rfl
  | cons c b ih =>
    rw [hexEncode, List.flatMap_cons, List.length_append, ← hexEncode, ih, List.length_cons,
      List.length_cons, List.length_cons, List.length_nil]
    omega

theorem hexEncode_injective : Function.Injective hexEncode := by
  intro b b' h
  induction b generalizing b' with
  | nil =>
    cases b' with
    | nil => rfl
    | cons c' b' => cases h
  | cons c b ih =>
    cases b' with
    | nil => cases h
    | cons c' b' =>
      simp only [hexEncode, List.flatMap_cons, List.cons_append, List.nil_append,
        List.cons.injEq] at h
      obtain ⟨hhi, hlo, hrest⟩ := h
      have hc := c.toNat_lt
      have hc' := c'.toNat_lt
      have h1 := hexDigit_inj (by omega) (by omega) hhi
      have h2 := hexDigit_inj (by omega) (by omega) hlo
      rw [ih hrest, UInt8.toNat_inj.1 (show c.toNat = c'.toNat by omega)]

end QuicLab.Go
