import QuicLab.Go.Bytes

/-!
# Texts of numbers

The conversions between texts and numbers of Go's `strconv`, `fmt` and
`encoding/hex` that the program uses.
-/

namespace QuicLab.Go

/-- The byte of an ASCII character. -/
def ascii (c : Char) : UInt8 := UInt8.ofNat c.toNat

/-! ## Decimal -/

/-- Is the byte a decimal digit? -/
def isDigit (c : UInt8) : Bool := 48 ≤ c.toNat && c.toNat ≤ 57

theorem isDigit_iff {c : UInt8} : isDigit c = true ↔ 48 ≤ c.toNat ∧ c.toNat ≤ 57 := by
  simp [isDigit]

/-- The byte of a digit. -/
def digit (n : ℕ) : UInt8 := UInt8.ofNat (48 + n % 10)

/-- `%d` of a natural number. -/
def decimal (n : ℕ) : Bytes := (Nat.toDigits 10 n).map ascii

/-- `%d`. -/
def itoa (i : ℤ) : Bytes := if i < 0 then ascii '-' :: decimal i.natAbs else decimal i.natAbs

/-- `strconv.Atoi`, for an `int` of 64 bits: an optional sign, then one or more
    digits, of a value in range. -/
def atoi (s : Bytes) : Option ℤ :=
  let sign : ℤ := if s.head? = some (ascii '-') then -1 else 1
  let digits := if s.head? = some (ascii '-') ∨ s.head? = some (ascii '+') then s.tail else s
  if digits = [] ∨ !digits.all isDigit then none
  else
    let n := sign * (digits.foldl (fun n c => n * 10 + (c.toNat - 48)) 0 : ℕ)
    if n < -2 ^ 63 ∨ 2 ^ 63 ≤ n then none else some n

/-- `strconv.ParseUint` in base 10, of the given width. -/
def parseUint (s : Bytes) (bitSize : ℕ) : Option ℕ :=
  if s = [] ∨ !s.all isDigit then none
  else
    let n := s.foldl (fun n c => n * 10 + (c.toNat - 48)) 0
    if n < 2 ^ bitSize then some n else none

/-- The loop of `strconv.ParseUint` in base 10 with 64 bits, after digits of the
    value `n`; what it returns beside an error is 0, or the largest value when
    the number is out of range. -/
def parseUintLoop : Bytes → ℕ → ℕ
  | [], n => n
  | c :: s, n =>
    if ¬ isDigit c then 0
    else if 2 ^ 64 ≤ n * 10 + (c.toNat - 48) then 2 ^ 64 - 1
    else parseUintLoop s (n * 10 + (c.toNat - 48))

/-- What `strconv.ParseUint(s, 10, 64)` returns, whatever its error. -/
def parseUintValue (s : Bytes) : ℕ := if s = [] then 0 else parseUintLoop s 0

/-- What `strconv.ParseInt(s, 10, 64)` returns, whatever its error. -/
def parseIntValue (s : Bytes) : ℤ :=
  let neg := s.head? = some (ascii '-')
  let digits := if neg ∨ s.head? = some (ascii '+') then s.tail else s
  let n := parseUintValue digits
  if neg then max (-2 ^ 63) (-n) else min (2 ^ 63 - 1) n

theorem ascii_digitChar {d : ℕ} (hd : d < 10) :
    isDigit (ascii d.digitChar) = true ∧ (ascii d.digitChar).toNat - 48 = d := by
  revert hd d
  decide

/-- A digit is that of its value. -/
theorem eq_ascii_digitChar {c : UInt8} (hc : isDigit c = true) :
    c.toNat - 48 < 10 ∧ c = ascii (c.toNat - 48).digitChar := by
  rw [isDigit_iff] at hc
  have hlt : c.toNat - 48 < 10 := by omega
  obtain ⟨hdigit, hval⟩ := ascii_digitChar hlt
  rw [isDigit_iff] at hdigit
  exact ⟨hlt, UInt8.toNat_inj.1 (by omega)⟩

theorem decimal_of_lt {n : ℕ} (h : n < 10) : decimal n = [ascii n.digitChar] := by
  rw [decimal, Nat.toDigits_of_lt_base h, List.map_singleton]

/-- The last digit of a number, and those before it. -/
theorem decimal_of_le {n : ℕ} (h : 10 ≤ n) :
    decimal n = decimal (n / 10) ++ [ascii (n % 10).digitChar] := by
  rw [decimal, Nat.toDigits_of_base_le (by decide) h, List.map_append, List.map_singleton, decimal]

theorem decimal_ne_nil (n : ℕ) : decimal n ≠ [] := by
  rcases lt_or_ge n 10 with h | h
  · rw [decimal_of_lt h]
    exact List.cons_ne_nil _ _
  · rw [decimal_of_le h]
    exact List.append_ne_nil_of_right_ne_nil _ (List.cons_ne_nil _ _)

theorem isDigit_of_mem_decimal {n : ℕ} {c : UInt8} (hc : c ∈ decimal n) : isDigit c = true := by
  induction n using Nat.strong_induction_on with
  | h n ih =>
    rcases lt_or_ge n 10 with h | h
    · rw [decimal_of_lt h, List.mem_singleton] at hc
      rw [hc]
      exact (ascii_digitChar h).1
    · rw [decimal_of_le h, List.mem_append, List.mem_singleton] at hc
      rcases hc with hc | rfl
      · exact ih (n / 10) (Nat.div_lt_self (by omega) (by decide)) hc
      · exact (ascii_digitChar (Nat.mod_lt n (by decide))).1

/-- The value of the digits written. -/
theorem foldl_decimal (n : ℕ) : (decimal n).foldl (fun n c => n * 10 + (c.toNat - 48)) 0 = n := by
  induction n using Nat.strong_induction_on with
  | h n ih =>
    rcases lt_or_ge n 10 with h | h
    · rw [decimal_of_lt h, List.foldl_cons, List.foldl_nil, (ascii_digitChar h).2, Nat.zero_mul,
        Nat.zero_add]
    · rw [decimal_of_le h, List.foldl_append, ih (n / 10) (Nat.div_lt_self (by omega) (by decide)),
        List.foldl_cons, List.foldl_nil, (ascii_digitChar (Nat.mod_lt n (by decide))).2,
        Nat.mul_comm, Nat.div_add_mod]

theorem le_foldl_digits (s : Bytes) (n : ℕ) :
    n ≤ s.foldl (fun n c => n * 10 + (c.toNat - 48)) n := by
  induction s generalizing n with
  | nil => exact le_refl n
  | cons c s ih => exact le_trans (by omega) (ih (n * 10 + (c.toNat - 48)))

/-- Digits without a leading zero are those written for their value. -/
theorem decimal_foldl {s : Bytes} (hs : s ≠ []) (hall : ∀ c ∈ s, isDigit c = true)
    (hzero : s.length = 1 ∨ s.head? ≠ some (ascii '0')) :
    decimal (s.foldl (fun n c => n * 10 + (c.toNat - 48)) 0) = s := by
  induction s using List.reverseRecOn with
  | nil => exact absurd rfl hs
  | append_singleton t c ih =>
    obtain ⟨hlt, hc⟩ :=
      eq_ascii_digitChar (hall c (List.mem_append_right _ (List.mem_singleton_self c)))
    rw [List.foldl_append, List.foldl_cons, List.foldl_nil]
    cases t with
    | nil => rw [List.foldl_nil, Nat.zero_mul, Nat.zero_add, decimal_of_lt hlt, ← hc, List.nil_append]
    | cons d t =>
      have hd : d ≠ ascii '0' := by
        rcases hzero with h | h
        · rw [List.length_append, List.length_cons, List.length_singleton] at h
          omega
        · exact fun heq => h (by rw [heq]; rfl)
      -- The digits before the last one are a positive number.
      have hpos : 0 < d.toNat - 48 := by
        have heq := (eq_ascii_digitChar (hall d List.mem_cons_self)).2
        exact Nat.pos_of_ne_zero fun h => hd (by rw [heq, h]; rfl)
      have hle := le_foldl_digits t (0 * 10 + (d.toNat - 48))
      have ih' := ih (List.cons_ne_nil _ _) (fun x hx => hall x (List.mem_append_left _ hx))
        (.inr fun h => hd (Option.some.inj h))
      rw [List.foldl_cons] at ih' ⊢
      generalize t.foldl (fun n c => n * 10 + (c.toNat - 48)) (0 * 10 + (d.toNat - 48)) = v at *
      rw [decimal_of_le (by omega), show (v * 10 + (c.toNat - 48)) / 10 = v by omega,
        show (v * 10 + (c.toNat - 48)) % 10 = c.toNat - 48 by omega, ih', ← hc]

/-- A number that fits is read back as it was written. -/
theorem parseUint_decimal {n bitSize : ℕ} (h : n < 2 ^ bitSize) :
    parseUint (decimal n) bitSize = some n := by
  have hall : (decimal n).all isDigit = true := List.all_eq_true.2 fun _ => isDigit_of_mem_decimal
  rw [parseUint, if_neg (by simp [decimal_ne_nil, hall]), foldl_decimal, if_pos h]

/-- What `ParseUint` accepts: digits, of a value in range. -/
theorem parseUint_some {s : Bytes} {bitSize n : ℕ} (h : parseUint s bitSize = some n) :
    s ≠ [] ∧ (∀ c ∈ s, isDigit c = true) ∧
      s.foldl (fun n c => n * 10 + (c.toNat - 48)) 0 = n ∧ n < 2 ^ bitSize := by
  simp only [parseUint] at h
  split_ifs at h with hs hlt
  have hn := Option.some.inj h
  rw [not_or, Bool.not_eq_true', Bool.not_eq_false, List.all_eq_true] at hs
  exact ⟨hs.1, hs.2, hn, hn ▸ hlt⟩

/-- A text of digits is read as its value. -/
theorem atoi_digits {s : Bytes} (hs : s ≠ []) (hall : ∀ c ∈ s, isDigit c = true) :
    atoi s = if s.foldl (fun n c => n * 10 + (c.toNat - 48)) 0 < 2 ^ 63 then
      some ((s.foldl (fun n c => n * 10 + (c.toNat - 48)) 0 : ℕ) : ℤ) else none := by
  have hhead : ∀ c, isDigit c = false → s.head? ≠ some c := by
    intro c hc heq
    rw [hall c (List.mem_of_head? heq)] at hc
    cases hc
  have hminus := hhead (ascii '-') (by decide)
  have hplus := hhead (ascii '+') (by decide)
  simp only [atoi, hminus, hplus, hs, List.all_eq_true.2 hall, or_self, if_false, Bool.not_true,
    Bool.false_eq_true, one_mul]
  split_ifs <;> first | rfl | omega

/-- What `Atoi` accepts: digits, after a sign or not. -/
theorem atoi_some {s : Bytes} {n : ℤ} (h : atoi s = some n) : ∃ sign digits, s = sign ++ digits ∧
    (sign = [] ∨ sign = [ascii '-'] ∨ sign = [ascii '+']) ∧ digits ≠ [] ∧
      ∀ c ∈ digits, isDigit c = true := by
  have hdigits : ∀ digits : Bytes, ¬ (digits = [] ∨ (!digits.all isDigit) = true) →
      digits ≠ [] ∧ ∀ c ∈ digits, isDigit c = true := by
    intro digits hd
    simpa using hd
  by_cases hsign : s.head? = some (ascii '-') ∨ s.head? = some (ascii '+')
  · simp only [atoi, if_pos hsign] at h
    split_ifs at h with hd
    all_goals
      rcases hsign with hsign | hsign
      · obtain ⟨t, rfl⟩ := List.head?_eq_some_iff.1 hsign
        exact ⟨[ascii '-'], t, rfl, .inr (.inl rfl), hdigits t hd⟩
      · obtain ⟨t, rfl⟩ := List.head?_eq_some_iff.1 hsign
        exact ⟨[ascii '+'], t, rfl, .inr (.inr rfl), hdigits t hd⟩
  · simp only [atoi, if_neg hsign] at h
    split_ifs at h with hd
    all_goals exact ⟨[], s, rfl, .inl rfl, hdigits s hd⟩

/-- A positive number is read from digits, after a plus or not. -/
theorem atoi_pos {s : Bytes} {n : ℤ} (h : atoi s = some n) (hn : 0 < n) :
    ∃ digits : Bytes, (s = digits ∨ s = ascii '+' :: digits) ∧ digits ≠ [] ∧
      (∀ c ∈ digits, isDigit c = true) ∧
        n = (digits.foldl (fun n c => n * 10 + (c.toNat - 48)) 0 : ℕ) := by
  obtain ⟨sign, digits, rfl, hsign, hne, hall⟩ := atoi_some h
  have hd : ¬ (digits = [] ∨ (!digits.all isDigit) = true) := by simpa using ⟨hne, hall⟩
  rcases hsign with rfl | rfl | rfl
  · rw [List.nil_append, atoi_digits hne hall] at h
    split_ifs at h
    exact ⟨digits, .inl rfl, hne, hall, (Option.some.inj h).symm⟩
  · -- A number after a minus is not positive.
    have hminus : (ascii '-' :: digits).head? = some (ascii '-') := rfl
    simp only [atoi, List.singleton_append, hminus, true_or, if_true, List.tail_cons,
      if_neg hd] at h
    split_ifs at h
    have := Option.some.inj h
    omega
  · have hplus : (ascii '+' :: digits).head? = some (ascii '+') := rfl
    have hne' : ¬ some (ascii '+') = some (ascii '-') := by decide
    simp only [atoi, List.singleton_append, hplus, hne', or_true, if_true, if_false, List.tail_cons,
      if_neg hd, one_mul] at h
    split_ifs at h
    exact ⟨digits, .inr rfl, hne, hall, (Option.some.inj h).symm⟩

theorem atoi_itoa {n : ℤ} (h0 : 0 ≤ n) (h : n < 2 ^ 63) : atoi (itoa n) = some n := by
  rw [itoa, if_neg (not_lt.2 h0), atoi_digits (decimal_ne_nil _) fun _ => isDigit_of_mem_decimal,
    foldl_decimal, if_pos (by omega), Int.natAbs_of_nonneg h0]

/-! ## Hexadecimal -/

/-- The lower-case hexadecimal digit of a number below 16. -/
def hexDigit (n : ℕ) : UInt8 := if n < 10 then UInt8.ofNat (48 + n) else UInt8.ofNat (87 + n)

/-- `hex.EncodeToString`. -/
def hexEncode (b : Bytes) : Bytes :=
  b.flatMap fun c => [hexDigit (c.toNat / 16), hexDigit (c.toNat % 16)]

/-- Is the byte a hexadecimal digit, of either case? -/
def isHexDigit (c : UInt8) : Bool :=
  isDigit c || (97 ≤ c.toNat && c.toNat ≤ 102) || (65 ≤ c.toNat && c.toNat ≤ 70)

/-- The value of a hexadecimal digit. -/
def hexValue (c : UInt8) : ℕ :=
  if isDigit c then c.toNat - 48 else if 97 ≤ c.toNat then c.toNat - 87 else c.toNat - 55

/-- `%x` of a natural number. -/
def hexadecimal (n : ℕ) : Bytes := (Nat.toDigits 16 n).map ascii

end QuicLab.Go
