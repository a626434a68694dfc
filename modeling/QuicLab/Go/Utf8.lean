import QuicLab.Go.Bytes

/-!
# UTF-8

`unicode/utf8`, as far as it decides which bytes of a string are valid: a rune is
a byte below `0x80`, or a first byte with one to three more, the first of which
has a range of its own.

`encoding/json` writes each invalid byte of a string as U+FFFD and keeps the rest
(`jsonString`, the string that is read back).

* `jsonString_eq_iff`: a string is read back as it was if and only if it is valid.
-/

namespace QuicLab.Go

/-- The first byte of a rune of more than one byte: how many bytes follow, and the
    range of the first of them. -/
def leadByte (b : UInt8) : Option (ℕ × UInt8 × UInt8) :=
  if 0xC2 ≤ b ∧ b ≤ 0xDF then some (1, 0x80, 0xBF)
  else if b = 0xE0 then some (2, 0xA0, 0xBF)
  else if b = 0xED then some (2, 0x80, 0x9F)
  else if 0xE1 ≤ b ∧ b ≤ 0xEF then some (2, 0x80, 0xBF)
  else if b = 0xF0 then some (3, 0x90, 0xBF)
  else if 0xF1 ≤ b ∧ b ≤ 0xF3 then some (3, 0x80, 0xBF)
  else if b = 0xF4 then some (3, 0x80, 0x8F)
  else none

/-- `DecodeRune`, of a first byte and those after it: how many of them belong to
    its rune, if it is valid. -/
def decodeRune (b : UInt8) (s : Bytes) : Option ℕ :=
  if b < 0x80 then some 0
  else
    match leadByte b, s with
    | some (n, lo, hi), c :: s =>
      if lo ≤ c ∧ c ≤ hi ∧ n ≤ s.length + 1 ∧
          (s.take (n - 1)).all (fun c => 0x80 ≤ c && c ≤ 0xBF) then some n
      else none
    | _, _ => none

/-- The loop of `ValidString`, with `k` more bytes of a valid rune. -/
def validFrom : ℕ → Bytes → Bool
  | _, [] => true
  | k + 1, _ :: s => validFrom k s
  | 0, b :: s =>
    match decodeRune b s with
    | none => false
    | some n => validFrom n s

/-- `ValidString`. -/
def validString (s : Bytes) : Bool := validFrom 0 s

/-- The encoding of U+FFFD. -/
def runeError : Bytes := [0xEF, 0xBF, 0xBD]

/-- The loop of `encoding/json` over a string, with `k` more bytes of a valid rune. -/
def jsonFrom : ℕ → Bytes → Bytes
  | _, [] => []
  | k + 1, b :: s => b :: jsonFrom k s
  | 0, b :: s =>
    match decodeRune b s with
    | none => runeError ++ jsonFrom 0 s
    | some n => b :: jsonFrom n s

/-- A string that was written as JSON and read again. -/
def jsonString (s : Bytes) : Bytes := jsonFrom 0 s

/-- Valid strings are kept, and others get longer. -/
theorem jsonFrom_spec (s : Bytes) (k : ℕ) :
    (validFrom k s = true → jsonFrom k s = s) ∧
      s.length ≤ (jsonFrom k s).length ∧
      (validFrom k s = false → s.length < (jsonFrom k s).length) := by
  induction s generalizing k with
  | nil => cases k <;> exact ⟨fun _ => rfl, le_rfl, fun h => by cases h⟩
  | cons b s ih =>
    cases k with
    | succ k =>
      obtain ⟨hvalid, hle, hlt⟩ := ih k
      exact ⟨fun h => congrArg (b :: ·) (hvalid h), Nat.succ_le_succ hle,
        fun h => Nat.succ_lt_succ (hlt h)⟩
    | zero =>
      rw [validFrom, jsonFrom]
      cases decodeRune b s with
      | none =>
        have hle := (ih 0).2.1
        have hgrown : (b :: s).length < (runeError ++ jsonFrom 0 s).length := by
          rw [List.length_append, List.length_cons, show runeError.length = 3 from rfl]
          omega
        exact ⟨fun h => (by cases h), hgrown.le, fun _ => hgrown⟩
      | some n =>
        obtain ⟨hvalid, hle, hlt⟩ := ih n
        exact ⟨fun h => congrArg (b :: ·) (hvalid h), Nat.succ_le_succ hle,
          fun h => Nat.succ_lt_succ (hlt h)⟩

/-- JSON keeps a string if and only if it is valid UTF-8. -/
theorem jsonString_eq_iff (s : Bytes) : jsonString s = s ↔ validString s = true := by
  obtain ⟨hvalid, -, hlt⟩ := jsonFrom_spec s 0
  refine ⟨fun heq => ?_, hvalid⟩
  by_contra hinvalid
  have hlong := hlt (Bool.eq_false_iff.2 hinvalid)
  rw [show jsonFrom 0 s = s from heq] at hlong
  exact lt_irrefl _ hlong

example : validString (str "Анна € 😀") = true := by decide +kernel

example : jsonString [0x41, 0xC3, 0x28, 0xED, 0xA0, 0x80] =
    [0x41] ++ runeError ++ [0x28] ++ runeError ++ runeError ++ runeError := by decide

end QuicLab.Go
