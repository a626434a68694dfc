import QuicLab.Go.Strconv
import QuicLab.Go.Utf8

/-!
# JSON texts

How `encoding/json` writes strings, with what it escapes for HTML.
-/

namespace QuicLab.Go

/-- A byte below `0x80` of a string. -/
def jsonEscape (b : UInt8) : Bytes :=
  if b = ascii '"' ∨ b = ascii '\\' then [ascii '\\', b]
  else if b = 8 then str "\\b"
  else if b = 12 then str "\\f"
  else if b = ascii '\n' then str "\\n"
  else if b = ascii '\r' then str "\\r"
  else if b = ascii '\t' then str "\\t"
  else if b < 0x20 ∨ b = ascii '<' ∨ b = ascii '>' ∨ b = ascii '&' then
    str "\\u00" ++ [hexDigit (b.toNat / 16), hexDigit (b.toNat % 16)]
  else [b]

/-- The loop over a string, with `k` more bytes of a valid rune, which are copied, or
    left out if the rune was escaped. -/
def jsonQuoteFrom : Bool → ℕ → Bytes → Bytes
  | _, _, [] => []
  | copy, k + 1, b :: s => (if copy then [b] else []) ++ jsonQuoteFrom copy k s
  | _, 0, b :: s =>
    if b < 0x80 then jsonEscape b ++ jsonQuoteFrom true 0 s
    else
      match decodeRune b s with
      | none => str "\\ufffd" ++ jsonQuoteFrom true 0 s
      | some n =>
        if b :: s.take 2 = [0xE2, 0x80, 0xA8] then str "\\u2028" ++ jsonQuoteFrom false n s
        else if b :: s.take 2 = [0xE2, 0x80, 0xA9] then str "\\u2029" ++ jsonQuoteFrom false n s
        else b :: jsonQuoteFrom true n s

/-- The JSON text of a string. -/
def jsonQuote (s : Bytes) : Bytes := ascii '"' :: jsonQuoteFrom true 0 s ++ [ascii '"']

example : jsonQuote [0x3C, 0x0A, 0xE2, 0x80, 0xA8, 0xFF, 0xD0, 0x90] =
    str "\"\\u003c\\n\\u2028\\ufffd" ++ [0xD0, 0x90] ++ str "\"" := by decide

end QuicLab.Go
