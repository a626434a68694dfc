import QuicLab.Go.Strconv

/-!
# Texts of Kotlin

A Kotlin string is a list of UTF-16 code units. A Go string arrives in an app as
JSON, and goes back from the app to Go code; both ways keep ASCII characters and
turn other bytes into other characters (`Transparent`), whatever they do with
them in detail.

What the standard library says about a character is given by the platform
(`Platform`). Only what it says about ASCII characters is known: which of them
are digits, and that graphic ones are no white space.
-/

namespace QuicLab.Kotlin

open Go

/-- A Kotlin string. -/
abbrev Text := List UInt16

instance : LawfulBEq Text := inferInstanceAs (LawfulBEq (List UInt16))

/-- A literal of the source, of the basic plane. -/
def txt (s : String) : Text := s.toList.map fun c => UInt16.ofNat c.toNat

/-- Is the byte an ASCII character? -/
def isAscii (c : UInt8) : Bool := c.toNat < 128

/-! ## Translations that keep ASCII -/

/-- The translation `f` keeps ASCII characters, by `emb`, and turns the other bytes
    into characters that are `high`. -/
structure Transparent {β : Type*} (emb : UInt8 → β) (high : β → Prop) (f : Bytes → List β) :
    Prop where
  nil : f [] = []
  ascii : ∀ s c t, isAscii c = true → f (s ++ c :: t) = f s ++ emb c :: f t
  high : ∀ s, s ≠ [] → (∀ c ∈ s, isAscii c = false) → f s ≠ [] ∧ ∀ u ∈ f s, high u

namespace Transparent

variable {β : Type*} {emb : UInt8 → β} {high : β → Prop} {f : Bytes → List β}
  (h : Transparent emb high f)

include h

theorem append_of_ascii {a : Bytes} (ha : ∀ c ∈ a, isAscii c = true) (s : Bytes) :
    f (a ++ s) = a.map emb ++ f s := by
  induction a with
  | nil => rfl
  | cons c a ih =>
    have hc := h.ascii [] c (a ++ s) (ha c List.mem_cons_self)
    rw [List.nil_append, h.nil, List.nil_append] at hc
    rw [List.cons_append, hc, ih fun x hx => ha x (List.mem_cons_of_mem _ hx), List.map_cons,
      List.cons_append]

theorem of_ascii {a : Bytes} (ha : ∀ c ∈ a, isAscii c = true) : f a = a.map emb := by
  have happend := h.append_of_ascii ha []
  rwa [List.append_nil, h.nil, List.append_nil] at happend

theorem append_ascii (s : Bytes) {b : Bytes} (hb : ∀ c ∈ b, isAscii c = true) :
    f (s ++ b) = f s ++ b.map emb := by
  cases b with
  | nil => rw [List.append_nil, List.map_nil, List.append_nil]
  | cons c b =>
    rw [h.ascii s c b (hb c List.mem_cons_self), List.map_cons,
      h.of_ascii fun x hx => hb x (List.mem_cons_of_mem _ hx)]

omit h in
/-- A text is not ASCII up to its first ASCII character. -/
theorem first_ascii (s : Bytes) : (∀ c ∈ s, isAscii c = false) ∨
    ∃ r c t, s = r ++ c :: t ∧ (∀ x ∈ r, isAscii x = false) ∧ isAscii c = true := by
  by_cases hs : ∃ c ∈ s, isAscii c = true
  · obtain ⟨c, hc, hascii⟩ := hs
    right
    induction s with
    | nil => cases hc
    | cons x s ih =>
      cases hx : isAscii x with
      | true => exact ⟨[], x, s, rfl, List.forall_mem_nil _, hx⟩
      | false =>
        rcases List.mem_cons.1 hc with rfl | hc
        · rw [hx] at hascii
          cases hascii
        · obtain ⟨r, c', t, rfl, hr, hc'⟩ := ih hc
          exact ⟨x :: r, c', t, rfl, List.forall_mem_cons.2 ⟨hx, hr⟩, hc'⟩
  · exact .inl fun c hc => Bool.eq_false_iff.2 fun hascii => hs ⟨c, hc, hascii⟩

theorem high_of_mem {r : Bytes} (hr : ∀ c ∈ r, isAscii c = false) {u : β} (hu : u ∈ f r) :
    high u := by
  cases r with
  | nil =>
    rw [h.nil] at hu
    cases hu
  | cons c r => exact (h.high (c :: r) (List.cons_ne_nil c r) hr).2 u hu

/-- Where a character of the translation comes from. -/
theorem mem (s : Bytes) {u : β} (hu : u ∈ f s) :
    high u ∨ ∃ c ∈ s, isAscii c = true ∧ u = emb c := by
  induction hn : s.length using Nat.strong_induction_on generalizing s with
  | h n ih =>
    rcases first_ascii s with hs | ⟨r, c, t, rfl, hr, hc⟩
    · exact .inl (h.high_of_mem hs hu)
    · rw [h.ascii r c t hc, List.mem_append, List.mem_cons] at hu
      rcases hu with hu | rfl | hu
      · exact .inl (h.high_of_mem hr hu)
      · exact .inr ⟨c, List.mem_append_right _ List.mem_cons_self, hc, rfl⟩
      · have hlt : t.length < n := by
          rw [← hn, List.length_append, List.length_cons]
          omega
        exact (ih t.length hlt t hu rfl).imp_right fun ⟨x, hx, hx'⟩ =>
          ⟨x, List.mem_append_right _ (List.mem_cons_of_mem _ hx), hx'⟩

/-- A byte that is not ASCII shows. -/
theorem exists_high {s : Bytes} {x : UInt8} (hx : x ∈ s) (hascii : isAscii x = false) :
    ∃ u ∈ f s, high u := by
  induction hn : s.length using Nat.strong_induction_on generalizing s with
  | h n ih =>
    have hhead : ∀ r : Bytes, r ≠ [] → (∀ c ∈ r, isAscii c = false) → ∃ u ∈ f r, high u := by
      intro r hne hr
      obtain ⟨hne', hall⟩ := h.high r hne hr
      exact ⟨_, List.head_mem hne', hall _ (List.head_mem hne')⟩
    rcases first_ascii s with hs | ⟨r, c, t, rfl, hr, hc⟩
    · exact hhead s (List.ne_nil_of_mem hx) hs
    · rw [h.ascii r c t hc]
      rw [List.mem_append, List.mem_cons] at hx
      rcases hx with hx | rfl | hx
      · obtain ⟨u, hu, hhigh⟩ := hhead r (List.ne_nil_of_mem hx) hr
        exact ⟨u, List.mem_append_left _ hu, hhigh⟩
      · rw [hc] at hascii
        cases hascii
      · have hlt : t.length < n := by
          rw [← hn, List.length_append, List.length_cons]
          omega
        obtain ⟨u, hu, hhigh⟩ := ih t.length hlt hx rfl
        exact ⟨u, List.mem_append_right _ (List.mem_cons_of_mem _ hu), hhigh⟩

theorem ne_nil {s : Bytes} (hs : s ≠ []) : f s ≠ [] := by
  obtain ⟨c, s, rfl⟩ := List.exists_cons_of_ne_nil hs
  cases hc : isAscii c with
  | true =>
    have hcons := h.ascii [] c s hc
    rw [List.nil_append, h.nil, List.nil_append] at hcons
    rw [hcons]
    exact List.cons_ne_nil _ _
  | false =>
    obtain ⟨u, hu, _⟩ := h.exists_high List.mem_cons_self hc
    exact List.ne_nil_of_mem hu

theorem emb_mem (hemb : Function.Injective emb) {c : UInt8} (hc : isAscii c = true)
    (hlow : ¬ high (emb c)) {s : Bytes} : emb c ∈ f s ↔ c ∈ s := by
  constructor
  · intro hmem
    rcases h.mem s hmem with hhigh | ⟨d, hd, _, heq⟩
    · exact absurd hhigh hlow
    · rwa [hemb heq]
  · intro hmem
    obtain ⟨a, b, rfl⟩ := List.append_of_mem hmem
    rw [h.ascii a c b hc]
    exact List.mem_append_right _ List.mem_cons_self

end Transparent

/-! ## The platform -/

/-- The code unit of an ASCII character. -/
def unit (c : UInt8) : UInt16 := c.toUInt16

theorem toNat_unit (c : UInt8) : (unit c).toNat = c.toNat := UInt8.toNat_toUInt16 c

theorem unit_injective : Function.Injective unit := by
  intro c d h
  have := congrArg UInt16.toNat h
  rw [toNat_unit, toNat_unit] at this
  exact UInt8.toNat_inj.1 this

theorem isAscii_of_isDigit {c : UInt8} (h : isDigit c = true) : isAscii c = true := by
  rw [isDigit_iff] at h
  exact decide_eq_true (by omega)

/-- What the app's platform does with texts. -/
structure Platform where
  /-- A Go string as the app reads it from JSON. -/
  decode : Bytes → Text
  /-- A string of the app as Go code gets it. -/
  encode : Text → Bytes
  /-- `Character.digit` in base 10. -/
  digit : UInt16 → Option ℕ
  /-- The class `\s` of regular expressions. -/
  isSpace : UInt16 → Bool
  /-- `Char.isWhitespace`. -/
  isWhitespace : UInt16 → Bool
  decode_transparent : Transparent unit (fun u => 128 ≤ u.toNat) decode
  wire_transparent : Transparent id (fun c => isAscii c = false) fun s => encode (decode s)
  digit_ascii : ∀ c, isAscii c = true →
    digit (unit c) = if isDigit c then some (c.toNat - 48) else none
  space_graphic : ∀ u : UInt16, 33 ≤ u.toNat → u.toNat ≤ 126 →
    isSpace u = false ∧ isWhitespace u = false

namespace Platform

variable (P : Platform)

/-- A Go string that the app hands on to Go code. -/
def wire (s : Bytes) : Bytes := P.encode (P.decode s)

/-- `CharSequence.isBlank`. -/
def isBlank (s : Text) : Bool := s.all P.isWhitespace

/-- The value of digits. -/
def number (s : Text) : Option ℕ :=
  s.foldl (fun n c => n.bind fun n => (P.digit c).map (n * 10 + ·)) (some 0)

/-- `String.toIntOrNull`, for an `Int` of 32 bits. -/
def toIntOrNull : Text → Option ℤ
  | [] => none
  | c :: s =>
    if c.toNat < 48 then
      -- A sign, with digits after it.
      if s = [] then none
      else if c = unit (ascii '-') then
        (P.number s).bind fun n => if n ≤ 2 ^ 31 then some (-n) else none
      else if c = unit (ascii '+') then
        (P.number s).bind fun n => if n < 2 ^ 31 then some n else none
      else none
    else (P.number (c :: s)).bind fun n => if n < 2 ^ 31 then some n else none

/-! ### ASCII texts -/

variable {s : Bytes} {c : UInt8}

theorem mem_decode (hc : isAscii c = true) :
    unit c ∈ P.decode s ↔ c ∈ s := by
  refine P.decode_transparent.emb_mem unit_injective hc ?_
  rw [toNat_unit, not_le]
  exact of_decide_eq_true hc

theorem mem_wire (hc : isAscii c = true) : c ∈ P.wire s ↔ c ∈ s :=
  P.wire_transparent.emb_mem Function.injective_id hc fun hhigh => by
    rw [id, hc] at hhigh
    cases hhigh

theorem wire_ascii (h : ∀ c ∈ s, isAscii c = true) : P.wire s = s := by
  have hwire := P.wire_transparent.of_ascii h
  rwa [List.map_id] at hwire

/-- An ASCII text as Go code gets it. -/
theorem encode_ascii (h : ∀ c ∈ s, isAscii c = true) : P.encode (s.map unit) = s := by
  rw [← P.decode_transparent.of_ascii h]
  exact P.wire_ascii h

theorem wire_append_cons (s : Bytes) (hc : isAscii c = true) (t : Bytes) :
    P.wire (s ++ c :: t) = P.wire s ++ c :: P.wire t := P.wire_transparent.ascii s c t hc

theorem wire_ascii_append {a : Bytes} (ha : ∀ c ∈ a, isAscii c = true) (s : Bytes) :
    P.wire (a ++ s) = a ++ P.wire s := by
  have hwire := P.wire_transparent.append_of_ascii ha s
  rwa [List.map_id] at hwire

/-- Splitting at an ASCII character. -/
theorem splitOn_decode (hc : isAscii c = true) (s : Bytes) :
    (P.decode s).splitOn (unit c) = (s.splitOn c).map P.decode := by
  induction hn : s.length using Nat.strong_induction_on generalizing s with
  | h n ih =>
    by_cases hmem : c ∈ s
    · obtain ⟨a, b, rfl⟩ := List.append_of_mem hmem
      rw [List.length_append, List.length_cons] at hn
      have ha := ih a.length (by omega) a rfl
      have hb := ih b.length (by omega) b rfl
      rw [P.decode_transparent.ascii a c b hc, splitOn_append_cons, splitOn_append_cons, ha, hb,
        List.map_append]
    · have hdecode : unit c ∉ P.decode s := fun hu => hmem ((P.mem_decode hc).1 hu)
      rw [splitOn_of_notMem hdecode, splitOn_of_notMem hmem, List.map_singleton]

/-- The value of ASCII digits. -/
theorem number_digits (hall : ∀ c ∈ s, isDigit c = true) :
    P.number (s.map unit) = some (s.foldl (fun n c => n * 10 + (c.toNat - 48)) 0) := by
  have hloop : ∀ n, (s.map unit).foldl (fun n c => n.bind fun n => (P.digit c).map (n * 10 + ·))
      (some n) = some (s.foldl (fun n c => n * 10 + (c.toNat - 48)) n) := by
    induction s with
    | nil => exact fun n => rfl
    | cons c s ih =>
      intro n
      have hc := hall c List.mem_cons_self
      rw [List.map_cons, List.foldl_cons, List.foldl_cons, Option.bind_some,
        P.digit_ascii c (isAscii_of_isDigit hc), if_pos hc, Option.map_some]
      exact ih (fun d hd => hall d (List.mem_cons_of_mem _ hd)) _
  exact hloop 0

theorem decode_digits (hall : ∀ c ∈ s, isDigit c = true) :
    P.decode s = s.map unit :=
  P.decode_transparent.of_ascii fun c hc => isAscii_of_isDigit (hall c hc)

theorem toIntOrNull_digits (hne : s ≠ []) (hall : ∀ c ∈ s, isDigit c = true)
    (hlt : s.foldl (fun n c => n * 10 + (c.toNat - 48)) 0 < 2 ^ 31) :
    P.toIntOrNull (P.decode s) =
      some ((s.foldl (fun n c => n * 10 + (c.toNat - 48)) 0 : ℕ) : ℤ) := by
  have hnumber := P.number_digits hall
  rw [P.decode_digits hall]
  cases s with
  | nil => exact absurd rfl hne
  | cons c s =>
    have hc := hall c List.mem_cons_self
    rw [isDigit, Bool.and_eq_true, decide_eq_true_eq] at hc
    rw [List.map_cons] at hnumber ⊢
    rw [toIntOrNull, if_neg (by rw [toNat_unit]; omega), hnumber, Option.bind_some, if_pos hlt]

/-- Kotlin reads the positive numbers that Go reads. -/
theorem toIntOrNull_of_atoi {n : ℤ} (h : atoi s = some n) (hn : 0 < n) (hlt : n < 2 ^ 31) :
    P.toIntOrNull (P.decode s) = some n := by
  obtain ⟨digits, hs, hne, hall, rfl⟩ := atoi_pos h hn
  have hlt' : digits.foldl (fun n c => n * 10 + (c.toNat - 48)) 0 < 2 ^ 31 := by omega
  rcases hs with rfl | rfl
  · exact P.toIntOrNull_digits hne hall hlt'
  · have hplus : P.decode (ascii '+' :: digits) = unit (ascii '+') :: digits.map unit := by
      rw [P.decode_transparent.of_ascii (List.forall_mem_cons.2
        ⟨by decide, fun c hc => isAscii_of_isDigit (hall c hc)⟩), List.map_cons]
    rw [hplus, toIntOrNull, if_pos (by decide), if_neg (by simpa using hne), if_neg (by decide),
      if_pos rfl, P.number_digits hall, Option.bind_some, if_pos hlt']

/-- Every byte read as a character. -/
theorem transparent_unit : Transparent unit (fun u => 128 ≤ u.toNat) (List.map unit) := by
  refine ⟨rfl, fun s c t _ => List.map_append, fun s hs h => ⟨?_, fun u hu => ?_⟩⟩
  · exact fun hmap => hs (List.map_eq_nil_iff.1 hmap)
  · obtain ⟨c, hc, rfl⟩ := List.mem_map.1 hu
    rw [toNat_unit]
    exact not_lt.1 (of_decide_eq_false (h c hc))

/-- Every byte read as a character, and sent back. -/
theorem transparent_wire_unit : Transparent id (fun c => isAscii c = false)
    fun s => (s.map unit).map UInt16.toUInt8 := by
  have hwire : ∀ s : Bytes, (s.map unit).map UInt16.toUInt8 = s := by
    intro s
    rw [List.map_map]
    refine (List.map_congr_left fun c _ => ?_).trans (List.map_id s)
    exact UInt8.toUInt8_toUInt16 c
  refine ⟨rfl, fun s c t _ => ?_, fun s hs h => ?_⟩
  · rw [hwire, hwire, hwire, id]
  · rw [hwire]
    exact ⟨hs, h⟩

theorem digit_unit (c : UInt8) : (if 48 ≤ (unit c).toNat ∧ (unit c).toNat ≤ 57 then
    some ((unit c).toNat - 48) else none) = if isDigit c then some (c.toNat - 48) else none := by
  rw [toNat_unit, isDigit]
  simp only [Bool.and_eq_true, decide_eq_true_eq]

theorem not_space {n : ℕ} (h : 33 ≤ n) : decide ((9 ≤ n ∧ n ≤ 13) ∨ n = 32) = false :=
  decide_eq_false (by omega)

/-- A platform on which every byte is a character. -/
def latin : Platform where
  decode s := s.map unit
  encode s := s.map UInt16.toUInt8
  digit u := if 48 ≤ u.toNat ∧ u.toNat ≤ 57 then some (u.toNat - 48) else none
  isSpace u := (9 ≤ u.toNat ∧ u.toNat ≤ 13) ∨ u.toNat = 32
  isWhitespace u := (9 ≤ u.toNat ∧ u.toNat ≤ 13) ∨ u.toNat = 32
  decode_transparent := transparent_unit
  wire_transparent := transparent_wire_unit
  digit_ascii c _ := digit_unit c
  space_graphic _ h _ := ⟨not_space h, not_space h⟩

end Platform

end QuicLab.Kotlin
