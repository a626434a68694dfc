import Mathlib.Data.List.Dedup
import Mathlib.Data.List.Forall2
import QuicLab.Go.Netip
import QuicLab.Json

/-!
# Routes

The routes a user types (`VpnRoutes.parse`): IPv4 networks separated by white
space, commas and semicolons.

* `Typed`: the address and the length an entry is typed with. Its numbers are
  those Kotlin reads, which may have a sign, leading zeros, or digits that are not
  ASCII.
* `route_eq_ok_iff`: an entry is accepted when it is typed with an address and a
  length, and it is turned into the text of their network.
* `parse_joined`: the networks accepted, written down and joined by separators,
  are accepted again.
-/

namespace QuicLab.Android

open Go Kotlin

namespace VpnRoutes

/-- One route: its network and its length. -/
def route (P : Platform) (entry : Text) : Except Exception (Text × ℤ) := do
  let parts := entry.splitOn (unit (ascii '/'))
  require (parts.length = 2) (txt "Нужен IPv4 CIDR: " ++ entry)
  match P.toIntOrNull (parts.getD 1 []) with
  | none => .error (.illegalState (txt "Неверная маска: " ++ entry))
  | some bits =>
    require (0 ≤ bits ∧ bits ≤ 32) (txt "Неверная маска: " ++ entry)
    let octets := ((parts.getD 0 []).splitOn (unit (ascii '.'))).map
      fun s => (P.toIntOrNull s).getD (-1)
    require (octets.length = 4 ∧ ∀ v ∈ octets, 0 ≤ v ∧ v ≤ 255) (txt "Неверный IPv4: " ++ entry)
    let ip := octets.foldl (fun n v => (n <<< 8) ||| v.toNat) 0
    let mask := if bits = 0 then 0 else (0xffffffff <<< (32 - bits.toNat)) &&& 0xffffffff
    let network := ip &&& mask
    let texts := [24, 16, 8, 0].map fun k => (decimal ((network >>> k) &&& 255)).map unit
    .ok ([unit (ascii '.')].intercalate texts, bits)

/-- `distinct`: the first occurrence of each element. -/
def distinct {α : Type*} [DecidableEq α] (l : List α) : List α := l.reverse.dedup.reverse

/-- `VpnRoutes.parse`. -/
def parse (P : Platform) (raw : Text) : Except Exception (List (Text × ℤ)) := do
  -- Between the separators of a run there are empty texts, which are blank.
  let entries := (raw.splitOnP fun c =>
    P.isSpace c || c = unit (ascii ',') || c = unit (ascii ';')).filter (!P.isBlank ·)
  let routes ← entries.mapM (route P)
  let result := distinct routes
  require (result ≠ []) (txt "Добавьте хотя бы одну подсеть")
  require (result.length ≤ 128) (txt "Не более 128 маршрутов")
  .ok result

/-! ## Networks -/

section Arithmetic

/-- The shifts of the source put the octets together. -/
theorem foldl_shift (b : Bytes) (n : ℕ) :
    (b.map fun c => (c.toNat : ℤ)).foldl (fun n v => (n <<< 8) ||| v.toNat) n =
      b.foldl (fun n c => n * 256 + c.toNat) n := by
  induction b generalizing n with
  | nil => rfl
  | cons c b ih =>
    rw [List.map_cons, List.foldl_cons, List.foldl_cons, ih, Int.toNat_natCast,
      ← Nat.shiftLeft_add_eq_or_of_lt c.toNat_lt, Nat.shiftLeft_eq]

/-- The mask of the source keeps the first `n` bits. -/
theorem and_mask {ip : ℕ} (hip : ip < 2 ^ 32) (n : ℕ) :
    ip &&& (if (n : ℤ) = 0 then 0 else (0xffffffff <<< (32 - n)) &&& 0xffffffff) =
      ip / 2 ^ (32 - n) * 2 ^ (32 - n) := by
  by_cases h0 : n = 0
  · rw [if_pos (by exact_mod_cast h0), h0, Nat.and_zero, Nat.div_eq_of_lt hip, Nat.zero_mul]
  · rw [if_neg (by exact_mod_cast h0), show 0xffffffff = 2 ^ 32 - 1 from rfl]
    refine Nat.eq_of_testBit_eq fun i => ?_
    have hhigh : 32 ≤ i → ip.testBit i = false := fun hi =>
      Nat.testBit_lt_two_pow (hip.trans_le (Nat.pow_le_pow_right (by decide) hi))
    rw [Nat.testBit_and, Nat.testBit_and, Nat.testBit_shiftLeft, Nat.testBit_two_pow_sub_one,
      Nat.testBit_two_pow_sub_one, Nat.testBit_mul_two_pow, Nat.testBit_div_two_pow]
    by_cases hk : 32 - n ≤ i
    · rw [Nat.sub_add_cancel hk]
      by_cases hi : i < 32
      · have hlt : i - (32 - n) < 32 := by omega
        simp [hk, hi, hlt]
      · rw [hhigh (not_lt.1 hi)]
        simp
    · simp [hk]

/-- The dots of the source stand where those of an address stand. -/
theorem intercalate_octets (n : ℕ) :
    [unit (ascii '.')].intercalate
        ([24, 16, 8, 0].map fun k => (decimal ((n >>> k) &&& 255)).map unit) =
      (Netip.dotted (putUint 4 n)).map unit := by
  have hbyte : ∀ k w, k = 8 * w →
      decimal ((n >>> k) &&& 255) = Netip.octet (UInt8.ofNat (n / 256 ^ w)).toNat := by
    rintro k w rfl
    rw [Nat.shiftRight_eq_div_pow, Nat.pow_mul, show 255 = 2 ^ 8 - 1 from rfl,
      Nat.and_two_pow_sub_one_eq_mod, UInt8.toNat_ofNat', Netip.decimal_octet (by omega)]
  simp only [putUint, Netip.dotted, List.map_cons, List.map_nil, List.intercalate_cons_cons,
    List.map_append]
  rw [hbyte 24 3 rfl, hbyte 16 2 rfl, hbyte 8 1 rfl, hbyte 0 0 rfl]
  simp

end Arithmetic

/-! ## Entries -/

section Entries

variable {P : Platform} {entry : Text} {a : BitVec 32} {n : ℕ}

/-- The entry is typed with the address `a` and the length `n`. -/
def Typed (P : Platform) (entry : Text) (a : BitVec 32) (n : ℕ) : Prop :=
  ∃ address length, entry.splitOn (unit (ascii '/')) = [address, length] ∧
    (address.splitOn (unit (ascii '.'))).map P.toIntOrNull =
      (putUint 4 a.toNat).map (fun b => some (b.toNat : ℤ)) ∧
    P.toIntOrNull length = some (n : ℤ) ∧ n ≤ 32

theorem Typed.le (h : Typed P entry a n) : n ≤ 32 := by
  obtain ⟨_, _, _, _, _, hn⟩ := h
  exact hn

/-- The address with the bits after the first `n` cleared. -/
def network (a : BitVec 32) (n : ℕ) : BitVec 32 := a >>> (32 - n) <<< (32 - n)

/-- The text of an address. -/
def addrText (a : BitVec 32) : Text := (Netip.Addr.v4 a).string.map unit

theorem toNat_network (a : BitVec 32) (n : ℕ) :
    (network a n).toNat = a.toNat / 2 ^ (32 - n) * 2 ^ (32 - n) := by
  have hlt : a.toNat / 2 ^ (32 - n) * 2 ^ (32 - n) < 2 ^ 32 :=
    (Nat.div_mul_le_self _ _).trans_lt a.isLt
  rw [network, BitVec.toNat_shiftLeft, BitVec.toNat_ushiftRight, Nat.shiftRight_eq_div_pow,
    Nat.shiftLeft_eq, Nat.mod_eq_of_lt hlt]

theorem network_network (a : BitVec 32) (n : ℕ) : network (network a n) n = network a n := by
  refine BitVec.toNat_inj.1 ?_
  rw [toNat_network, toNat_network, Nat.mul_div_cancel _ (Nat.two_pow_pos _)]

/-- Numbers in the range of octets are those of bytes. -/
theorem exists_octets {l : List (Option ℤ)}
    (h : ∀ v ∈ l.map (·.getD (-1)), 0 ≤ v ∧ v ≤ 255) :
    ∃ b : Bytes, l = b.map fun c => some (c.toNat : ℤ) := by
  induction l with
  | nil => exact ⟨[], rfl⟩
  | cons o l ih =>
    rw [List.map_cons, List.forall_mem_cons] at h
    obtain ⟨b, rfl⟩ := ih h.2
    cases o with
    | none => exact absurd h.1.1 (by decide)
    | some v =>
      have hv : 0 ≤ v ∧ v ≤ 255 := h.1
      refine ⟨UInt8.ofNat v.toNat :: b, ?_⟩
      have hnat : (UInt8.ofNat v.toNat).toNat = v.toNat := by
        rw [UInt8.toNat_ofNat']
        omega
      rw [List.map_cons, hnat, Int.toNat_of_nonneg hv.1]

theorem route_of_typed (h : Typed P entry a n) :
    route P entry = .ok (addrText (network a n), (n : ℤ)) := by
  obtain ⟨address, length, hparts, hoctets, hbits, hn⟩ := h
  have hvalues : (address.splitOn (unit (ascii '.'))).map (fun s => (P.toIntOrNull s).getD (-1)) =
      (putUint 4 a.toNat).map fun b => (b.toNat : ℤ) := by
    have hmap := congrArg (List.map fun o : Option ℤ => o.getD (-1)) hoctets
    rwa [List.map_map, List.map_map] at hmap
  have hrange : ∀ v ∈ (putUint 4 a.toNat).map fun b => (b.toNat : ℤ), 0 ≤ v ∧ v ≤ 255 := by
    intro v hv
    obtain ⟨b, _, rfl⟩ := List.mem_map.1 hv
    have := b.toNat_lt
    omega
  have hip : ((putUint 4 a.toNat).map fun b => (b.toNat : ℤ)).foldl
      (fun n v => (n <<< 8) ||| v.toNat) 0 = a.toNat :=
    (foldl_shift _ _).trans (uint_putUint_of_lt a.isLt)
  have hlen : ((putUint 4 a.toNat).map fun b => (b.toNat : ℤ)).length = 4 := by
    rw [List.length_map, length_putUint]
  have htwo : [address, length].length = 2 := rfl
  have hbound : (0 : ℤ) ≤ n ∧ (n : ℤ) ≤ 32 := by omega
  simp only [route, hparts, List.getD_cons_succ, List.getD_cons_zero, hbits, hvalues, hip]
  rw [require_of htwo, ok_bind, require_of hbound, ok_bind, require_of ⟨hlen, hrange⟩, ok_bind, Int.toNat_natCast, and_mask a.isLt, intercalate_octets,
    ← toNat_network]
  rfl

/-- An entry is accepted when it is typed with an address and a length, and it is
    turned into the text of their network. -/
theorem route_eq_ok_iff {r : Text × ℤ} : route P entry = .ok r ↔
    ∃ a n, Typed P entry a n ∧ r = (addrText (network a n), (n : ℤ)) := by
  constructor
  · intro h
    suffices htyped : ∃ a n, Typed P entry a n by
      obtain ⟨a, n, htyped⟩ := htyped
      rw [route_of_typed htyped] at h
      exact ⟨a, n, htyped, (Except.ok.inj h).symm⟩
    rw [route] at h
    obtain ⟨hlen, h⟩ := require_bind_eq_ok_iff.1 h
    obtain ⟨address, length, hparts⟩ := List.length_eq_two.1 hlen
    rw [hparts] at h
    cases hbits : P.toIntOrNull length with
    | none =>
      simp only [List.getD_cons_succ, List.getD_cons_zero, hbits] at h
      cases h
    | some bits =>
      simp only [List.getD_cons_succ, List.getD_cons_zero, hbits] at h
      obtain ⟨hrange, h⟩ := require_bind_eq_ok_iff.1 h
      obtain ⟨⟨hfour, hoctets⟩, h⟩ := require_bind_eq_ok_iff.1 h
      obtain ⟨b, hb⟩ := exists_octets (l := (address.splitOn (unit (ascii '.'))).map P.toIntOrNull)
        (by rwa [List.map_map])
      have hb4 : b.length = 4 := by
        rw [List.length_map] at hfour
        rw [← hfour, ← List.length_map (f := P.toIntOrNull), hb, List.length_map]
      refine ⟨BitVec.ofNat 32 (uint b), bits.toNat, address, length, hparts, ?_, ?_, ?_⟩
      · have hlt : uint b < 2 ^ 32 := by
          have hlt := uint_lt b
          rwa [hb4] at hlt
        rw [hb, BitVec.toNat_ofNat, Nat.mod_eq_of_lt hlt, ← hb4, putUint_uint]
      · rw [hbits, Int.toNat_of_nonneg hrange.1]
      · omega
  · rintro ⟨a, n, htyped, rfl⟩
    exact route_of_typed htyped

end Entries

/-! ## Lists of routes -/

section Lists

variable {P : Platform} {raw : Text} {rs : List (Text × ℤ)}

/-- Does the character separate entries? -/
def isSeparator (P : Platform) (c : UInt16) : Bool :=
  P.isSpace c || c = unit (ascii ',') || c = unit (ascii ';')

/-- The entries of a text. -/
def entries (P : Platform) (raw : Text) : List Text :=
  (raw.splitOnP (isSeparator P)).filter (!P.isBlank ·)

/-- A route as it is written down. -/
def render (r : Text × ℤ) : Text := r.1 ++ unit (ascii '/') :: (itoa r.2).map unit

/-- The texts, with separators between them. -/
inductive Joined (P : Platform) : List Text → Text → Prop
  | single (t : Text) : Joined P [t] t
  | cons (t : Text) {sep s : Text} {ts : List Text} (hne : sep ≠ [])
      (hsep : ∀ c ∈ sep, isSeparator P c = true) (h : Joined P ts s) :
      Joined P (t :: ts) (t ++ sep ++ s)

theorem mem_distinct {α : Type*} [DecidableEq α] {l : List α} {x : α} : x ∈ distinct l ↔ x ∈ l := by
  rw [distinct, List.mem_reverse, List.mem_dedup, List.mem_reverse]

theorem nodup_distinct {α : Type*} [DecidableEq α] (l : List α) : (distinct l).Nodup :=
  List.nodup_reverse.2 (List.nodup_dedup _)

theorem distinct_of_nodup {α : Type*} [DecidableEq α] {l : List α} (h : l.Nodup) :
    distinct l = l := by
  rw [distinct, (List.nodup_reverse.2 h).dedup, List.reverse_reverse]

theorem parse_eq_ok_iff : parse P raw = .ok rs ↔ ∃ routes,
    (entries P raw).mapM (route P) = .ok routes ∧ rs = distinct routes ∧ rs ≠ [] ∧
      rs.length ≤ 128 := by
  have hparse : parse P raw = ((entries P raw).mapM (route P) >>= fun routes =>
      require (distinct routes ≠ []) (txt "Добавьте хотя бы одну подсеть") >>= fun _ =>
        require ((distinct routes).length ≤ 128) (txt "Не более 128 маршрутов") >>= fun _ =>
          .ok (distinct routes)) := rfl
  rw [hparse]
  cases hroutes : (entries P raw).mapM (route P) with
  | error e =>
    constructor
    · intro h
      cases h
    · rintro ⟨routes, h, _⟩
      cases h
  | ok routes =>
    rw [ok_bind, require_bind_eq_ok_iff, require_bind_eq_ok_iff]
    constructor
    · rintro ⟨hne, hle, h⟩
      cases h
      exact ⟨routes, rfl, rfl, hne, hle⟩
    · rintro ⟨_, hok, rfl, hne, hle⟩
      cases hok
      exact ⟨hne, hle, rfl⟩

/-- The routes of a text are the networks of what its entries are typed with. -/
theorem mem_parse (h : parse P raw = .ok rs) {r : Text × ℤ} : r ∈ rs ↔
    ∃ entry ∈ entries P raw, ∃ a n, Typed P entry a n ∧ r = (addrText (network a n), (n : ℤ)) := by
  obtain ⟨routes, hroutes, rfl, _, _⟩ := parse_eq_ok_iff.1 h
  rw [mem_distinct, mem_of_mapM hroutes]
  simp only [route_eq_ok_iff]

theorem entries_append_cons (s t : Text) {c : UInt16} (hc : isSeparator P c = true) :
    entries P (s ++ c :: t) = entries P s ++ entries P t := by
  rw [entries, List.splitOnP_append_cons _ _ hc, List.filter_append]
  rfl

/-- Separators before a text add no entry. -/
theorem entries_append {sep : Text} (hsep : ∀ c ∈ sep, isSeparator P c = true) (t : Text) :
    entries P (sep ++ t) = entries P t := by
  induction sep with
  | nil => rfl
  | cons c sep ih =>
    rw [List.forall_mem_cons] at hsep
    rw [List.cons_append, ← List.nil_append (c :: _), entries_append_cons _ _ hsep.1, ih hsep.2]
    simp [entries, Platform.isBlank]

/-- A text without separators, of which some character is no white space, is an
    entry. -/
theorem entries_of_graphic {t : Text} (hsep : ∀ c ∈ t, isSeparator P c = false)
    (hblank : P.isBlank t = false) : entries P t = [t] := by
  rw [entries, List.splitOnP_eq_singleton hsep]
  simp [hblank]

theorem entries_joined {ts : List Text} {s : Text} (h : Joined P ts s)
    (hts : ∀ t ∈ ts, entries P t = [t]) : entries P s = ts := by
  induction h with
  | single t => exact hts t List.mem_cons_self
  | @cons t sep s ts hne hsep _ ih =>
    obtain ⟨c, sep, rfl⟩ := List.exists_cons_of_ne_nil hne
    rw [List.forall_mem_cons] at hsep hts
    rw [List.append_assoc, List.cons_append, entries_append_cons _ _ hsep.1,
      entries_append hsep.2, hts.1, ih hts.2, List.singleton_append]

/-! ### Routes written down -/

theorem toIntOrNull_octet (P : Platform) (b : UInt8) :
    P.toIntOrNull (P.decode (Netip.octet b.toNat)) = some (b.toNat : ℤ) := by
  have hvalue := Netip.foldl_octet (Nat.le_of_lt_succ b.toNat_lt)
  have hlt : b.toNat < 2 ^ 31 := b.toNat_lt.trans (by decide)
  rw [P.toIntOrNull_digits (Netip.octet_ne_nil _) (fun _ => Netip.isDigit_of_mem_octet)
    (by rw [hvalue]; exact hlt), hvalue]

theorem splitOn_dotted {b : UInt8} {l : Bytes} :
    (Netip.dotted (b :: l)).splitOn (ascii '.') = (b :: l).map fun b => Netip.octet b.toNat := by
  have hdot : ∀ b : UInt8, (Netip.octet b.toNat).splitOn (ascii '.') = [Netip.octet b.toNat] := by
    intro b
    refine List.splitOnP_eq_singleton fun c hc => beq_eq_false_iff_ne.2 ?_
    rintro rfl
    exact absurd (Netip.isDigit_of_mem_octet hc) (by decide)
  induction l generalizing b with
  | nil => exact hdot b
  | cons b' l ih =>
    rw [Netip.dotted, splitOn_append_cons, hdot, ih]
    rfl

variable {p : Netip.Prefix} {a : BitVec 32}

/-- The characters of a prefix are graphic, and none of them separates entries. -/
theorem graphic_of_mem_string (hp : p.addr = .v4 a) {c : UInt8} (hc : c ∈ p.string) :
    isAscii c = true ∧ 33 ≤ c.toNat ∧ c.toNat ≤ 126 ∧ c ≠ ascii ',' ∧ c ≠ ascii ';' := by
  rcases Netip.Prefix.mem_string_v4 hp hc with hc | rfl | rfl
  · have hcomma : c ≠ ascii ',' ∧ c ≠ ascii ';' := by
      constructor <;> rintro rfl <;> exact absurd hc (by decide)
    refine ⟨isAscii_of_isDigit hc, ?_⟩
    rw [isDigit_iff] at hc
    exact ⟨by omega, by omega, hcomma⟩
  · decide
  · decide

theorem decode_string (P : Platform) (hp : p.addr = .v4 a) :
    P.decode p.string = p.string.map unit :=
  P.decode_transparent.of_ascii fun _ hc => (graphic_of_mem_string hp hc).1

/-- The text of a prefix is typed with its address and its length. -/
theorem typed_string (P : Platform) (hp : p.addr = .v4 a) :
    Typed P (p.string.map unit) a p.bits := by
  have hbits : p.bits ≤ 32 := by
    have hle := p.bits_le
    rwa [hp] at hle
  have hslash : ascii '/' ∉ (Netip.Addr.v4 a).string := by
    intro hmem
    rcases Netip.Addr.mem_string_v4 hmem with h | h <;> exact absurd h (by decide)
  have hdigits : ascii '/' ∉ decimal p.bits := fun hmem =>
    absurd (isDigit_of_mem_decimal hmem) (by decide)
  refine ⟨P.decode (Netip.Addr.v4 a).string, P.decode (decimal p.bits), ?_, ?_, ?_, hbits⟩
  · rw [← decode_string P hp, P.splitOn_decode (by decide), Netip.Prefix.string, hp,
      splitOn_append_cons, splitOn_of_notMem hslash, splitOn_of_notMem hdigits]
    rfl
  · obtain ⟨b, l, hb⟩ := List.exists_cons_of_length_pos
      (show 0 < (putUint 4 a.toNat).length by rw [length_putUint]; decide)
    rw [P.splitOn_decode (by decide), Netip.Addr.string, hb, splitOn_dotted, List.map_map,
      List.map_map]
    exact List.map_congr_left fun b _ => toIntOrNull_octet P b
  · rw [P.toIntOrNull_digits (decimal_ne_nil _) (fun _ => isDigit_of_mem_decimal)
      (by rw [foldl_decimal]; omega), foldl_decimal]

/-- The text of a prefix is an entry. -/
theorem entries_string (P : Platform) (hp : p.addr = .v4 a) :
    entries P (p.string.map unit) = [p.string.map unit] := by
  have hspace : ∀ u ∈ p.string.map unit, isSeparator P u = false ∧ P.isWhitespace u = false := by
    intro u hu
    obtain ⟨c, hc, rfl⟩ := List.mem_map.1 hu
    obtain ⟨_, hlo, hhi, hcomma, hsemi⟩ := graphic_of_mem_string hp hc
    rw [← toNat_unit c] at hlo hhi
    obtain ⟨hs, hw⟩ := P.space_graphic (unit c) hlo hhi
    simp [isSeparator, hs, hw, unit_injective.eq_iff, hcomma, hsemi]
  refine entries_of_graphic (fun u hu => (hspace u hu).1) ?_
  have hmem : unit (ascii '/') ∈ p.string.map unit :=
    List.mem_map_of_mem (List.mem_append_right _ List.mem_cons_self)
  rw [Platform.isBlank, List.all_eq_false]
  exact ⟨_, hmem, by rw [(hspace _ hmem).2]; decide⟩

/-- A route is written down as its prefix. -/
theorem render_addrText (a : BitVec 32) {n : ℕ} (hn : n ≤ 32) :
    render (addrText a, (n : ℤ)) = (Netip.Prefix.mk (.v4 a) n hn).string.map unit := by
  rw [render, Netip.Prefix.string, List.map_append, List.map_cons]
  rfl

/-- The address agrees with a typed one on the first bits, as many as were typed. -/
def Agrees (P : Platform) (raw : Text) (d : BitVec 32) : Prop :=
  ∃ entry ∈ entries P raw, ∃ a n, Typed P entry a n ∧ a >>> (32 - n) = d >>> (32 - n)

/-- A network contains the addresses that agree with the one it was made from. -/
theorem contains_network {n : ℕ} (hn : n ≤ 32) (a d : BitVec 32) :
    (Netip.Prefix.masked ⟨.v4 (network a n), n, hn⟩).contains (.v4 d) = true ↔
      a >>> (32 - n) = d >>> (32 - n) := by
  have hmasked : (Netip.Prefix.masked ⟨.v4 (network a n), n, hn⟩).addr = .v4 (network a n) :=
    congrArg Netip.Addr.v4 (network_network a n)
  have hdiv : (network a n).toNat / 2 ^ (32 - n) = a.toNat / 2 ^ (32 - n) := by
    rw [toNat_network, Nat.mul_div_cancel _ (Nat.two_pow_pos _)]
  rw [Netip.Prefix.contains_v4 hmasked, ← Netip.Prefix.toNat_div_eq_iff, ← BitVec.toNat_inj,
    BitVec.toNat_ushiftRight, BitVec.toNat_ushiftRight, Nat.shiftRight_eq_div_pow,
    Nat.shiftRight_eq_div_pow, ← hdiv]
  rfl

/-- Routes written down and joined by separators are accepted as the same routes. -/
theorem parse_joined (h : parse P raw = .ok rs) {s : Text} (hs : Joined P (rs.map render) s) :
    parse P s = .ok rs := by
  obtain ⟨routes, _, hrs, hne, hle⟩ := parse_eq_ok_iff.1 h
  refine parse_eq_ok_iff.2 ⟨rs, ?_, ?_, hne, hle⟩
  · have hentries : entries P s = rs.map render := by
      refine entries_joined hs fun t ht => ?_
      obtain ⟨r, hr, rfl⟩ := List.mem_map.1 ht
      obtain ⟨_, _, a, n, htyped, rfl⟩ := (mem_parse h).1 hr
      rw [render_addrText _ htyped.le, entries_string P rfl]
    rw [hentries, mapM_eq_ok_iff, List.forall₂_map_left_iff, List.forall₂_same]
    intro r hr
    obtain ⟨_, _, a, n, htyped, rfl⟩ := (mem_parse h).1 hr
    rw [render_addrText _ htyped.le, route_of_typed (typed_string P rfl), network_network]
  · rw [hrs]
    exact (distinct_of_nodup (nodup_distinct routes)).symm

/-- The route of one address. -/
theorem parse_v4 (P : Platform) (a : BitVec 32) :
    ∃ r, parse P (P.decode ((Netip.Addr.v4 a).string ++ str "/32")) = .ok r := by
  have hbits : str "/32" = ascii '/' :: decimal 32 := by decide
  have hstring : (Netip.Addr.v4 a).string ++ str "/32" = (Netip.Prefix.single a).string :=
    congrArg _ hbits
  refine ⟨[(addrText (network a 32), 32)], parse_eq_ok_iff.2 ⟨[(addrText (network a 32), 32)], ?_,
    ?_, List.cons_ne_nil _ _, ?_⟩⟩
  · rw [hstring, decode_string P (p := .single a) rfl, entries_string P (p := .single a) rfl,
      mapM_eq_ok_iff]
    exact .cons (route_of_typed (typed_string P (p := .single a) rfl)) .nil
  · exact (distinct_of_nodup (List.nodup_singleton _)).symm
  · exact Nat.one_le_iff_ne_zero.2 (by decide)

end Lists

end VpnRoutes

end QuicLab.Android
