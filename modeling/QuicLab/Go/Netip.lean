import QuicLab.Go.Strconv

/-!
# IP addresses and prefixes

Go's `net/netip`: addresses, their texts, and prefixes.

The text of an IPv4 address is unique: `parseAddr_eq_v4_iff` says that the one
text that parses as the address is the one `string` writes. Programs that
compare the texts of addresses thus compare addresses.
-/

namespace QuicLab.Go.Netip

/-- A valid `netip.Addr`: an IPv4 address, or an IPv6 address with its zone. -/
inductive Addr
  | v4 (a : BitVec 32)
  | v6 (a : BitVec 128) (zone : Bytes)
  deriving DecidableEq

namespace Addr

/-- `Addr.Is4`. -/
def is4 : Addr → Bool
  | v4 _ => true
  | v6 _ _ => false

theorem exists_v4 {ip : Addr} (h : ip.is4 = true) : ∃ a, ip = v4 a := by
  cases ip with
  | v4 a => exact ⟨a, rfl⟩
  | v6 a z => cases h

/-- `Addr.BitLen`. -/
def bitLen : Addr → ℕ
  | v4 _ => 32
  | v6 _ _ => 128

/-- `Addr.Next`; `none` is the invalid address after the last one. -/
def next : Addr → Option Addr
  | v4 a => if a = BitVec.allOnes 32 then none else some (v4 (a + 1))
  | v6 a z => if a = BitVec.allOnes 128 then none else some (v6 (a + 1) z)

/-- `Addr.IsUnspecified`. -/
def isUnspecified (ip : Addr) : Bool := ip = v4 0 || ip = v6 0 []

/-- `Addr.IsMulticast`: 224.0.0.0/4 or ff00::/8. -/
def isMulticast : Addr → Bool
  | v4 a => a.toNat / 2 ^ 28 = 14
  | v6 a _ => a.toNat / 2 ^ 120 = 255

end Addr

/-! ## Parsing -/

/-- The loop of `parseIPv4Fields`: the value of the octet being read and how
    many digits it has so far, and the octets before it. -/
def parseIPv4Fields : Bytes → (val digLen : ℕ) → (fields : Bytes) → Option Bytes
  | [], val, _, fields => if fields.length < 3 then none else some (fields ++ [UInt8.ofNat val])
  | c :: s, val, digLen, fields =>
    if isDigit c then
      -- No leading zero, and at most 255.
      if digLen = 1 ∧ val = 0 then none
      else if 255 < val * 10 + (c.toNat - 48) then none
      else parseIPv4Fields s (val * 10 + (c.toNat - 48)) (digLen + 1) fields
    else if c = ascii '.' then
      -- An octet has a digit at least, also the one after the dot.
      if digLen = 0 ∨ s = [] then none
      else if fields.length = 3 then none
      else parseIPv4Fields s 0 0 (fields ++ [UInt8.ofNat val])
    else none

/-- `parseIPv4`. -/
def parseIPv4 (s : Bytes) : Option Addr :=
  (parseIPv4Fields s 0 0 []).map fun b => .v4 (BitVec.ofNat 32 (uint b))

/-- The loop of `parseIPv6`, at most `k` more groups: the bytes read so far and
    where the ellipsis was among them. -/
def parseIPv6Loop : ℕ → Bytes → Bytes → Option ℕ → Option (Bytes × Bytes × Option ℕ)
  | 0, s, ip, ellipsis => some (s, ip, ellipsis)
  | k + 1, s, ip, ellipsis =>
    let group := s.takeWhile isHexDigit
    if group = [] ∨ 4 < group.length then none
    else
      match s.drop group.length with
      | [] => some ([], ip ++ putUint 2 (group.foldl (fun n c => n * 16 + hexValue c) 0), ellipsis)
      | c :: rest =>
        if c = ascii '.' then
          -- An IPv4 address in place of the last two groups.
          if (ellipsis = none ∧ ip.length ≠ 12) ∨ 16 < ip.length + 4 then none
          else (parseIPv4Fields s 0 0 []).map fun b => ([], ip ++ b, ellipsis)
        else if c = ascii ':' then
          let ip := ip ++ putUint 2 (group.foldl (fun n c => n * 16 + hexValue c) 0)
          match rest with
          | [] => none
          | c :: rest' =>
            if c = ascii ':' then
              if ellipsis.isSome then none
              else if rest' = [] then some ([], ip, some ip.length)
              else parseIPv6Loop k rest' ip (some ip.length)
            else parseIPv6Loop k rest ip ellipsis
        else none

/-- `parseIPv6`. -/
def parseIPv6 (s : Bytes) : Option Addr :=
  let zone := (s.dropWhile (· ≠ ascii '%')).tail
  let body := s.takeWhile (· ≠ ascii '%')
  if ascii '%' ∈ s ∧ zone = [] then none
  else
    let leading := body.take 2 = str "::"
    if leading ∧ body.length = 2 then some (.v6 0 zone)
    else
      match parseIPv6Loop 8 (if leading then body.drop 2 else body) []
          (if leading then some 0 else none) with
      | some ([], ip, none) => if ip.length = 16 then some (.v6 (BitVec.ofNat 128 (uint ip)) zone)
        else none
      | some ([], ip, some p) =>
        -- The ellipsis stands for at least one group of zeros.
        if ip.length < 16 then
          some (.v6 (BitVec.ofNat 128
            (uint (ip.take p ++ List.replicate (16 - ip.length) 0 ++ ip.drop p))) zone)
        else none
      | _ => none

/-- `netip.ParseAddr`: the first `.`, `:` or `%` says which kind of text it is. -/
def parseAddr (s : Bytes) : Option Addr :=
  match s.find? fun c => c = ascii '.' || c = ascii ':' || c = ascii '%' with
  | none => none
  | some c => if c = ascii '.' then parseIPv4 s else if c = ascii ':' then parseIPv6 s else none

/-! ## Texts -/

/-- `appendDecimal`: an octet, without leading zeros. -/
def octet (n : ℕ) : Bytes :=
  (if 100 ≤ n then [digit (n / 100)] else []) ++ (if 10 ≤ n then [digit (n / 10)] else []) ++
    [digit n]

/-- Octets separated by dots. -/
def dotted : Bytes → Bytes
  | [] => []
  | [b] => octet b.toNat
  | b :: b' :: l => octet b.toNat ++ ascii '.' :: dotted (b' :: l)

/-- The longest run of two or more zero groups, the first of them: its start
    and end. -/
def zeroRun (groups : List ℕ) : ℕ × ℕ :=
  (List.range groups.length).foldl (fun best i =>
    let j := i + ((groups.drop i).takeWhile (· = 0)).length
    if 2 ≤ j - i ∧ best.2 - best.1 < j - i then (i, j) else best) (255, 255)

/-- Groups in hexadecimal separated by colons. -/
def colons : List ℕ → Bytes
  | [] => []
  | [n] => hexadecimal n
  | n :: n' :: l => hexadecimal n ++ ascii ':' :: colons (n' :: l)

/-- `Addr.String`. -/
def Addr.string : Addr → Bytes
  | v4 a => dotted (putUint 4 a.toNat)
  | v6 a zone =>
    let groups := (List.range 8).map fun i => a.toNat / 2 ^ (112 - 16 * i) % 2 ^ 16
    let run := zeroRun groups
    let body :=
      if a.toNat / 2 ^ 32 = 0xffff then str "::ffff:" ++ dotted (putUint 4 (a.toNat % 2 ^ 32))
      else if run.1 = 255 then colons groups
      else colons (groups.take run.1) ++ str "::" ++ colons (groups.drop run.2)
    if zone = [] then body else body ++ ascii '%' :: zone

/-! ## IPv4 texts are unique -/

theorem isDigit_digit (n : ℕ) : isDigit (digit n) = true ∧ (digit n).toNat - 48 = n % 10 := by
  have hn : (digit n).toNat = 48 + n % 10 := by
    rw [digit, UInt8.toNat_ofNat']
    omega
  rw [isDigit, hn]
  simp only [Bool.and_eq_true, decide_eq_true_eq]
  omega

/-- A digit read as the next one of an octet. -/
theorem parseIPv4Fields_digit (n : ℕ) {s fields : Bytes} {val digLen : ℕ}
    (hzero : digLen = 1 → val ≠ 0) (hval : val * 10 + n % 10 ≤ 255) :
    parseIPv4Fields (digit n :: s) val digLen fields =
      parseIPv4Fields s (val * 10 + n % 10) (digLen + 1) fields := by
  obtain ⟨hd, hv⟩ := isDigit_digit n
  rw [parseIPv4Fields, if_pos hd, hv, if_neg fun h => hzero h.1 h.2, if_neg (not_lt.2 hval)]

variable {n : ℕ}

/-- An octet is read as it was written. -/
theorem parseIPv4Fields_octet (hn : n ≤ 255) (s fields : Bytes) :
    parseIPv4Fields (octet n ++ s) 0 0 fields =
      parseIPv4Fields s n (octet n).length fields := by
  by_cases h100 : 100 ≤ n
  · have h10 : 10 ≤ n := by omega
    simp only [octet, if_pos h100, if_pos h10, List.cons_append, List.nil_append,
      List.length_cons, List.length_nil]
    rw [parseIPv4Fields_digit _ (by omega) (by omega),
      parseIPv4Fields_digit _ (by omega) (by omega), parseIPv4Fields_digit _ (by omega) (by omega)]
    congr 1
    omega
  · by_cases h10 : 10 ≤ n
    · simp only [octet, if_neg h100, if_pos h10, List.cons_append,
        List.nil_append, List.length_cons, List.length_nil]
      rw [parseIPv4Fields_digit _ (by omega) (by omega),
        parseIPv4Fields_digit _ (by omega) (by omega)]
      congr 1
      omega
    · simp only [octet, if_neg h100, if_neg h10, List.cons_append,
        List.nil_append, List.length_cons, List.length_nil]
      rw [parseIPv4Fields_digit _ (by omega) (by omega)]
      congr 1
      omega

/-- The value of the digits of an octet. -/
theorem foldl_octet (hn : n ≤ 255) :
    (octet n).foldl (fun n c => n * 10 + (c.toNat - 48)) 0 = n := by
  have hdigit : ∀ m, (digit m).toNat - 48 = m % 10 := fun m => (isDigit_digit m).2
  rw [octet, List.foldl_append, List.foldl_append]
  split_ifs <;>
    simp only [List.foldl_cons, List.foldl_nil, hdigit] <;> omega

theorem octet_ne_nil (n : ℕ) : octet n ≠ [] := by simp [octet]

theorem dotted_ne_nil {b : UInt8} {l : Bytes} : dotted (b :: l) ≠ [] := by
  cases l <;> simp [dotted, octet_ne_nil]

/-- Four octets are read as they were written. -/
theorem parseIPv4Fields_dotted {l fields : Bytes} (hl : l ≠ [])
    (hlen : fields.length + l.length = 4) :
    parseIPv4Fields (dotted l) 0 0 fields = some (fields ++ l) := by
  induction l generalizing fields with
  | nil => exact absurd rfl hl
  | cons b l ih =>
    have hb : b.toNat ≤ 255 := Nat.le_of_lt_succ b.toNat_lt
    rw [List.length_cons] at hlen
    cases l with
    | nil =>
      rw [dotted, ← List.append_nil (octet _), parseIPv4Fields_octet hb, parseIPv4Fields,
        if_neg (by simp only [List.length_nil] at hlen; omega), UInt8.ofNat_toNat]
    | cons b' l =>
      rw [List.length_cons] at hlen
      rw [dotted, parseIPv4Fields_octet hb, parseIPv4Fields, if_neg (by decide), if_pos rfl,
        if_neg (by simp [octet_ne_nil, dotted_ne_nil]), if_neg (by omega), UInt8.ofNat_toNat,
        ih (List.cons_ne_nil _ _)
          (by rw [List.length_append, List.length_singleton, List.length_cons]; omega),
        List.append_assoc, List.singleton_append]

/-- The text of an octet followed by one more digit. -/
theorem octet_snoc {n d : ℕ} (hn : n ≠ 0) (hd : d < 10) (hv : n * 10 + d ≤ 255) :
    octet (n * 10 + d) = octet n ++ [digit d] := by
  have hdig : ∀ m m', m % 10 = m' % 10 → digit m = digit m' := fun m m' h => by
    rw [digit, digit, h]
  have h10 : 10 ≤ n * 10 + d := by omega
  by_cases h : 10 ≤ n
  · have h100 : 100 ≤ n * 10 + d := by omega
    simp only [octet, if_pos h100, if_pos h10, if_neg (show ¬ 100 ≤ n by omega), if_pos h,
      List.cons_append, List.nil_append]
    rw [show (n * 10 + d) / 100 = n / 10 by omega, show (n * 10 + d) / 10 = n by omega,
      hdig (n * 10 + d) d (by omega)]
  · simp only [octet, if_neg (show ¬ 100 ≤ n * 10 + d by omega), if_pos h10,
      if_neg (show ¬ 100 ≤ n by omega), if_neg h, List.cons_append, List.nil_append]
    rw [show (n * 10 + d) / 10 = n by omega, hdig (n * 10 + d) d (by omega)]

theorem octet_of_lt {d : ℕ} (hd : d < 10) : octet d = [digit d] := by
  simp only [octet, if_neg (show ¬ 100 ≤ d by omega), if_neg (show ¬ 10 ≤ d by omega),
    List.nil_append]

/-- An octet in decimal. -/
theorem decimal_octet (hn : n ≤ 255) : decimal n = octet n := by
  have hdigit : ∀ d, d < 10 → ascii d.digitChar = digit d := by decide
  induction n using Nat.strong_induction_on with
  | h n ih =>
    by_cases h10 : n < 10
    · rw [decimal_of_lt h10, octet_of_lt h10, hdigit n h10]
    · have hsnoc := octet_snoc (n := n / 10) (d := n % 10) (by omega) (by omega) (by omega)
      rw [show n / 10 * 10 + n % 10 = n by omega] at hsnoc
      rw [decimal_of_le (by omega), hsnoc, ih (n / 10) (by omega) (by omega),
        hdigit _ (Nat.mod_lt n (by decide))]

theorem dotted_cons {b : UInt8} {l : Bytes} (hl : l ≠ []) :
    dotted (b :: l) = octet b.toNat ++ ascii '.' :: dotted l := by
  obtain ⟨b', l', rfl⟩ := List.exists_cons_of_ne_nil hl
  rfl

/-- What the loop accepts is what is written for the octets it returns. The text
    `t` of the octet being read is that of its value, or nothing yet. -/
theorem eq_dotted_of_parseIPv4Fields {s t fields r : Bytes} {val : ℕ}
    (h : parseIPv4Fields s val t.length fields = some r) (hval : val ≤ 255)
    (hf : fields.length ≤ 3) (ht : t = octet val ∨ (t = [] ∧ val = 0 ∧ (s = [] → fields = []))) :
    ∃ l, l ≠ [] ∧ r = fields ++ l ∧ r.length = 4 ∧ t ++ s = dotted l := by
  have hofNat : (UInt8.ofNat val).toNat = val := by
    rw [UInt8.toNat_ofNat']
    omega
  induction s generalizing t fields val with
  | nil =>
    rw [parseIPv4Fields] at h
    split_ifs at h with h3
    cases h
    obtain rfl | ⟨_, _, hnil⟩ := ht
    · refine ⟨[UInt8.ofNat val], List.cons_ne_nil _ _, rfl, ?_, ?_⟩
      · rw [List.length_append, List.length_singleton]
        omega
      · rw [dotted, hofNat, List.append_nil]
    · rw [hnil rfl] at h3
      exact absurd (by decide) h3
  | cons c s ih =>
    rw [parseIPv4Fields] at h
    split_ifs at h with hd h0 hbig hdot hempty h3
    · -- One more digit of the octet.
      rw [isDigit_iff] at hd
      have hc : c = digit (c.toNat - 48) := by
        rw [digit, ← UInt8.toNat_inj, UInt8.toNat_ofNat']
        omega
      have hlt : c.toNat - 48 < 10 := by omega
      have ht' : t ++ [c] = octet (val * 10 + (c.toNat - 48)) := by
        obtain rfl | ⟨rfl, rfl, _⟩ := ht
        · have hne : val ≠ 0 := fun hz => h0 ⟨by rw [hz]; rfl, hz⟩
          rw [octet_snoc hne hlt (not_lt.1 hbig), ← hc]
        · rw [Nat.zero_mul, Nat.zero_add, octet_of_lt hlt, ← hc, List.nil_append]
      obtain ⟨l, hl, hr, hlen, hs⟩ := ih (t := t ++ [c])
        (by rwa [List.length_append, List.length_singleton]) (not_lt.1 hbig) hf (.inl ht')
        (by rw [UInt8.toNat_ofNat']; omega)
      exact ⟨l, hl, hr, hlen, by rw [← hs, List.append_assoc, List.singleton_append]⟩
    · -- A dot: the octet is complete.
      rw [not_or] at hempty
      obtain ⟨l, hl, hr, hlen, hs⟩ := ih (t := []) h (Nat.zero_le _)
        (by rw [List.length_append, List.length_singleton]; omega)
        (.inr ⟨rfl, rfl, fun hs => absurd hs hempty.2⟩) rfl
      have htoct : t = octet val :=
        ht.resolve_right fun h => hempty.1 (List.length_eq_zero_iff.2 h.1)
      refine ⟨UInt8.ofNat val :: l, List.cons_ne_nil _ _, ?_, hlen, ?_⟩
      · rw [hr, List.append_assoc, List.singleton_append]
      · rw [dotted_cons hl, hofNat, ← htoct, hdot, ← hs, List.nil_append]

variable {a : BitVec 32}

/-- The one text that parses as an IPv4 address is the one written for it. -/
theorem parseIPv4_eq_v4_iff {s : Bytes} :
    parseIPv4 s = some (.v4 a) ↔ s = (Addr.v4 a).string := by
  rw [parseIPv4, Option.map_eq_some_iff, Addr.string]
  refine ⟨fun ⟨r, hr, ha⟩ => ?_, fun h => ⟨putUint 4 a.toNat, ?_, ?_⟩⟩
  · cases ha
    by_cases hs : s = []
    · rw [hs] at hr
      cases hr
    · obtain ⟨l, _, rfl, hlen, hl⟩ := eq_dotted_of_parseIPv4Fields (t := []) hr (Nat.zero_le _)
        (Nat.zero_le _) (.inr ⟨rfl, rfl, fun h => absurd h hs⟩)
      have hlt : uint r < 2 ^ 32 := by
        have h := uint_lt r
        rwa [hlen] at h
      rw [BitVec.toNat_ofNat, Nat.mod_eq_of_lt hlt, ← hlen, putUint_uint]
      exact hl
  · have hne : putUint 4 a.toNat ≠ [] := List.cons_ne_nil _ _
    rw [h, parseIPv4Fields_dotted hne (by rw [length_putUint]; rfl), List.nil_append]
  · rw [uint_putUint_of_lt a.isLt, BitVec.ofNat_toNat, BitVec.setWidth_eq]

/-- Every octet is made of digits. -/
theorem isDigit_of_mem_octet {c : UInt8} (h : c ∈ octet n) : isDigit c = true := by
  have hd : ∀ m, c = digit m → isDigit c = true := fun m hm => hm ▸ (isDigit_digit m).1
  rw [octet, List.mem_append, List.mem_append] at h
  obtain (h | h) | h := h
  · split_ifs at h
    · exact hd _ (List.mem_singleton.1 h)
    · exact absurd h List.not_mem_nil
  · split_ifs at h
    · exact hd _ (List.mem_singleton.1 h)
    · exact absurd h List.not_mem_nil
  · exact hd _ (List.mem_singleton.1 h)

theorem mem_dotted {l : Bytes} {c : UInt8} (h : c ∈ dotted l) :
    isDigit c = true ∨ c = ascii '.' := by
  fun_induction dotted l with
  | case1 => cases h
  | case2 b => exact .inl (isDigit_of_mem_octet h)
  | case3 b b' l ih =>
    rw [List.mem_append, List.mem_cons] at h
    rcases h with h | h | h
    · exact .inl (isDigit_of_mem_octet h)
    · exact .inr h
    · exact ih h

/-- The characters of an IPv4 address. -/
theorem Addr.mem_string_v4 {c : UInt8} (h : c ∈ (Addr.v4 a).string) :
    isDigit c = true ∨ c = ascii '.' :=
  mem_dotted h

theorem length_octet_le (n : ℕ) : (octet n).length ≤ 3 := by
  rw [octet]
  split_ifs <;> simp

theorem length_dotted_le (b : UInt8) (l : Bytes) : (dotted (b :: l)).length ≤ 4 * l.length + 3 := by
  induction l generalizing b with
  | nil => exact length_octet_le b.toNat
  | cons b' l ih =>
    have hoctet := length_octet_le b.toNat
    have hrest := ih b'
    rw [dotted, List.length_append, List.length_cons, List.length_cons]
    omega

theorem Addr.length_string_v4_le (a : BitVec 32) : (Addr.v4 a).string.length ≤ 15 :=
  length_dotted_le _ _

theorem Addr.string_v4_ne_nil (a : BitVec 32) : (Addr.v4 a).string ≠ [] := dotted_ne_nil

theorem parseIPv4_ne_v6 (s : Bytes) (a : BitVec 128) (z : Bytes) : parseIPv4 s ≠ some (.v6 a z) := by
  rw [parseIPv4]
  cases parseIPv4Fields s 0 0 [] with
  | none => exact fun h => by cases h
  | some r => exact fun h => by cases h

/-- An IPv6 address has a colon. -/
theorem is4_of_parseAddr {s : Bytes} {a : Addr} (h : parseAddr s = some a) (hs : ascii ':' ∉ s) :
    a.is4 = true := by
  rw [parseAddr] at h
  split at h
  · cases h
  · rename_i c hfind
    split_ifs at h with hdot hcolon
    · cases a with
      | v4 a => rfl
      | v6 a z => exact absurd h (parseIPv4_ne_v6 s a z)
    · exact absurd (hcolon ▸ List.mem_of_find?_eq_some hfind) hs

theorem parseIPv6_ne_v4 (s : Bytes) (a : BitVec 32) : parseIPv6 s ≠ some (.v4 a) := by
  simp only [parseIPv6]
  split_ifs
  · exact fun h => by cases h
  · exact fun h => by cases h
  all_goals
    split
    · split_ifs <;> exact fun h => by cases h
    · split_ifs <;> exact fun h => by cases h
    · exact fun h => by cases h

/-- The one text that parses as an IPv4 address is the one written for it. -/
theorem parseAddr_eq_v4_iff {s : Bytes} :
    parseAddr s = some (.v4 a) ↔ s = (Addr.v4 a).string := by
  refine ⟨fun h => ?_, fun h => ?_⟩
  · rw [parseAddr] at h
    split at h
    · cases h
    · split_ifs at h
      · exact parseIPv4_eq_v4_iff.1 h
      · exact absurd h (parseIPv6_ne_v4 s a)
  · -- The first octet has digits only, and a dot follows it.
    have hfind : s.find? (fun c => c = ascii '.' || c = ascii ':' || c = ascii '%') =
        some (ascii '.') := by
      rw [h, Addr.string, putUint, putUint, dotted, List.find?_append, List.find?_eq_none.2]
      · rfl
      · intro c hc hsep
        have hd := isDigit_of_mem_octet hc
        simp only [Bool.or_eq_true, decide_eq_true_eq] at hsep
        obtain (rfl | rfl) | rfl := hsep <;> exact absurd hd (by decide)
    rw [parseAddr, hfind]
    exact parseIPv4_eq_v4_iff.2 h

/-- Addresses with the same text are the same. -/
theorem string_v4_inj {a b : BitVec 32} (h : (Addr.v4 a).string = (Addr.v4 b).string) : a = b :=
  Addr.v4.inj (Option.some.inj
    ((parseAddr_eq_v4_iff.2 rfl).symm.trans (parseAddr_eq_v4_iff.2 h)))

/-! ## Prefixes -/

/-- A valid `netip.Prefix`. -/
structure Prefix where
  /-- `Prefix.Addr`. -/
  addr : Addr
  /-- `Prefix.Bits`. -/
  bits : ℕ
  bits_le : bits ≤ addr.bitLen
  deriving DecidableEq

/-- The network of one address. -/
def Prefix.single (ip : BitVec 32) : Prefix := ⟨.v4 ip, 32, le_refl _⟩

theorem Prefix.single_injective : Function.Injective Prefix.single := fun _ _ h =>
  Addr.v4.inj (congrArg Prefix.addr h)

/-- `netip.ParsePrefix`. -/
def parsePrefix (s : Bytes) : Option Prefix :=
  -- The last slash.
  let bitsStr := (s.reverse.takeWhile (· ≠ ascii '/')).reverse
  if ascii '/' ∉ s then none
  else
    match parseAddr (s.take (s.length - (bitsStr.length + 1))) with
    | none => none
    | some (.v6 _ (_ :: _)) => none
    | some ip =>
      -- `Atoi` would take a sign or leading zeros.
      if 1 < bitsStr.length ∧ ¬ bitsStr.head?.any (fun c => 49 ≤ c.toNat && c.toNat ≤ 57) then none
      else
        match atoi bitsStr with
        | none => none
        | some bits =>
          if h : 0 ≤ bits ∧ bits ≤ ip.bitLen then some ⟨ip, bits.toNat, by omega⟩ else none

namespace Prefix

/-- The address with only its first `bits` bits kept. -/
def network (bits : ℕ) : Addr → Addr
  | .v4 a => .v4 (a >>> (32 - bits) <<< (32 - bits))
  | .v6 a _ => .v6 (a >>> (128 - bits) <<< (128 - bits)) []

/-- `Prefix.Masked`. -/
def masked (p : Prefix) : Prefix where
  addr := network p.bits p.addr
  bits := p.bits
  bits_le := by
    have h := p.bits_le
    cases hp : p.addr <;> rw [hp] at h <;> exact h

/-- `Prefix.Contains`. -/
def contains (p : Prefix) (ip : Addr) : Bool :=
  match p.addr, ip with
  | .v4 a, .v4 b => (a ^^^ b) >>> (32 - p.bits) = 0
  | .v6 a _, .v6 b zone => zone = [] && (a ^^^ b) >>> (128 - p.bits) = 0
  | _, _ => false

/-- `Prefix.String`. -/
def string (p : Prefix) : Bytes := p.addr.string ++ ascii '/' :: decimal p.bits

/-! ### IPv4 texts are unique -/

/-- The text after the last slash. -/
theorem bitsStr_append {t ds : Bytes} (hds : ascii '/' ∉ ds) :
    ((t ++ ascii '/' :: ds).reverse.takeWhile (· ≠ ascii '/')).reverse = ds := by
  have hall : ∀ c ∈ ds.reverse, decide (c ≠ ascii '/') = true := fun c hc =>
    decide_eq_true fun h => hds (h ▸ List.mem_reverse.1 hc)
  rw [List.reverse_append, List.reverse_cons, List.append_assoc, List.takeWhile_append_of_pos hall,
    List.singleton_append, List.takeWhile_cons_of_neg (by simp), List.append_nil,
    List.reverse_reverse]

/-- The digits of a length are those written for it: no sign, no leading zero. -/
theorem bitsStr_eq_decimal {ds : Bytes} {n : ℤ} (hn : atoi ds = some n) (h0 : 0 ≤ n)
    (hlead : ¬ (1 < ds.length ∧
      ¬ ds.head?.any (fun c => 49 ≤ c.toNat && c.toNat ≤ 57) = true)) :
    ds = decimal n.toNat := by
  obtain ⟨sign, digits, rfl, hsign, hne, hall⟩ := atoi_some hn
  have hpos := List.length_pos_iff.2 hne
  -- With a sign there would be two characters at least, the first one not a digit.
  obtain rfl : sign = [] := by
    rcases hsign with rfl | rfl | rfl
    · rfl
    · exact absurd ⟨by simpa using hpos, by simp [ascii]⟩ hlead
    · exact absurd ⟨by simpa using hpos, by simp [ascii]⟩ hlead
  rw [List.nil_append] at hn hlead ⊢
  rw [atoi_digits hne hall] at hn
  split_ifs at hn with hlt
  cases hn
  rw [Int.toNat_natCast, decimal_foldl hne hall]
  by_contra hzero
  rw [not_or, not_not] at hzero
  exact hlead ⟨by omega, by rw [hzero.2]; decide⟩

theorem decimal_lead {n : ℕ} (h : n ≤ 32) : ¬ (1 < (decimal n).length ∧
    ¬ (decimal n).head?.any (fun c => 49 ≤ c.toNat && c.toNat ≤ 57) = true) := by
  revert h n
  decide

variable {p : Prefix} {a : BitVec 32}

theorem parsePrefix_append_iff {t ds : Bytes} (hds : ascii '/' ∉ ds) (hp : p.addr = .v4 a) :
    parsePrefix (t ++ ascii '/' :: ds) = some p ↔
      parseAddr t = some (.v4 a) ∧ ds = decimal p.bits := by
  have hbits : p.bits ≤ 32 := by
    have := p.bits_le
    rwa [hp] at this
  have htake : (t ++ ascii '/' :: ds).take ((t ++ ascii '/' :: ds).length - (ds.length + 1)) = t := by
    rw [List.length_append, List.length_cons, Nat.add_sub_cancel, List.take_left]
  have hmem : ascii '/' ∈ t ++ ascii '/' :: ds := List.mem_append_right _ List.mem_cons_self
  simp only [parsePrefix, bitsStr_append hds, htake, hmem, not_true_eq_false, if_false]
  constructor
  · intro h
    split at h
    · cases h
    · cases h
    · rename_i ip _ hip
      split_ifs at h with hlead
      split at h
      · cases h
      · rename_i n hn
        split_ifs at h with hrange
        cases h
        obtain rfl : ip = .v4 a := hp
        exact ⟨hip, bitsStr_eq_decimal hn hrange.1 hlead⟩
  · rintro ⟨hip, rfl⟩
    have hatoi : atoi (decimal p.bits) = some (p.bits : ℤ) := by
      rw [atoi_digits (decimal_ne_nil _) fun _ => isDigit_of_mem_decimal, foldl_decimal,
        if_pos (by omega)]
    obtain ⟨addr, bits, hle⟩ := p
    obtain rfl : addr = .v4 a := hp
    simp only [hip, decimal_lead hbits, hatoi, if_false]
    rw [dif_pos ⟨by omega, by exact_mod_cast hle⟩]
    rfl

/-- The one text that parses as an IPv4 prefix is the one written for it. -/
theorem parsePrefix_eq_v4_iff {s : Bytes} (hp : p.addr = .v4 a) :
    parsePrefix s = some p ↔ s = p.string := by
  rw [string, hp]
  constructor
  · intro h
    have hmem : ascii '/' ∈ s := by
      by_contra hmem
      simp only [parsePrefix, hmem, not_false_eq_true, if_true] at h
      cases h
    obtain ⟨ds, t, hs, hds⟩ := List.eq_append_cons_of_mem (List.mem_reverse.2 hmem)
    obtain rfl : s = t.reverse ++ ascii '/' :: ds.reverse := by
      rw [← List.reverse_reverse s, hs, List.reverse_append, List.reverse_cons, List.append_assoc,
        List.singleton_append]
    obtain ⟨ht, heq⟩ := (parsePrefix_append_iff (by rwa [List.mem_reverse]) hp).1 h
    rw [parseAddr_eq_v4_iff.1 ht, heq]
  · rintro rfl
    have hslash : ascii '/' ∉ decimal p.bits := fun h =>
      absurd (isDigit_of_mem_decimal h) (by decide)
    exact (parsePrefix_append_iff hslash hp).2 ⟨parseAddr_eq_v4_iff.2 rfl, rfl⟩

/-- The characters of an IPv4 prefix. -/
theorem mem_string_v4 (hp : p.addr = .v4 a) {c : UInt8} (h : c ∈ p.string) :
    isDigit c = true ∨ c = ascii '.' ∨ c = ascii '/' := by
  rw [string, hp, List.mem_append, List.mem_cons] at h
  rcases h with h | h | h
  · exact (Addr.mem_string_v4 h).imp_right .inl
  · exact .inr (.inr h)
  · exact .inl (isDigit_of_mem_decimal h)

/-! ### IPv4 networks

The addresses of a network of `b` bits that contains `a` are those from
`first a b` to `last a b`. -/

/-- The first address of the network, its network address. -/
def first (a : BitVec 32) (bits : ℕ) : ℕ := a.toNat / 2 ^ (32 - bits) * 2 ^ (32 - bits)

/-- The last address of the network, its broadcast address. -/
def last (a : BitVec 32) (bits : ℕ) : ℕ := first a bits + 2 ^ (32 - bits) - 1

theorem last_lt (a : BitVec 32) {bits : ℕ} (h : bits ≤ 32) : last a bits < 2 ^ 32 := by
  have hpow : 2 ^ bits * 2 ^ (32 - bits) = 2 ^ 32 := by
    rw [← Nat.pow_add, Nat.add_sub_cancel' h]
  have hdiv : a.toNat / 2 ^ (32 - bits) < 2 ^ bits := by
    rw [Nat.div_lt_iff_lt_mul (Nat.two_pow_pos _), hpow]
    exact a.isLt
  have hle := Nat.mul_le_mul_right (2 ^ (32 - bits)) (Nat.succ_le_of_lt hdiv)
  rw [hpow, Nat.succ_mul] at hle
  have hpos := Nat.two_pow_pos (32 - bits)
  rw [last, first]
  omega

theorem first_le (a : BitVec 32) (bits : ℕ) : first a bits ≤ a.toNat := Nat.div_mul_le_self _ _

theorem masked_v4 (h : p.addr = .v4 a) :
    p.masked.addr = .v4 (BitVec.ofNat 32 (first a p.bits)) := by
  obtain ⟨addr, bits, hle⟩ := p
  obtain rfl : addr = .v4 a := h
  refine congrArg Addr.v4 (BitVec.toNat_inj.1 ?_)
  rw [BitVec.toNat_shiftLeft, BitVec.toNat_ushiftRight, BitVec.toNat_ofNat, first,
    Nat.shiftRight_eq_div_pow, Nat.shiftLeft_eq]

theorem toNat_div_eq_iff (a b : BitVec 32) (bits : ℕ) :
    a.toNat / 2 ^ (32 - bits) = b.toNat / 2 ^ (32 - bits) ↔
      first a bits ≤ b.toNat ∧ b.toNat ≤ last a bits := by
  have hpos := Nat.two_pow_pos (32 - bits)
  rw [eq_comm, Nat.div_eq_iff hpos, last, first]

theorem contains_v4 (h : p.addr = .v4 a) (b : BitVec 32) :
    p.contains (.v4 b) = true ↔ first a p.bits ≤ b.toNat ∧ b.toNat ≤ last a p.bits := by
  obtain ⟨addr, bits, hle⟩ := p
  obtain rfl : addr = .v4 a := h
  have hxor : (a ^^^ b) >>> (32 - bits) = 0#32 ↔ a >>> (32 - bits) = b >>> (32 - bits) := by
    rw [BitVec.ushiftRight_xor_distrib, BitVec.xor_eq_zero_iff]
  refine decide_eq_true_iff.trans (hxor.trans ?_)
  rw [← toNat_div_eq_iff, ← BitVec.toNat_inj, BitVec.toNat_ushiftRight, BitVec.toNat_ushiftRight,
    Nat.shiftRight_eq_div_pow, Nat.shiftRight_eq_div_pow]

/-- The next address is in the network too, unless the address is its last one. -/
theorem contains_next_v4 {a b : BitVec 32} (h : p.addr = .v4 a) (hb : p.contains (.v4 b) = true) :
    (Addr.v4 b).next.any p.contains = true ↔ b.toNat ≠ last a p.bits := by
  have hbits : p.bits ≤ 32 := by
    have := p.bits_le
    rwa [h] at this
  have hlast := last_lt a hbits
  obtain ⟨hfirst, hle⟩ := (contains_v4 h b).1 hb
  rw [Addr.next]
  split_ifs with hones
  · have hb' : b.toNat = 2 ^ 32 - 1 := by rw [hones]; rfl
    simp only [Option.any_none, Bool.false_eq_true, ne_eq, false_iff, not_not]
    omega
  · have hne : b.toNat ≠ 2 ^ 32 - 1 := fun hb' => hones (BitVec.toNat_inj.1 hb')
    have hlt := b.isLt
    have hnext : (b + 1).toNat = b.toNat + 1 := by
      rw [BitVec.toNat_add]
      exact Nat.mod_eq_of_lt (show b.toNat + 1 < 2 ^ 32 by omega)
    rw [Option.any_some, contains_v4 h, hnext]
    omega

end Prefix

end QuicLab.Go.Netip
