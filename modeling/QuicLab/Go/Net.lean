import QuicLab.Go.Netip

/-!
# Host and port

`SplitHostPort` and `JoinHostPort` of Go's package `net`, and its addresses
(`net.IP`, a slice of bytes of any length).
-/

namespace QuicLab.Go

/-- `strings.LastIndexByte`. -/
def lastIndexByte (s : Bytes) (c : UInt8) : Option ℕ :=
  (s.reverse.idxOf? c).map fun r => s.length - 1 - r

/-- `net.SplitHostPort`: the host and the port, or any of its errors. -/
def splitHostPort (hostport : Bytes) : Option (Bytes × Bytes) :=
  match lastIndexByte hostport (ascii ':') with
  | none => none
  | some i =>
    if hostport.head? = some (ascii '[') then
      -- The first bracket closed is just before the last colon.
      match hostport.idxOf? (ascii ']') with
      | none => none
      | some close =>
        if close + 1 ≠ i then none
        else if ascii '[' ∈ hostport.drop 1 ∨ ascii ']' ∈ hostport.drop (close + 1) then none
        else some ((hostport.take close).drop 1, hostport.drop (i + 1))
    else if ascii ':' ∈ hostport.take i then none
    else if ascii '[' ∈ hostport ∨ ascii ']' ∈ hostport then none
    else some (hostport.take i, hostport.drop (i + 1))

/-- `net.JoinHostPort`. -/
def joinHostPort (host port : Bytes) : Bytes :=
  if ascii ':' ∈ host then ascii '[' :: host ++ str "]:" ++ port
  else host ++ ascii ':' :: port

/-- `net.ParseIP`: an address without a zone. -/
def parseIP (s : Bytes) : Option Netip.Addr :=
  match Netip.parseAddr s with
  | some (.v6 a zone) => if zone = [] then some (.v6 a zone) else none
  | ip => ip

/-- `net.IP.IsLoopback`: 127.0.0.0/8, also mapped to IPv6, or ::1. -/
def isLoopback : Netip.Addr → Bool
  | .v4 a => a.toNat / 2 ^ 24 = 127
  | .v6 a _ => if a.toNat / 2 ^ 32 = 0xffff then a.toNat % 2 ^ 32 / 2 ^ 24 = 127 else a = 1

/-- Is `net.IP.To4` not nil? An IPv4 address, also mapped to IPv6. -/
def isTo4 : Netip.Addr → Bool
  | .v4 _ => true
  | .v6 a _ => a.toNat / 2 ^ 32 = 0xffff

/-- `net.IP.To4`. -/
def to4 : Netip.Addr → Option (BitVec 32)
  | .v4 a => some a
  | .v6 a _ => if a.toNat / 2 ^ 32 = 0xffff then some (BitVec.ofNat 32 a.toNat) else none

/-- `netip.ParseAddrPort`: an IPv6 address, and no other, is in brackets. -/
def parseAddrPort (s : Bytes) : Option (Netip.Addr × ℕ) :=
  match lastIndexByte s (ascii ':') with
  | none => none
  | some i =>
    let ip := s.take i
    let port := s.drop (i + 1)
    let bracket := ip.head? = some (ascii '[')
    if ip = [] ∨ port = [] ∨ (bracket ∧ (ip.length < 2 ∨ ip.getLast? ≠ some (ascii ']'))) then none
    else
      match parseUint port 16, Netip.parseAddr (if bracket then ip.tail.dropLast else ip) with
      | some port, some a => if a.is4 = decide bracket then none else some (a, port)
      | _, _ => none

/-- `net.IP.String`. -/
def ipString (ip : Bytes) : Bytes :=
  if ip = [] then str "<nil>"
  else if ip.length = 4 then (Netip.Addr.v4 (BitVec.ofNat 32 (uint ip))).string
  else if ip.length = 16 then
    if ip.take 12 = List.replicate 10 0 ++ [255, 255] then
      (Netip.Addr.v4 (BitVec.ofNat 32 (uint (ip.drop 12)))).string
    else (Netip.Addr.v6 (BitVec.ofNat 128 (uint ip)) []).string
  else ascii '?' :: hexEncode ip

/-! ## What `SplitHostPort` accepts -/

theorem idxOf?_eq_some_iff {s : Bytes} {c : UInt8} {i : ℕ} :
    s.idxOf? c = some i ↔ ∃ a b, s = a ++ c :: b ∧ c ∉ a ∧ a.length = i := by
  constructor
  · intro h
    induction s generalizing i with
    | nil => cases h
    | cons x s ih =>
      rw [List.idxOf?_cons] at h
      split_ifs at h with hx
      · cases h
        exact ⟨[], s, by rw [beq_iff_eq.1 hx]; rfl, List.not_mem_nil, rfl⟩
      · obtain ⟨j, hj, rfl⟩ := Option.map_eq_some_iff.1 h
        obtain ⟨a, b, rfl, hmem, rfl⟩ := ih hj
        refine ⟨x :: a, b, rfl, fun hc => ?_, rfl⟩
        rcases List.mem_cons.1 hc with rfl | hc
        · exact hx (beq_self_eq_true c)
        · exact hmem hc
  · rintro ⟨a, b, rfl, hmem, rfl⟩
    induction a with
    | nil => rw [List.nil_append, List.idxOf?_cons, if_pos (beq_self_eq_true c), List.length_nil]
    | cons x a ih =>
      have hx : x ≠ c := fun h => hmem (h ▸ List.mem_cons_self)
      rw [List.cons_append, List.idxOf?_cons, if_neg (by simpa using hx),
        ih fun h => hmem (List.mem_cons_of_mem _ h), Option.map_some, List.length_cons]

theorem lastIndexByte_eq_some_iff {s : Bytes} {c : UInt8} {i : ℕ} :
    lastIndexByte s c = some i ↔ ∃ a b, s = a ++ c :: b ∧ c ∉ b ∧ a.length = i := by
  rw [lastIndexByte, Option.map_eq_some_iff]
  constructor
  · rintro ⟨r, hr, rfl⟩
    obtain ⟨b, a, hs, hmem, rfl⟩ := idxOf?_eq_some_iff.1 hr
    have hs' : s = a.reverse ++ c :: b.reverse := by
      rw [← List.reverse_reverse s, hs, List.reverse_append, List.reverse_cons, List.append_assoc,
        List.singleton_append]
    refine ⟨a.reverse, b.reverse, hs', by rwa [List.mem_reverse], ?_⟩
    rw [hs', List.length_append, List.length_cons, List.length_reverse, List.length_reverse]
    omega
  · rintro ⟨a, b, rfl, hmem, rfl⟩
    refine ⟨b.length, idxOf?_eq_some_iff.2 ⟨b.reverse, a.reverse, ?_, ?_, List.length_reverse⟩, ?_⟩
    · rw [List.reverse_append, List.reverse_cons, List.append_assoc, List.singleton_append]
    · rwa [List.mem_reverse]
    · rw [List.length_append, List.length_cons]
      omega

/-- A host without colons and brackets, and a port. -/
structure PlainHostPort (s host port : Bytes) : Prop where
  eq : s = host ++ ascii ':' :: port
  colon : ascii ':' ∉ host
  port : ascii ':' ∉ port
  opened : ascii '[' ∉ s
  closed : ascii ']' ∉ s

/-- A host in brackets, and a port. -/
structure BracketHostPort (s host port : Bytes) : Prop where
  eq : s = ascii '[' :: (host ++ ascii ']' :: ascii ':' :: port)
  colon : ascii ':' ∉ port
  opened : ascii '[' ∉ host ++ port
  closed : ascii ']' ∉ host ++ port

/-- The closing bracket is just before the last colon. -/
theorem bracketHostPort_of_close {a b : Bytes} {close : ℕ}
    (hhead : (a ++ ascii ':' :: b).head? = some (ascii '[')) (hb : ascii ':' ∉ b)
    (hclose : (a ++ ascii ':' :: b).idxOf? (ascii ']') = some close) (hlen : close + 1 = a.length)
    (hopened : ascii '[' ∉ (a ++ ascii ':' :: b).drop 1)
    (hclosed : ascii ']' ∉ (a ++ ascii ':' :: b).drop (close + 1)) :
    BracketHostPort (a ++ ascii ':' :: b) (((a ++ ascii ':' :: b).take close).drop 1) b := by
  obtain ⟨x, y, hs, hx, rfl⟩ := idxOf?_eq_some_iff.1 hclose
  have hs' : a ++ ascii ':' :: b = (x ++ [ascii ']']) ++ y := by
    rw [hs, List.append_assoc, List.singleton_append]
  obtain ⟨rfl, rfl⟩ := List.append_inj hs'
    (by rw [List.length_append, List.length_singleton]; exact hlen.symm)
  cases x with
  | nil => exact absurd (Option.some.inj hhead) (by decide)
  | cons c host =>
    obtain rfl : c = ascii '[' := by simpa using hhead
    simp only [List.cons_append, List.append_assoc, List.nil_append, List.drop_succ_cons,
      List.drop_zero, List.length_cons, List.take_succ_cons, List.take_left, List.mem_append,
      List.mem_cons, not_or] at hopened hclosed hx ⊢
    refine ⟨rfl, hb, ?_, ?_⟩
    · simp only [List.mem_append, not_or]
      exact ⟨hopened.1, hopened.2.2.2⟩
    · simp only [List.mem_append, not_or]
      exact ⟨hx.2, fun hmem => hclosed (by simp [hmem])⟩

theorem splitHostPort_eq_some_iff {s host port : Bytes} :
    splitHostPort s = some (host, port) ↔
      PlainHostPort s host port ∨ BracketHostPort s host port := by
  constructor
  · intro h
    rw [splitHostPort] at h
    split at h
    · cases h
    rename_i i hi
    obtain ⟨a, b, rfl, hb, rfl⟩ := lastIndexByte_eq_some_iff.1 hi
    have hdrop : (a ++ ascii ':' :: b).drop (a.length + 1) = b := by simp
    split_ifs at h with hhead hcolon hbr
    · split at h
      · cases h
      rename_i close hclose
      split_ifs at h with hlast hbr
      cases h
      rw [not_or] at hbr
      rw [hdrop]
      exact .inr (bracketHostPort_of_close hhead hb hclose (not_not.1 hlast) hbr.1 hbr.2)
    · cases h
      left
      rw [List.take_left] at hcolon
      rw [not_or] at hbr
      rw [List.take_left, hdrop]
      exact ⟨rfl, hcolon, hb, hbr.1, hbr.2⟩
  · rintro (h | h)
    · have hlast : lastIndexByte s (ascii ':') = some host.length :=
        lastIndexByte_eq_some_iff.2 ⟨host, port, h.eq, h.port, rfl⟩
      have hhead : s.head? ≠ some (ascii '[') := fun hh => h.opened (List.mem_of_head? hh)
      have htake : s.take host.length = host := by rw [h.eq, List.take_left]
      have hdrop : s.drop (host.length + 1) = port := by rw [h.eq]; simp
      rw [splitHostPort, hlast]
      simp only [hhead, htake, hdrop, h.colon, h.opened, h.closed, or_self, if_false]
    · have hlast : lastIndexByte s (ascii ':') = some (host.length + 2) :=
        lastIndexByte_eq_some_iff.2 ⟨ascii '[' :: (host ++ [ascii ']']), port,
          by rw [h.eq]; simp, h.colon, by simp⟩
      have hclosed : ascii ']' ∉ ascii '[' :: host := fun hmem => by
        rcases List.mem_cons.1 hmem with hmem | hmem
        · exact absurd hmem (by decide)
        · exact h.closed (List.mem_append_left _ hmem)
      have hclose : s.idxOf? (ascii ']') = some (host.length + 1) :=
        idxOf?_eq_some_iff.2 ⟨ascii '[' :: host, ascii ':' :: port, by rw [h.eq]; simp, hclosed, rfl⟩
      have hhead : s.head? = some (ascii '[') := by rw [h.eq]; rfl
      have hopened : ascii '[' ∉ s.drop 1 := by
        have := h.opened
        rw [h.eq]
        simp_all [ascii]
      have hafter : ascii ']' ∉ s.drop (host.length + 1 + 1) := by
        have := h.closed
        rw [h.eq]
        simp_all [ascii]
      have hhost : (s.take (host.length + 1)).drop 1 = host := by rw [h.eq]; simp
      have hport : s.drop (host.length + 2 + 1) = port := by rw [h.eq]; simp
      rw [splitHostPort, hlast]
      simp only [hhead, hclose, hopened, hafter, hhost, hport, ne_eq, not_true_eq_false, or_self,
        if_true, if_false]

/-- An IPv4 address and a port: the text of the address, and digits. -/
theorem parseAddrPort_v4 {s : Bytes} {a : BitVec 32} {n : ℕ}
    (h : parseAddrPort s = some (.v4 a, n)) :
    ∃ port, s = (Netip.Addr.v4 a).string ++ ascii ':' :: port ∧ parseUint port 16 = some n := by
  rw [parseAddrPort] at h
  split at h
  · cases h
  · rename_i i hi
    obtain ⟨x, y, rfl, hy, rfl⟩ := lastIndexByte_eq_some_iff.1 hi
    have hx : (x ++ ascii ':' :: y).take x.length = x := List.take_left
    have hdrop : (x ++ ascii ':' :: y).drop (x.length + 1) = y := by
      rw [← List.drop_drop, List.drop_left, List.drop_one, List.tail_cons]
    simp only [hx, hdrop] at h
    split_ifs at h with _ hbracket
    · split at h
      · split_ifs at h with h4
        cases h
        exact absurd (decide_eq_true hbracket).symm h4
      · cases h
    · split at h
      · rename_i port b hport hb
        split_ifs at h with h4
        cases h
        exact ⟨y, by rw [Netip.parseAddr_eq_v4_iff.1 hb], hport⟩
      · cases h

example : splitHostPort (str "10.0.0.1:443") = some (str "10.0.0.1", str "443") := by decide

example : splitHostPort (str "[::1]:53") = some (str "::1", str "53") := by decide

example : splitHostPort (str "::1:53") = none := by decide

end QuicLab.Go
