import Mathlib.Data.Nat.ModEq
import QuicLab.Go.Bytes

/-!
# Internet packets

The checksums of the internet protocols are complements of *one's complement sums*: sums
of words in which a carry out of the highest bit is added back at the lowest one. In
base `k + 1`, such a sum is a sum modulo `k`, with two representations of zero: `0`, the
sum of zeros only, and `k`.

* `carry`: the addition of the carry, which may be repeated, or done after each addition
  (`onesSum`). Either way the result is `residue`, the representative modulo `k` among
  `1, …, k`, or `0` (`residue_carry`, `onesSum_eq`);
* `residue_add_complement`: a sum to which its complement is added is `k`;
* `words`: a byte string as words of 16 bits, padded with a zero byte.

A receiver reads a packet by the fields of `Ipv4`, `Tcp` and `Udp`, and accepts it if
`Ipv4.HeaderSum` and `Ipv4.SegmentSum` hold. A `Tcp.Conversation` is what is seen of a
connection on which every segment of data is acknowledged at once.
-/

namespace QuicLab.Internet

open Go

/-! ## One's complement sums -/

section Sums

variable {k : ℕ}

/-- What is over the base `k + 1` is added at the lowest place. -/
def carry (k n : ℕ) : ℕ := n % (k + 1) + n / (k + 1)

/-- The sum of the words, with the carry added back each time. -/
def onesSum (k : ℕ) (ws : List ℕ) : ℕ := ws.foldl (fun s x => carry k (s + x)) 0

/-- The representative modulo `k` in `1, …, k`, or `0` for `0`. -/
def residue (k n : ℕ) : ℕ := if n = 0 then 0 else (n - 1) % k + 1

variable {n : ℕ}

theorem carry_of_le (h : n ≤ k) : carry k n = n := by
  rw [carry, Nat.mod_eq_of_lt (by omega), Nat.div_eq_of_lt (by omega), Nat.add_zero]

theorem carry_lt (hk : 0 < k) (h : k < n) : carry k n < n := by
  have hdiv := Nat.div_add_mod n (k + 1)
  have hpos : 0 < n / (k + 1) := Nat.div_pos h (Nat.succ_pos k)
  have hlt : n / (k + 1) < (k + 1) * (n / (k + 1)) :=
    lt_mul_of_one_lt_left hpos (by omega)
  rw [carry]
  omega

theorem carry_pos (h : 0 < n) : 0 < carry k n := by
  have hdiv := Nat.div_add_mod n (k + 1)
  rw [carry]
  by_contra hzero
  obtain ⟨hmod, hquot⟩ := Nat.add_eq_zero_iff.1 (Nat.eq_zero_of_not_pos hzero)
  rw [hmod, hquot] at hdiv
  omega

theorem carry_modEq (n : ℕ) : carry k n ≡ n [MOD k] := by
  have hsplit : n = carry k n + k * (n / (k + 1)) := by
    conv_lhs => rw [← Nat.div_add_mod n (k + 1)]
    rw [carry]
    ring
  conv_rhs => rw [hsplit]
  exact (Nat.ModEq.refl _).trans (Nat.modEq_iff_dvd' (Nat.le_add_right _ _) |>.2 (by simp))

theorem residue_pos (h : 0 < n) : 0 < residue k n := by
  rw [residue, if_neg (by omega)]
  exact Nat.succ_pos _

theorem residue_le (hk : 0 < k) (n : ℕ) : residue k n ≤ k := by
  rw [residue]
  split_ifs
  · exact Nat.zero_le k
  · exact Nat.mod_lt (n - 1) hk

theorem residue_modEq (n : ℕ) : residue k n ≡ n [MOD k] := by
  rw [residue]
  split_ifs with hn
  · rw [hn]
  · have h := (Nat.mod_modEq (n - 1) k).add_right 1
    rwa [show n - 1 + 1 = n by omega] at h

/-- The representative is unique. -/
theorem eq_residue {s n : ℕ} (hpos : 0 < s) (hle : s ≤ k) (hn : 0 < n) (h : s ≡ n [MOD k]) :
    s = residue k n := by
  have hpred : s - 1 ≡ n - 1 [MOD k] := by
    refine Nat.ModEq.add_right_cancel' 1 ?_
    rwa [show s - 1 + 1 = s by omega, show n - 1 + 1 = n by omega]
  have hmod : (s - 1) % k = s - 1 := Nat.mod_eq_of_lt (by omega)
  rw [residue, if_neg (by omega), ← hpred, hmod]
  omega

theorem residue_congr (hk : 0 < k) {m n : ℕ} (hm : 0 < m) (hn : 0 < n) (h : m ≡ n [MOD k]) :
    residue k m = residue k n :=
  eq_residue (residue_pos hm) (residue_le hk m) hn ((residue_modEq m).trans h)

theorem residue_of_le (h : n ≤ k) : residue k n = n := by
  rcases Nat.eq_zero_or_pos n with rfl | hn
  · rfl
  · exact (eq_residue hn h hn rfl).symm

/-- The addition of the carry does not change the representative. -/
theorem residue_carry (hk : 0 < k) (n : ℕ) : residue k (carry k n) = residue k n := by
  rcases Nat.eq_zero_or_pos n with rfl | hn
  · rw [carry_of_le (Nat.zero_le k)]
  · exact residue_congr hk (carry_pos hn) hn (carry_modEq n)

theorem residue_add (hk : 0 < k) (m n : ℕ) : residue k (residue k m + n) = residue k (m + n) := by
  rcases Nat.eq_zero_or_pos m with rfl | hm
  · rfl
  · have hpos := residue_pos (k := k) hm
    exact residue_congr hk (by omega) (by omega) ((residue_modEq m).add_right n)

/-- After one addition of two words, one carry is enough. -/
theorem carry_add_le {a b : ℕ} (hk : 0 < k) (ha : a ≤ k) (hb : b ≤ k) :
    carry k (a + b) ≤ k := by
  rcases Nat.lt_or_ge k (a + b) with h | h
  · have hdiv : (a + b) / (k + 1) = 1 := by
      rw [Nat.div_eq_iff (by omega)]
      omega
    have := Nat.div_add_mod (a + b) (k + 1)
    rw [carry, hdiv] at *
    omega
  · rwa [carry_of_le h]

/-- A one's complement sum is the representative of the sum. -/
theorem onesSum_eq (hk : 0 < k) {ws : List ℕ} (h : ∀ x ∈ ws, x ≤ k) :
    onesSum k ws = residue k ws.sum := by
  induction ws using List.reverseRecOn with
  | nil => rfl
  | append_singleton ws x ih =>
    have hws : ∀ y ∈ ws, y ≤ k := fun y hy => h y (List.mem_append_left [x] hy)
    have hle : carry k (residue k ws.sum + x) ≤ k :=
      carry_add_le hk (residue_le hk _) (h x (by simp))
    rw [onesSum, List.foldl_append, List.foldl_cons, List.foldl_nil, ← onesSum, ih hws,
      ← residue_of_le hle, residue_carry hk, residue_add hk, List.sum_append, List.sum_singleton]

/-- Adding the complement of a sum gives `k`. -/
theorem residue_add_complement (hk : 0 < k) (n : ℕ) :
    residue k (n + (k - residue k n)) = k := by
  have hle := residue_le hk n
  have hsum : residue k n + (k - residue k n) = k := by omega
  rw [← residue_add hk, hsum, residue_of_le le_rfl]

/-- A sum whose complement is zero stays what it is when `k` is added in its place. -/
theorem residue_add_self (hk : 0 < k) (h : residue k n = k) : residue k (n + k) = k := by
  rw [← residue_add hk, h, residue, if_neg (by omega), show k + k - 1 = k - 1 + k by omega,
    Nat.add_mod_right, Nat.mod_eq_of_lt (by omega)]
  omega

end Sums

/-! ## Words -/

/-- The words of 16 bits of a byte string, the last byte padded with a zero. -/
def words : Bytes → List ℕ
  | a :: b :: p => uint [a, b] :: words p
  | [a] => [uint [a, 0]]
  | [] => []

/-- The sum of the words. -/
def total (p : Bytes) : ℕ := (words p).sum

/-- The one's complement sum of 16 bits of a byte string. -/
def onesComplementSum (p : Bytes) : ℕ := onesSum 65535 (words p)

theorem le_of_mem_words {p : Bytes} {x : ℕ} (h : x ∈ words p) : x ≤ 65535 := by
  have hlt : ∀ a b : UInt8, uint [a, b] ≤ 65535 := by
    intro a b
    have h := uint_lt [a, b]
    simp only [List.length_cons, List.length_nil] at h
    omega
  induction p using words.induct with
  | case1 a b p ih =>
    rcases List.mem_cons.1 h with rfl | h
    · exact hlt a b
    · exact ih h
  | case2 a =>
    rw [List.mem_singleton.1 h]
    exact hlt a 0
  | case3 => cases h

theorem onesComplementSum_eq (p : Bytes) : onesComplementSum p = residue 65535 (total p) :=
  onesSum_eq (by decide) fun _ => le_of_mem_words

/-- What follows an even number of bytes is cut into words on its own. -/
theorem words_append {a : Bytes} (h : 2 ∣ a.length) (b : Bytes) :
    words (a ++ b) = words a ++ words b := by
  induction a using words.induct with
  | case1 x y a ih =>
    have ha : 2 ∣ a.length := (Nat.dvd_add_left (Nat.dvd_refl 2)).1 h
    rw [List.cons_append, List.cons_append, words, words, ih ha, List.cons_append]
  | case2 x => exact absurd h (show ¬2 ∣ 1 by decide)
  | case3 => rfl

theorem total_append {a : Bytes} (h : 2 ∣ a.length) (b : Bytes) :
    total (a ++ b) = total a + total b := by
  rw [total, words_append h, List.sum_append, total, total]

theorem total_putUint (n : ℕ) : total (putUint 2 n) = n % 65536 := by
  have h := uint_putUint 2 n
  simpa [total, putUint, words] using h

theorem length_words (p : Bytes) : (words p).length = (p.length + 1) / 2 := by
  induction p using words.induct with
  | case1 a b p ih =>
    rw [words, List.length_cons, ih, List.length_cons, List.length_cons]
    omega
  | case2 a => simp [words]
  | case3 => rfl

/-- A field in the midst of a byte string, at an even place. -/
theorem total_field {a : Bytes} (h : 2 ∣ a.length) {n : ℕ} (hn : n < 65536) (b : Bytes) :
    total (a ++ (putUint 2 n ++ b)) = total (a ++ (putUint 2 0 ++ b)) + n := by
  have hput : ∀ m, 2 ∣ (putUint 2 m).length := fun m => by rw [length_putUint]
  rw [total_append h, total_append h, total_append (hput n), total_append (hput 0), total_putUint,
    total_putUint, Nat.mod_eq_of_lt hn, Nat.zero_mod]
  omega

/-! ## Packets -/

namespace Ipv4

/-- The total length field. -/
def totalLength (b : Bytes) : ℕ := ByteOrder.big.field 2 2 b

/-- The protocol field. -/
def protocol (b : Bytes) : ℕ := ByteOrder.big.field 9 1 b

/-- The source address. -/
def source (b : Bytes) : ℕ := ByteOrder.big.field 12 4 b

/-- The destination address. -/
def destination (b : Bytes) : ℕ := ByteOrder.big.field 16 4 b

/-- The segment of a packet whose header has no options. -/
def segment (b : Bytes) : Bytes := b.drop 20

/-- The pseudo-header of the segment: the addresses, the protocol and the length. -/
def pseudoHeader (b : Bytes) : Bytes :=
  putUint 4 (source b) ++ putUint 4 (destination b) ++ putUint 2 (protocol b) ++
    putUint 2 (segment b).length

/-- The header has a valid checksum. -/
def HeaderSum (b : Bytes) : Prop := onesComplementSum (b.take 20) = 0xFFFF

/-- The segment has a valid checksum. -/
def SegmentSum (b : Bytes) : Prop := onesComplementSum (pseudoHeader b ++ segment b) = 0xFFFF

end Ipv4

namespace Udp

/-- The length field of a datagram. -/
def length (d : Bytes) : ℕ := ByteOrder.big.field 4 2 d

/-- The checksum field of a datagram, `0` for none. -/
def checksum (d : Bytes) : ℕ := ByteOrder.big.field 6 2 d

/-- The data of a datagram. -/
def data (d : Bytes) : Bytes := d.drop 8

end Udp

/-- The source port, of TCP and of UDP. -/
def sourcePort (d : Bytes) : ℕ := ByteOrder.big.field 0 2 d

/-- The destination port, of TCP and of UDP. -/
def destinationPort (d : Bytes) : ℕ := ByteOrder.big.field 2 2 d

namespace Tcp

/-- The sequence number. -/
def seq (d : Bytes) : ℕ := ByteOrder.big.field 4 4 d

/-- The acknowledgement number. -/
def ack (d : Bytes) : ℕ := ByteOrder.big.field 8 4 d

/-- The flags. -/
def flags (d : Bytes) : ℕ := ByteOrder.big.field 13 1 d

/-- The data of a segment whose header has no options. -/
def data (d : Bytes) : Bytes := d.drop 20

/-! ## Conversations -/

/-- A segment of a conversation; `up` says who sends it. -/
structure Segment where
  up : Bool
  seq : UInt32
  ack : UInt32
  flags : UInt8
  data : Bytes
  deriving DecidableEq

/-- The bytes sent in a direction. -/
def sent (up : Bool) (l : List Segment) : Bytes := (l.filter (·.up = up)).flatMap (·.data)

/-- The number of the segments with the flag SYN in a direction. -/
def syns (up : Bool) (l : List Segment) : ℕ := l.countP fun s => s.up = up ∧ s.flags &&& 2 ≠ 0

section

variable (isn : Bool → UInt32)

/-- The next sequence number of a side: a SYN counts as one byte. -/
def next (up : Bool) (l : List Segment) : UInt32 :=
  isn up + UInt32.ofNat (syns up l + (sent up l).length)

/-- The three-way handshake. -/
def handshake : List Segment :=
  [⟨true, isn true, 0, 2, []⟩, ⟨false, isn false, isn true + 1, 18, []⟩,
    ⟨true, isn true + 1, isn false + 1, 16, []⟩]

/-- Some data, and its acknowledgement. -/
def exchange (up : Bool) (data : Bytes) (l : List Segment) : List Segment :=
  [⟨up, next isn up l, next isn (!up) l, 24, data⟩,
    ⟨!up, next isn (!up) l, next isn up l + UInt32.ofNat data.length, 16, []⟩]

/-- A conversation in which every segment of data, of at most `mss` bytes, is acknowledged
    at once. -/
inductive Conversation (mss : ℕ) : List Segment → Prop
  | handshake : Conversation mss (handshake isn)
  | exchange {l : List Segment} (up : Bool) {data : Bytes} : Conversation mss l → data ≠ [] →
      data.length ≤ mss → Conversation mss (l ++ exchange isn up data l)

end

theorem sent_append (up : Bool) (l l' : List Segment) :
    sent up (l ++ l') = sent up l ++ sent up l' := by
  rw [sent, List.filter_append, List.flatMap_append, sent, sent]

theorem syns_append (up : Bool) (l l' : List Segment) :
    syns up (l ++ l') = syns up l + syns up l' := List.countP_append

variable {isn : Bool → UInt32} {mss : ℕ} {l : List Segment}

theorem next_append (up : Bool) (l l' : List Segment) :
    next isn up (l ++ l') = next isn up l + UInt32.ofNat (syns up l' + (sent up l').length) := by
  rw [next, next, sent_append, syns_append, List.length_append, UInt32.add_assoc,
    ← UInt32.ofNat_add]
  congr 2
  omega

theorem sent_handshake (up : Bool) : sent up (handshake isn) = [] := by
  cases up <;> rfl

theorem syns_handshake (up : Bool) : syns up (handshake isn) = 1 := by
  cases up <;> simp +decide [syns, handshake]

theorem sent_exchange (up d : Bool) (data : Bytes) (l : List Segment) :
    sent d (exchange isn up data l) = if d = up then data else [] := by
  cases up <;> cases d <;> simp [sent, exchange]

theorem syns_exchange (up d : Bool) (data : Bytes) (l : List Segment) :
    syns d (exchange isn up data l) = 0 := by
  simp +decide [syns, exchange]

theorem next_exchange (up d : Bool) (data : Bytes) (l : List Segment) :
    next isn d (l ++ exchange isn up data l) =
      if d = up then next isn d l + UInt32.ofNat data.length else next isn d l := by
  rw [next_append, sent_exchange, syns_exchange, Nat.zero_add]
  split_ifs
  · rfl
  · exact UInt32.add_zero _

namespace Conversation

/-- Each side has sent one SYN. -/
theorem syns_eq (h : Conversation isn mss l) (up : Bool) : syns up l = 1 := by
  induction h with
  | handshake => exact syns_handshake up
  | exchange up' _ _ _ ih => rw [syns_append, syns_exchange, ih]

theorem handshake_prefix (h : Conversation isn mss l) : Tcp.handshake isn <+: l := by
  induction h with
  | handshake => exact List.prefix_rfl
  | exchange up _ _ _ ih => exact ih.trans (List.prefix_append _ _)

/-- Every segment of data is short, has the sequence number that is due, and is
    acknowledged by the next segment. -/
structure Delivered (isn : Bool → UInt32) (mss : ℕ) (before : List Segment) (s : Segment)
    (after : List Segment) : Prop where
  length : s.data.length ≤ mss
  seq : s.seq = isn s.up + UInt32.ofNat (1 + (sent s.up before).length)
  ack : ∃ a, after.head? = some a ∧ a.up = !s.up ∧ a.flags = 16 ∧ a.data = [] ∧
    a.ack = s.seq + UInt32.ofNat s.data.length

variable {before after : List Segment}

/-- A segment of an extended list is in the list, or one of the two added. -/
theorem split_cases {s x y : Segment} (h : before ++ s :: after = l ++ [x, y]) :
    (∃ after', l = before ++ s :: after' ∧ after = after' ++ [x, y]) ∨
    before = l ∧ s = x ∧ after = [y] ∨ before = l ++ [x] ∧ s = y ∧ after = [] := by
  rcases List.append_eq_append_iff.1 h with ⟨t, ht, h'⟩ | ⟨t, ht, h'⟩
  · cases t with
    | nil =>
      simp only [List.nil_append, List.cons.injEq] at h'
      exact .inr (.inl ⟨by simpa using ht.symm, h'⟩)
    | cons z t =>
      simp only [List.cons_append, List.cons.injEq] at h'
      exact .inl ⟨t, by rw [ht, h'.1], h'.2⟩
  · cases t with
    | nil =>
      simp only [List.nil_append, List.cons.injEq] at h'
      exact .inr (.inl ⟨by simpa using ht, h'.1.symm, h'.2.symm⟩)
    | cons z t =>
      cases t with
      | nil =>
        simp only [List.cons_append, List.nil_append, List.cons.injEq] at h'
        obtain ⟨rfl, rfl, rfl⟩ := h'
        exact .inr (.inr ⟨ht, rfl, rfl⟩)
      | cons z' t => simp at h'

theorem delivered (h : Conversation isn mss l) {s : Segment} (hl : before ++ s :: after = l)
    (hs : s.data ≠ []) : Delivered isn mss before s after := by
  induction h generalizing before after with
  | handshake =>
    have hmem : s ∈ Tcp.handshake isn := hl ▸ by simp
    simp only [Tcp.handshake, List.mem_cons, List.not_mem_nil, or_false] at hmem
    rcases hmem with rfl | rfl | rfl <;> exact absurd rfl hs
  | @exchange l up data hconv hdata hmss ih =>
    rcases split_cases hl with ⟨after', rfl, rfl⟩ | ⟨rfl, rfl, rfl⟩ | ⟨-, rfl, -⟩
    · obtain ⟨hlen, hseq, a, ha, hack⟩ := ih rfl
      exact ⟨hlen, hseq, a, by rw [List.head?_append, ha]; rfl, hack⟩
    · refine ⟨hmss, ?_, _, rfl, rfl, rfl, rfl, rfl⟩
      rw [next, hconv.syns_eq]
    · exact absurd rfl hs

/-- Every segment but the first acknowledges what the other side has sent. -/
theorem acknowledges (h : Conversation isn mss l) {s : Segment} (hl : before ++ s :: after = l)
    (hb : before ≠ []) :
    s.flags &&& 16 ≠ 0 ∧ s.ack = next isn (!s.up) before := by
  induction h generalizing before after with
  | handshake =>
    cases before with
    | nil => exact absurd rfl hb
    | cons x before =>
      simp only [Tcp.handshake, List.cons_append, List.cons.injEq] at hl
      obtain ⟨rfl, hl⟩ := hl
      rcases split_cases (l := []) hl with ⟨_, hnil, -⟩ | ⟨rfl, rfl, -⟩ | ⟨rfl, rfl, -⟩
      · simp at hnil
      · exact ⟨show (18 : UInt8) &&& 16 ≠ 0 by decide, by simp +decide [next, syns, sent]⟩
      · exact ⟨show (16 : UInt8) &&& 16 ≠ 0 by decide, by simp +decide [next, syns, sent]⟩
  | @exchange l up data hconv hdata hmss ih =>
    rcases split_cases hl with ⟨after', rfl, -⟩ | ⟨rfl, rfl, -⟩ | ⟨rfl, rfl, -⟩
    · exact ih rfl hb
    · exact ⟨show (24 : UInt8) &&& 16 ≠ 0 by decide, rfl⟩
    · refine ⟨show (16 : UInt8) &&& 16 ≠ 0 by decide, ?_⟩
      rw [Bool.not_not, next_append]
      simp +decide [sent, syns]

end Conversation

end Tcp

end QuicLab.Internet
