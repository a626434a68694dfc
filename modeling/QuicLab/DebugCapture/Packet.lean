import Mathlib.Algebra.Order.BigOperators.Group.List
import Mathlib.Data.UInt
import QuicLab.DebugCapture.Recording
import QuicLab.Internet

/-!
# Reconstructed packets

Of a proxied connection, only the bytes of the stream or the datagrams are known. For the
capture of a user, `capturedConn.emit` wraps them in headers of IPv4 and TCP or UDP that
were never on the wire, with checksums that a reader of the capture accepts.

* `checksum`: the sum of the words in an accumulator of 32 bits, the carries added at the
  end, and the complement of that. As long as the accumulator does not overflow
  (`Exact`, which up to 65536 words it does not), this is the complement of the one's
  complement sum (`toNat_checksum`);
* `CapturedConn.emit`: the packet, where it fits.

`emit_valid` says that the packet is valid.
-/

namespace QuicLab.DebugCapture

open Go Internet

/-! ### The checksum -/

/-- The first loop of `checksum`, and the odd byte after it. -/
def addWords : Bytes → UInt32 → UInt32
  | a :: b :: p, s => addWords p (s + UInt32.ofNat (uint [a, b]))
  | [a], s => s + a.toUInt32 <<< 8
  | [], s => s

theorem toNat_shiftRight (s : UInt32) : (s >>> 16).toNat = s.toNat / 65536 := by
  simp [UInt32.toNat_shiftRight, Nat.shiftRight_eq_div_pow]

theorem toNat_and (s : UInt32) : (s &&& 65535).toNat = s.toNat % 65536 := by
  rw [UInt32.toNat_and, show (65535 : UInt32).toNat = 2 ^ 16 - 1 from rfl,
    Nat.and_two_pow_sub_one_eq_mod]

/-- The addition of the carry does not overflow. -/
theorem toNat_and_add (s : UInt32) :
    ((s &&& (65535 : UInt32)) + (s >>> 16)).toNat = carry 65535 s.toNat := by
  have hs := s.toNat_lt
  rw [UInt32.toNat_add, toNat_and, toNat_shiftRight, carry, Nat.mod_eq_of_lt]
  omega

/-- The second loop of `checksum`. -/
def addCarries (s : UInt32) : UInt32 :=
  if s >>> 16 ≠ 0 then addCarries ((s &&& (65535 : UInt32)) + (s >>> 16)) else s
termination_by s.toNat
decreasing_by
  rename_i h
  rw [toNat_and_add]
  refine carry_lt (by decide) (Nat.lt_of_not_le fun hle => h (UInt32.toNat_inj.1 ?_))
  rw [toNat_shiftRight, Nat.div_eq_of_lt (by omega)]
  rfl

/-- `checksum`. -/
def checksum (p : Bytes) : UInt16 := ~~~ (addCarries (addWords p 0)).toUInt16

/-- No addition of the first loop overflows. -/
def Exact : Bytes → UInt32 → Prop
  | a :: b :: p, s => s.toNat + uint [a, b] < 2 ^ 32 ∧ Exact p (s + UInt32.ofNat (uint [a, b]))
  | [a], s => s.toNat + a.toNat * 2 ^ 8 < 2 ^ 32
  | [], _ => True

theorem toNat_add_word {s : UInt32} {x : ℕ} (h : s.toNat + x < 2 ^ 32) :
    (s + UInt32.ofNat x).toNat = s.toNat + x := by
  rw [UInt32.toNat_add, UInt32.toNat_ofNat', Nat.add_mod_mod, Nat.mod_eq_of_lt h]

theorem toNat_shiftLeft (a : UInt8) : (a.toUInt32 <<< 8).toNat = a.toNat * 2 ^ 8 := by
  have ha := a.toNat_lt
  rw [UInt32.toNat_shiftLeft, UInt8.toNat_toUInt32, show (8 : UInt32).toNat % 32 = 8 from rfl,
    Nat.shiftLeft_eq, Nat.mod_eq_of_lt (by omega)]

theorem uint_pair_zero (a : UInt8) : uint [a, 0] = a.toNat * 2 ^ 8 := by
  simp [uint]

/-- The sum is exact as long as it fits. -/
theorem exact_of_lt {p : Bytes} {s : UInt32} (h : s.toNat + total p < 2 ^ 32) : Exact p s := by
  induction p, s using addWords.induct with
  | case1 a b p s ih =>
    have hsum : total (a :: b :: p) = uint [a, b] + total p := by
      rw [total, words, List.sum_cons, total]
    have hword : s.toNat + uint [a, b] < 2 ^ 32 := by omega
    refine ⟨hword, ih ?_⟩
    rw [toNat_add_word hword]
    omega
  | case2 a s =>
    have hsum : total [a] = a.toNat * 2 ^ 8 := by
      rw [total, words, List.sum_singleton, uint_pair_zero]
    rwa [hsum] at h
  | case3 s => trivial

theorem toNat_addWords {p : Bytes} {s : UInt32} (h : Exact p s) :
    (addWords p s).toNat = s.toNat + total p := by
  induction p, s using addWords.induct with
  | case1 a b p s ih =>
    rw [addWords, ih h.2, toNat_add_word h.1, total, total, words, List.sum_cons, Nat.add_assoc]
  | case2 a s =>
    rw [Exact] at h
    rw [addWords, UInt32.toNat_add, toNat_shiftLeft, Nat.mod_eq_of_lt h, total, words,
      List.sum_singleton, uint_pair_zero]
  | case3 s => rfl

theorem toNat_addCarries (s : UInt32) : (addCarries s).toNat = residue 65535 s.toNat := by
  induction s using addCarries.induct with
  | case1 s h ih =>
    rw [addCarries, if_pos h, ih, toNat_and_add, residue_carry (by decide)]
  | case2 s h =>
    have hdiv : s.toNat / 65536 = 0 := by
      rw [← toNat_shiftRight, not_not.1 h]
      rfl
    rw [addCarries, if_neg h, residue_of_le (by omega)]

/-- The checksum is the complement of the one's complement sum. -/
theorem toNat_checksum {p : Bytes} (h : Exact p 0) :
    (checksum p).toNat = 65535 - residue 65535 (total p) := by
  have hle := residue_le (k := 65535) (by decide) (total p)
  have hsum : (addCarries (addWords p 0)).toNat = residue 65535 (total p) := by
    rw [toNat_addCarries, toNat_addWords h]
    exact congrArg _ (Nat.zero_add _)
  rw [checksum, UInt16.toNat_not, UInt32.toNat_toUInt16, hsum, Nat.mod_eq_of_lt (by omega)]
  rfl

theorem exact_of_length {p : Bytes} (h : p.length ≤ 131072) : Exact p 0 := by
  refine exact_of_lt ?_
  have hsum : total p ≤ (words p).length * 65535 := by
    rw [total]
    exact List.sum_le_card_nsmul _ _ fun _ => le_of_mem_words
  rw [length_words] at hsum
  have hhalf : (p.length + 1) / 2 ≤ 65536 := by omega
  have hprod : (p.length + 1) / 2 * 65535 ≤ 65536 * 65535 := Nat.mul_le_mul_right _ hhalf
  rw [show (0 : UInt32).toNat = 0 from rfl]
  omega

/-- A checksum that is written in the place of zeros, at an even place. -/
theorem residue_checksum {a b : Bytes} (ha : 2 ∣ a.length)
    (h : Exact (a ++ (putUint 2 0 ++ b)) 0) :
    residue 65535 (total (a ++ (putUint 2 (checksum (a ++ (putUint 2 0 ++ b))).toNat ++ b))) =
      65535 := by
  rw [total_field ha (UInt16.toNat_lt _), toNat_checksum h]
  exact residue_add_complement (by decide) _

/-- The same, where `65535` is written for `0`. -/
theorem residue_checksum_ne_zero {a b : Bytes} (ha : 2 ∣ a.length)
    (h : Exact (a ++ (putUint 2 0 ++ b)) 0)
    (hzero : checksum (a ++ (putUint 2 0 ++ b)) = 0) :
    residue 65535 (total (a ++ (putUint 2 65535 ++ b))) = 65535 := by
  have hsum := toNat_checksum h
  have hle := residue_le (k := 65535) (by decide) (total (a ++ (putUint 2 0 ++ b)))
  rw [hzero, show (0 : UInt16).toNat = 0 from rfl] at hsum
  rw [total_field ha (by decide)]
  exact residue_add_self (by decide) (by omega)

/-! ### The packet -/

/-- A `flowState`: the next sequence number of each side. -/
structure FlowState where
  up : UInt32
  down : UInt32
  deriving DecidableEq

/-- A `capturedConn`, with its addresses of IPv4. -/
structure CapturedConn where
  user : Bytes
  udp : Bool
  src : BitVec 32
  dst : BitVec 32
  sport : UInt16
  dport : UInt16
  states : Map Bytes FlowState

/-- The header of IPv4 of a packet of `n` bytes, the bytes 10 and 11 being `sum`. -/
def ipHeader (n : ℕ) (proto : UInt8) (sum : ℕ) (src dst : BitVec 32) : Bytes :=
  [0x45, 0] ++ putUint 2 n ++ [0, 0, 0, 0, 64, proto] ++
    (putUint 2 sum ++ (putUint 4 src.toNat ++ putUint 4 dst.toNat))

/-- What `emit` puts before a segment to sum it up. -/
def pseudo (src dst : BitVec 32) (proto : UInt8) (n : ℕ) : Bytes :=
  putUint 4 src.toNat ++ putUint 4 dst.toNat ++ [0, proto] ++ putUint 2 n

/-- A datagram of UDP before its checksum. -/
def udpHead (sp dp : UInt16) (data : Bytes) : Bytes :=
  putUint 2 sp.toNat ++ putUint 2 dp.toNat ++ putUint 2 (8 + data.length)

/-- A segment of TCP before its checksum. -/
def tcpHead (sp dp : UInt16) (seq ack : UInt32) (flags : UInt8) : Bytes :=
  putUint 2 sp.toNat ++ putUint 2 dp.toNat ++ putUint 4 seq.toNat ++
    putUint 4 (if flags &&& 16 ≠ 0 then ack.toNat else 0) ++ [0x50, flags] ++ putUint 2 65535

theorem length_udpHead (sp dp : UInt16) (data : Bytes) : (udpHead sp dp data).length = 6 := by
  simp [udpHead]

theorem length_tcpHead (sp dp : UInt16) (seq ack : UInt32) (flags : UInt8) :
    (tcpHead sp dp seq ack flags).length = 16 := by
  simp [tcpHead]

namespace CapturedConn

/-- The length of the header of the segment. -/
def header (c : CapturedConn) : ℕ := if c.udp then 8 else 20

/-- The protocol number. -/
def proto (c : CapturedConn) : UInt8 := if c.udp then 17 else 6

/-- The source address of a packet in a direction. -/
def source (c : CapturedConn) (up : Bool) : BitVec 32 := if up then c.src else c.dst

/-- The source port of a packet in a direction. -/
def sourcePort (c : CapturedConn) (up : Bool) : UInt16 := if up then c.sport else c.dport

/-- The header of IPv4, with the bytes `sum` for its checksum. -/
def ip (c : CapturedConn) (up : Bool) (data : Bytes) (sum : ℕ) : Bytes :=
  ipHeader (20 + c.header + data.length) c.proto sum (c.source up) (c.source !up)

/-- The payload of IPv4, with the bytes `sum` for its checksum. -/
def payload (c : CapturedConn) (state : FlowState) (up : Bool) (data : Bytes) (flags : UInt8)
    (sum : ℕ) : Bytes :=
  if c.udp then
    udpHead (c.sourcePort up) (c.sourcePort !up) data ++ (putUint 2 sum ++ data)
  else
    tcpHead (c.sourcePort up) (c.sourcePort !up) (if up then state.up else state.down)
      (if up then state.down else state.up) flags ++ (putUint 2 sum ++ ([0, 0] ++ data))

/-- What the checksum of the payload is taken of. -/
def summed (c : CapturedConn) (state : FlowState) (up : Bool) (data : Bytes) (flags : UInt8) :
    Bytes :=
  pseudo (c.source up) (c.source !up) c.proto (c.header + data.length) ++
    c.payload state up data flags 0

/-- `emit`: the packet that is recorded, if it is not too long. -/
def emit (c : CapturedConn) (state : FlowState) (up : Bool) (data : Bytes) (flags : UInt8) :
    Option Bytes :=
  if 65535 < data.length + c.header + 20 then none
  else
    let sum := checksum (c.summed state up data flags)
    some (c.ip up data (checksum (c.ip up data 0)).toNat ++
      c.payload state up data flags (if c.udp ∧ sum = 0 then 65535 else sum.toNat))

/-! ### What a receiver reads -/

variable (c : CapturedConn) (state : FlowState) (up : Bool) (data : Bytes) (flags : UInt8)
  (sum : ℕ)

@[simp]
theorem length_ip : (c.ip up data sum).length = 20 := by
  simp [ip, ipHeader]

@[simp]
theorem length_payload : (c.payload state up data flags sum).length = c.header + data.length := by
  rw [payload, header]
  by_cases hudp : c.udp = true
  · simp [hudp, length_udpHead]
    omega
  · simp [hudp, length_tcpHead]
    omega

variable {c data} (b : Bytes)

theorem totalLength_ip (h : data.length + c.header + 20 ≤ 65535) :
    Ipv4.totalLength (c.ip up data sum ++ b) = 20 + c.header + data.length := by
  rw [Ipv4.totalLength, ip, ipHeader, List.append_assoc, List.append_assoc, List.append_assoc]
  refine (ByteOrder.big.field_append (a := [0x45, 0]) rfl).trans (Nat.mod_eq_of_lt ?_)
  omega

theorem protocol_ip : Ipv4.protocol (c.ip up data sum ++ b) = c.proto.toNat := by
  rw [Ipv4.protocol, ip, ipHeader, ByteOrder.field]
  simp [putUint, ByteOrder.read, uint]

theorem source_ip : Ipv4.source (c.ip up data sum ++ b) = (c.source up).toNat := by
  rw [Ipv4.source, ip, ipHeader]
  simp [ByteOrder.field_skip, ByteOrder.field_cons, ByteOrder.big_field_putUint,
    Nat.mod_eq_of_lt (c.source up).isLt]

theorem destination_ip : Ipv4.destination (c.ip up data sum ++ b) = (c.source !up).toNat := by
  rw [Ipv4.destination, ip, ipHeader]
  simp [ByteOrder.field_skip, ByteOrder.field_cons, ByteOrder.big_field_putUint,
    Nat.mod_eq_of_lt (c.source !up).isLt]

theorem segment_ip : Ipv4.segment (c.ip up data sum ++ b) = b :=
  List.drop_left' (c.length_ip up data sum)

/-- The pseudo-header that a receiver makes is the one of `emit`. -/
theorem pseudoHeader_ip :
    Ipv4.pseudoHeader (c.ip up data sum ++ b) =
      pseudo (c.source up) (c.source !up) c.proto b.length := by
  rw [Ipv4.pseudoHeader, source_ip, destination_ip, protocol_ip, segment_ip, pseudo]
  congr 2
  simp [putUint, Nat.div_eq_of_lt c.proto.toNat_lt]

/-! ### Validity -/

variable (c data)

/-- The checksum is at an even place of the header. -/
theorem ip_split : ∃ a rest : Bytes, 2 ∣ a.length ∧
    ∀ sum, c.ip up data sum = a ++ (putUint 2 sum ++ rest) := by
  refine ⟨_, _, ?_, fun sum => rfl⟩
  simp

/-- The checksum is at an even place of what it is taken of. -/
theorem payload_split : ∃ a rest : Bytes, 2 ∣ a.length ∧
    ∀ sum, pseudo (c.source up) (c.source !up) c.proto (c.header + data.length) ++
      c.payload state up data flags sum = a ++ (putUint 2 sum ++ rest) := by
  by_cases hudp : c.udp = true
  · refine ⟨pseudo (c.source up) (c.source !up) c.proto (c.header + data.length) ++
      udpHead (c.sourcePort up) (c.sourcePort !up) data, data, ?_, fun sum => ?_⟩
    · simp [pseudo, length_udpHead]
    · rw [payload, if_pos hudp, List.append_assoc]
  · refine ⟨pseudo (c.source up) (c.source !up) c.proto (c.header + data.length) ++
      tcpHead (c.sourcePort up) (c.sourcePort !up) (if up then state.up else state.down)
        (if up then state.down else state.up) flags, [0, 0] ++ data, ?_, fun sum => ?_⟩
    · simp [pseudo, length_tcpHead]
    · rw [payload, if_neg hudp, List.append_assoc]

theorem length_summed : (c.summed state up data flags).length = 12 + c.header + data.length := by
  simp [summed, pseudo]
  omega

end CapturedConn

/-- No addition of `checksum p` overflows, in the first loop and in the second one. -/
def NoOverflow (p : Bytes) : Prop :=
  Exact p 0 ∧ ∀ s : UInt32, (s &&& (65535 : UInt32)).toNat + (s >>> 16).toNat < 2 ^ 32

theorem noOverflow_of_length {p : Bytes} (h : p.length ≤ 131072) : NoOverflow p := by
  refine ⟨exact_of_length h, fun s => ?_⟩
  have hs := s.toNat_lt
  rw [toNat_and, toNat_shiftRight]
  omega

namespace CapturedConn

variable (c : CapturedConn) (state : FlowState) (up : Bool) {data : Bytes} (flags : UInt8)

theorem headerSum_ip (b : Bytes) :
    Ipv4.HeaderSum (c.ip up data (checksum (c.ip up data 0)).toNat ++ b) := by
  have hexact : Exact (c.ip up data 0) 0 := exact_of_length (by rw [length_ip]; decide)
  obtain ⟨a, rest, ha, hsplit⟩ := c.ip_split up data
  rw [Ipv4.HeaderSum, List.take_left' (c.length_ip up data _), onesComplementSum_eq, hsplit]
  rw [hsplit] at hexact ⊢
  exact residue_checksum ha hexact

/-- The checksum field of `emit` makes the sum `65535`, also where it is not the checksum. -/
theorem segmentSum_payload (hexact : Exact (c.summed state up data flags) 0) :
    onesComplementSum
      (pseudo (c.source up) (c.source !up) c.proto (c.header + data.length) ++
        c.payload state up data flags
          (if c.udp ∧ checksum (c.summed state up data flags) = 0 then 65535
            else (checksum (c.summed state up data flags)).toNat)) = 65535 := by
  obtain ⟨a, rest, ha, hsplit⟩ := c.payload_split state up data flags
  rw [summed, hsplit] at *
  rw [onesComplementSum_eq, hsplit]
  split_ifs with hzero
  · exact residue_checksum_ne_zero ha hexact hzero.2
  · exact residue_checksum ha hexact

/-- The length field of a datagram. -/
theorem udpLength_payload (hudp : c.udp = true) (h : data.length + c.header + 20 ≤ 65535)
    (sum : ℕ) :
    Udp.length (c.payload state up data flags sum) = c.header + data.length := by
  rw [header, if_pos hudp] at *
  rw [Udp.length, payload, if_pos hudp, udpHead]
  simp [ByteOrder.field_skip, ByteOrder.big_field_putUint]
  omega

/-- The checksum field of a datagram. -/
theorem udpChecksum_payload (hudp : c.udp = true) {sum : ℕ} (h : sum < 65536) :
    Udp.checksum (c.payload state up data flags sum) = sum := by
  rw [Udp.checksum, payload, if_pos hudp]
  exact (ByteOrder.big.field_append (length_udpHead _ _ _)).trans (Nat.mod_eq_of_lt h)

/-- The packet of `emit`. -/
theorem emit_of_le (h : data.length + c.header + 20 ≤ 65535) :
    c.emit state up data flags =
      some (c.ip up data (checksum (c.ip up data 0)).toNat ++
        c.payload state up data flags
          (if c.udp ∧ checksum (c.summed state up data flags) = 0 then 65535
            else (checksum (c.summed state up data flags)).toNat)) :=
  if_neg (not_lt.2 h)

/-- Synthetic packets are valid. For all addresses, ports, sequence numbers and flags, and
    all data with which the packet fits in 65535 bytes, `emit` makes a packet in which the
    one's complement sum of the header is `0xFFFF`, and so is that of the pseudo-header
    with the segment; the total length, and the length of a datagram, are the real ones;
    the checksum of a datagram is not `0`, which would mean that there is none; and the
    accumulator does not overflow, neither for the header nor for the segment. -/
theorem emit_valid (h : data.length + c.header + 20 ≤ 65535) :
    ∃ b, c.emit state up data flags = some b ∧ b.length = 20 + c.header + data.length ∧
      Ipv4.HeaderSum b ∧ Ipv4.SegmentSum b ∧ Ipv4.totalLength b = b.length ∧
      (c.udp = true → Udp.length (Ipv4.segment b) = (Ipv4.segment b).length ∧
        Udp.checksum (Ipv4.segment b) ≠ 0) ∧
      NoOverflow (c.ip up data 0) ∧ NoOverflow (c.summed state up data flags) := by
  have hheader : NoOverflow (c.ip up data 0) := noOverflow_of_length (by rw [length_ip]; decide)
  have hsummed : NoOverflow (c.summed state up data flags) :=
    noOverflow_of_length (by rw [length_summed]; omega)
  have hlen (sum sum' : ℕ) : (c.ip up data sum ++ c.payload state up data flags sum').length =
      20 + c.header + data.length := by
    rw [List.length_append, length_ip, length_payload, Nat.add_assoc]
  refine ⟨_, c.emit_of_le state up flags h, hlen _ _, c.headerSum_ip up _, ?_, ?_, ?_, hheader,
    hsummed⟩
  · rw [Ipv4.SegmentSum, pseudoHeader_ip, segment_ip, length_payload]
    exact c.segmentSum_payload state up flags hsummed.1
  · rw [hlen, totalLength_ip up _ _ h]
  · intro hudp
    rw [segment_ip, length_payload, udpLength_payload c state up flags hudp h]
    refine ⟨rfl, ?_⟩
    -- A checksum that is zero is written as `65535`.
    by_cases hzero : checksum (c.summed state up data flags) = 0
    · rw [if_pos ⟨hudp, hzero⟩, udpChecksum_payload c state up flags hudp (by decide)]
      decide
    · rw [if_neg fun h => hzero h.2, udpChecksum_payload c state up flags hudp (UInt16.toNat_lt _)]
      exact fun hnat => hzero (UInt16.toNat_inj.1 hnat)

/-- A datagram of three bytes. -/
theorem emit_valid_sample :
    ∃ b, (CapturedConn.mk [8] true 0xC6120001 0xCB007101 1025 53 ∅).emit ⟨1000, 2000⟩ true
        [1, 2, 3] 0 = some b ∧ b.length = 31 ∧ Ipv4.SegmentSum b ∧
      Udp.checksum (Ipv4.segment b) ≠ 0 := by
  obtain ⟨b, hb, hlen, -, hsum, -, hudp, -⟩ :=
    emit_valid (.mk [8] true 0xC6120001 0xCB007101 1025 53 ∅) ⟨1000, 2000⟩ true 0
      (show [1, 2, 3].length + 8 + 20 ≤ 65535 by decide)
  exact ⟨b, hb, hlen, hsum, (hudp rfl).2⟩

end CapturedConn

end QuicLab.DebugCapture
