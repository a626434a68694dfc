import Mathlib.Data.Nat.ModEq
import QuicLab.DebugCapture.Packet

/-!
# Reconstructed flows

A connection proxied for a user is wrapped (`wrap`), so that `record` sees what is read
and written. While a capture of the user runs, `record` gives it a flow of packets that
could have carried the bytes: a handshake when the capture is new to the connection, and
then, piece by piece, segments with their acknowledgements; or one datagram for a call.

* `counter_modEq_iff`: what the source of a flow, made up from a counter, tells of the
  counter;
* `CapturedConn.flow`: the packets of a call, by the arguments given to `emit`, and the
  sequence numbers after it;
* `flows_conversation`: all calls of a capture make up one `Tcp.Conversation`, in which
  each side sends what was recorded in its direction;
* `Flow`: the connection among all that goes on with the captures. The calls of `record`
  come one after another, but the packets of each go out one by one, while others record
  too, and captures start and end.

`flow_replays` says what a running capture has got from the connection.
-/

namespace QuicLab.DebugCapture

open Go Internet

/-! ### Recording a call -/

/-- The arguments of a call of `emit`. -/
structure Emission where
  state : FlowState
  up : Bool
  data : Bytes
  flags : UInt8

/-- The state when one side has sent `n` bytes. -/
def FlowState.advance (up : Bool) (n : ℕ) (s : FlowState) : FlowState :=
  if up then { s with up := s.up + UInt32.ofNat n } else { s with down := s.down + UInt32.ofNat n }

/-- The state of a new flow. -/
def FlowState.initial : FlowState := ⟨1000, 2000⟩

/-- The loop of `record`: pieces of at most 1400 bytes, each one acknowledged. -/
def segmentLoop (up : Bool) (state : FlowState) (p : Bytes) : List Emission × FlowState :=
  if p = [] then ([], state)
  else
    let n := min p.length 1400
    let state' := state.advance up n
    let r := segmentLoop up state' (p.drop n)
    (⟨state, up, p.take n, 24⟩ :: ⟨state', !up, [], 16⟩ :: r.1, r.2)
termination_by p.length
decreasing_by
  have hp : 0 < p.length := List.length_pos_iff.2 ‹_›
  rw [List.length_drop]
  omega

/-- The handshake of `record`. -/
def openFlow : List Emission × FlowState :=
  let s₀ := FlowState.initial
  let s₁ := s₀.advance true 1
  let s₂ := s₁.advance false 1
  ([⟨s₀, true, [], 2⟩, ⟨s₁, false, [], 18⟩, ⟨s₂, true, [], 16⟩], s₂)

namespace CapturedConn

/-- What `record` emits, and the state it leaves, where `o` is the state for the session. -/
def flow (c : CapturedConn) (o : Option FlowState) (up : Bool) (p : Bytes) :
    List Emission × FlowState :=
  let start :=
    match o with
    | some state => ([], state)
    | none => if c.udp then ([], .initial) else openFlow
  if c.udp then (start.1 ++ [⟨start.2, up, p, 0⟩], start.2)
  else
    let r := segmentLoop up start.2 p
    (start.1 ++ r.1, r.2)

/-- The packet of an emission. -/
def packet (c : CapturedConn) (e : Emission) : Option Bytes := c.emit e.state e.up e.data e.flags

/-- `record`, where `UserCapture` returns the session `id`: the packets for the session, and
    the connection after it. -/
def record (c : CapturedConn) (id : Bytes) (up : Bool) (p : Bytes) : List Bytes × CapturedConn :=
  let r := c.flow (c.states.lookup id) up p
  let states := if (c.states.lookup id).isNone then ∅ else c.states
  (r.1.filterMap c.packet, { c with states := states.insert id r.2 })

/-- The comment on each packet. -/
def comment (c : CapturedConn) : Bytes :=
  str "Reconstructed proxy flow; synthetic TCP/IP headers, not wire timing; user=" ++ c.user

/-- A connection that has recorded nothing. -/
def Fresh (c : CapturedConn) : Prop := c.user ≠ [] ∧ c.states = ∅

end CapturedConn

/-- `Wrap`, where `flowCounter` comes to `n`; `none` if the connection is returned as it is. -/
def wrap (n : UInt32) (user network address : Bytes) : Option CapturedConn :=
  if user = [] then none
  else
    match splitHostPort address with
    | none => none
    | some (h, p) =>
      match (parseIP h).bind to4 with
      | none => none
      | some ip =>
        let port := (atoi p).getD 0
        if port < 1 ∨ 65535 < port then none
        else
          some
            { user := user
              udp := (str "udp").isPrefixOf network
              src := BitVec.ofNat 32 (uint [198, 18, (n >>> 16).toUInt8, (n >>> 8).toUInt8])
              dst := ip
              sport := (1024 + n % 64000).toUInt16
              dport := UInt16.ofNat port.toNat
              states := ∅ }

/-- A connection that is wrapped: for a user, from an address and a port that the counter
    determines. -/
theorem wrap_eq_some {n : UInt32} {user network address : Bytes} {c : CapturedConn}
    (h : wrap n user network address = some c) : user ≠ [] ∧ ∃ ip port,
      c = ⟨user, (str "udp").isPrefixOf network,
        BitVec.ofNat 32 (uint [198, 18, (n >>> 16).toUInt8, (n >>> 8).toUInt8]), ip,
        (1024 + n % 64000).toUInt16, port, ∅⟩ := by
  rw [wrap] at h
  split_ifs at h with huser
  split at h
  · cases h
  split at h
  · cases h
  dsimp only at h
  split_ifs at h
  cases h
  exact ⟨huser, _, _, rfl⟩

/-! ### Synthetic sources -/

section Sources

variable {n : UInt32} {user network address : Bytes} {c : CapturedConn}

/-- The address has the bits 8 to 23 of the counter. -/
theorem wrap_src (h : wrap n user network address = some c) :
    c.src.toNat = 0xc6120000 + n.toNat / 2 ^ 8 % 2 ^ 16 := by
  have hx : (n >>> 16).toUInt8.toNat = n.toNat / 2 ^ 16 % 2 ^ 8 := by
    simp [Nat.shiftRight_eq_div_pow]
  have hy : (n >>> 8).toUInt8.toNat = n.toNat / 2 ^ 8 % 2 ^ 8 := by
    simp [Nat.shiftRight_eq_div_pow]
  have hbytes : uint [198, 18, (n >>> 16).toUInt8, (n >>> 8).toUInt8] =
      ((198 * 256 + 18) * 256 + (n >>> 16).toUInt8.toNat) * 256 + (n >>> 8).toUInt8.toNat := by
    simp [uint]
  obtain ⟨_, ip, port, rfl⟩ := wrap_eq_some h
  rw [BitVec.toNat_ofNat, hbytes, hx, hy]
  omega

/-- The port is not cut off. -/
theorem wrap_sport (h : wrap n user network address = some c) : c.sport.toNat = 1024 + n.toNat % 64000 := by
  obtain ⟨_, ip, port, rfl⟩ := wrap_eq_some h
  have hbase : (1024 : UInt32).toNat = 1024 := rfl
  have hrange : (64000 : UInt32).toNat = 64000 := rfl
  rw [UInt32.toNat_toUInt16, UInt32.toNat_add, UInt32.toNat_mod, hbase, hrange]
  omega

/-- Bits 8 to 23 and the rest modulo 64000 = 125 * 2^9 overlap in a bit, so that they
    determine the counter modulo 125 * 2^24. -/
theorem counter_modEq_iff {i j : ℕ} :
    (i / 2 ^ 8 % 2 ^ 16 = j / 2 ^ 8 % 2 ^ 16 ∧ i % 64000 = j % 64000) ↔
      i ≡ j [MOD 125 * 2 ^ 24] := by
  have hcoprime : Nat.Coprime 125 (2 ^ 24) := by decide
  rw [← Nat.modEq_and_modEq_iff_modEq_mul hcoprime]
  constructor
  · rintro ⟨hbits, hport⟩
    have hport : i ≡ j [MOD 64000] := hport
    refine ⟨hport.of_dvd (by decide), ?_⟩
    have hlow : i ≡ j [MOD 2 ^ 8] := hport.of_dvd (by decide)
    show i % (2 ^ 8 * 2 ^ 16) = j % (2 ^ 8 * 2 ^ 16)
    rw [Nat.mod_mul, Nat.mod_mul, hbits, show i % 2 ^ 8 = j % 2 ^ 8 from hlow]
  · rintro ⟨hodd, hbits⟩
    refine ⟨?_, ?_⟩
    · have hmod : i % (2 ^ 8 * 2 ^ 16) = j % (2 ^ 8 * 2 ^ 16) := hbits
      have hdiv := congrArg (· / 2 ^ 8) hmod
      simpa only [Nat.mod_mul_right_div_self] using hdiv
    · have hcoprime' : Nat.Coprime 125 (2 ^ 9) := by decide
      exact (Nat.modEq_and_modEq_iff_modEq_mul hcoprime').1 ⟨hodd, hbits.of_dvd (by decide)⟩

end Sources

/-- Two flows have one source exactly if their counters are a multiple of 125 * 2^24 apart.
    So that many flows in a row have different sources. -/
theorem wrap_source_eq_iff {i j : UInt32} {user network address user' network' address' : Bytes}
    {c d : CapturedConn} (hc : wrap i user network address = some c)
    (hd : wrap j user' network' address' = some d) :
    (c.src = d.src ∧ c.sport = d.sport ↔ (125 * 2 ^ 24 : ℤ) ∣ (i.toNat : ℤ) - j.toNat) ∧
      (∀ k : ℕ, i ≠ j → k ≤ i.toNat → i.toNat < k + 125 * 2 ^ 24 → k ≤ j.toNat →
        j.toNat < k + 125 * 2 ^ 24 → ¬ (c.src = d.src ∧ c.sport = d.sport)) ∧
      c.src.toNat = 198 * 2 ^ 24 + 18 * 2 ^ 16 + i.toNat / 2 ^ 16 % 2 ^ 8 * 2 ^ 8 +
        i.toNat / 2 ^ 8 % 2 ^ 8 ∧
      c.sport.toNat = 1024 + i.toNat % 64000 := by
  have hsrc := wrap_src hc
  have hsport := wrap_sport hc
  have hiff : c.src = d.src ∧ c.sport = d.sport ↔
      (125 * 2 ^ 24 : ℤ) ∣ (i.toNat : ℤ) - j.toNat := by
    rw [← BitVec.toNat_inj, ← UInt16.toNat_inj, hsrc, hsport, wrap_src hd, wrap_sport hd,
      Nat.add_left_cancel_iff, Nat.add_left_cancel_iff, counter_modEq_iff]
    exact Nat.ModEq.comm.trans Nat.modEq_iff_dvd
  refine ⟨hiff, fun k hne hi hi' hj hj' heq => hne ?_, ?_, hsport⟩
  · obtain ⟨m, hm⟩ := hiff.1 heq
    rw [← UInt32.toNat_inj]
    omega
  · rw [hsrc]
    omega

/-- Two flows that share a source. -/
theorem wrap_source_eq_iff_twice : ∃ c d,
    wrap 1 (str "user") (str "tcp") (str "192.0.2.1:443") = some c ∧
    wrap 2097152001 (str "user") (str "tcp") (str "192.0.2.1:443") = some d ∧
    c.src = d.src ∧ c.sport = d.sport := by
  have hc : ∃ c, wrap 1 (str "user") (str "tcp") (str "192.0.2.1:443") = some c := ⟨_, rfl⟩
  have hd : ∃ d, wrap 2097152001 (str "user") (str "tcp") (str "192.0.2.1:443") = some d :=
    ⟨_, rfl⟩
  obtain ⟨c, hc⟩ := hc
  obtain ⟨d, hd⟩ := hd
  exact ⟨c, d, hc, hd, (wrap_source_eq_iff hc hd).1.2 (by decide)⟩

/-! ### The conversation -/

/-- The segment of an emission. -/
def Emission.segment (e : Emission) : Tcp.Segment where
  up := e.up
  seq := if e.up then e.state.up else e.state.down
  ack := if e.flags &&& 16 ≠ 0 then (if e.up then e.state.down else e.state.up) else 0
  flags := e.flags
  data := e.data

/-- The initial sequence numbers. -/
def initialNumber (up : Bool) : UInt32 := if up then 1000 else 2000

/-- The state after a conversation. -/
def FlowState.of (l : List Tcp.Segment) : FlowState :=
  ⟨Tcp.next initialNumber true l, Tcp.next initialNumber false l⟩

theorem openFlow_segments : openFlow.1.map Emission.segment = Tcp.handshake initialNumber := rfl

theorem openFlow_state : openFlow.2 = .of (Tcp.handshake initialNumber) := by
  rw [FlowState.of, Tcp.next, Tcp.next, Tcp.syns_handshake, Tcp.syns_handshake, Tcp.sent_handshake,
    Tcp.sent_handshake]
  rfl

/-- The two emissions of a piece are an exchange. -/
theorem exchange_segments (up : Bool) (l : List Tcp.Segment) (data : Bytes) :
    [(⟨.of l, up, data, 24⟩ : Emission).segment,
      (⟨(FlowState.of l).advance up data.length, !up, [], 16⟩ : Emission).segment] =
      Tcp.exchange initialNumber up data l := by
  cases up <;> simp +decide [Emission.segment, FlowState.of, FlowState.advance, Tcp.exchange]

theorem advance_of (up : Bool) (l : List Tcp.Segment) (data : Bytes) :
    (FlowState.of l).advance up data.length =
      .of (l ++ Tcp.exchange initialNumber up data l) := by
  cases up <;> simp [FlowState.of, FlowState.advance, Tcp.next_exchange]

/-- The conversation goes on with the pieces of a call. -/
theorem segmentLoop_conversation (up : Bool) (p : Bytes) {l : List Tcp.Segment}
    (h : Tcp.Conversation initialNumber 1400 l) :
    ∃ l', l' = l ++ (segmentLoop up (.of l) p).1.map Emission.segment ∧
      Tcp.Conversation initialNumber 1400 l' ∧ (segmentLoop up (.of l) p).2 = .of l' ∧
      ∀ d, Tcp.sent d l' = Tcp.sent d l ++ if d = up then p else [] := by
  induction hn : p.length using Nat.strongRecOn generalizing p l with
  | ind n ih =>
    subst hn
    rw [segmentLoop]
    by_cases hp : p = []
    · subst hp
      exact ⟨l, by simp, h, rfl, fun d => by simp⟩
    · rw [if_neg hp]
      have hpos : 0 < p.length := List.length_pos_iff.2 hp
      have hlen : (p.take (min p.length 1400)).length = min p.length 1400 := by
        rw [List.length_take]
        omega
      -- The first piece, and then the rest from the state after it.
      have hx : Tcp.Conversation initialNumber 1400
          (l ++ Tcp.exchange initialNumber up (p.take (min p.length 1400)) l) := by
        refine h.exchange up (fun hnil => ?_) (by omega)
        rw [hnil, List.length_nil] at hlen
        omega
      obtain ⟨l', hl', hconv, hstate, hsent⟩ :=
        ih (p.drop (min p.length 1400)).length (by rw [List.length_drop]; omega) _ hx rfl
      rw [← advance_of, hlen] at hl' hstate
      refine ⟨l', ?_, hconv, hstate, fun d => ?_⟩
      · rw [hl', ← exchange_segments, hlen]
        simp
      · rw [hsent, Tcp.sent_append, Tcp.sent_exchange, List.append_assoc]
        split_ifs
        · rw [List.take_append_drop]
        · rfl

namespace CapturedConn

/-- What a sequence of calls for one session emits, and the state that it leaves. -/
def flows (c : CapturedConn) (calls : List (Bool × Bytes)) : List Emission × Option FlowState :=
  calls.foldl (fun r call =>
    let f := c.flow r.2 call.1 call.2
    (r.1 ++ f.1, some f.2)) ([], none)

theorem flows_snoc (c : CapturedConn) (calls : List (Bool × Bytes)) (up : Bool) (p : Bytes) :
    c.flows (calls ++ [(up, p)]) =
      ((c.flows calls).1 ++ (c.flow (c.flows calls).2 up p).1,
        some (c.flow (c.flows calls).2 up p).2) := by
  rw [flows, List.foldl_append, List.foldl_cons, List.foldl_nil, ← flows]

/-- The bytes of the calls in a direction. -/
def recordedBytes (up : Bool) (calls : List (Bool × Bytes)) : Bytes :=
  (calls.filter (·.1 = up)).flatMap (·.2)

theorem recordedBytes_snoc (d up : Bool) (p : Bytes) (calls : List (Bool × Bytes)) :
    recordedBytes d (calls ++ [(up, p)]) = recordedBytes d calls ++ if d = up then p else [] := by
  rw [recordedBytes, List.filter_append, List.flatMap_append, ← recordedBytes]
  congr 1
  by_cases hd : d = up
  · simp [hd]
  · simp [hd, Ne.symm hd]

/-- On TCP, the calls of a session make up one conversation. -/
theorem flows_conversation {c : CapturedConn} (hudp : c.udp = false)
    {calls : List (Bool × Bytes)} (hne : calls ≠ []) :
    ∃ l, l = (c.flows calls).1.map Emission.segment ∧ Tcp.Conversation initialNumber 1400 l ∧
      (c.flows calls).2 = some (.of l) ∧ ∀ d, Tcp.sent d l = recordedBytes d calls := by
  induction calls using List.reverseRecOn with
  | nil => exact absurd rfl hne
  | append_singleton calls call ih =>
    obtain ⟨up, p⟩ := call
    rw [flows_snoc]
    -- The conversation before the bytes of this call.
    have start : ∃ l es, l = es.map Emission.segment ∧ Tcp.Conversation initialNumber 1400 l ∧
        (c.flows calls).1 ++ (c.flow (c.flows calls).2 up p).1 =
          es ++ (segmentLoop up (.of l) p).1 ∧
        (c.flow (c.flows calls).2 up p).2 = (segmentLoop up (.of l) p).2 ∧
        ∀ d, Tcp.sent d l = recordedBytes d calls := by
      by_cases hcalls : calls = []
      · subst hcalls
        refine ⟨_, openFlow.1, rfl, openFlow_segments ▸ .handshake, ?_, ?_, fun d => ?_⟩
        · simp [flows, flow, hudp, openFlow_segments, openFlow_state]
        · simp [flows, flow, hudp, openFlow_segments, openFlow_state]
        · rw [openFlow_segments, Tcp.sent_handshake]
          rfl
      · obtain ⟨l, hl, hconv, hstate, hsent⟩ := ih hcalls
        refine ⟨l, (c.flows calls).1, hl, hconv, ?_, ?_, hsent⟩
        · simp [flow, hudp, hstate]
        · simp [flow, hudp, hstate]
    obtain ⟨l, es, hl, hconv, hes, hstate, hsent⟩ := start
    obtain ⟨l', hl', hconv', hstate', hsent'⟩ := segmentLoop_conversation up p hconv
    refine ⟨l', ?_, hconv', ?_, fun d => ?_⟩
    · rw [hes, List.map_append, ← hl, hl']
    · rw [hstate, hstate']
    · rw [hsent', hsent, recordedBytes_snoc]

/-- Every emission on TCP is short. -/
theorem length_of_conversation {l : List Tcp.Segment} (h : Tcp.Conversation initialNumber 1400 l)
    {s : Tcp.Segment} (hs : s ∈ l) : s.data.length ≤ 1400 := by
  by_cases hdata : s.data = []
  · rw [hdata]
    exact Nat.zero_le _
  · obtain ⟨before, after, hl⟩ := List.append_of_mem hs
    exact (h.delivered hl.symm hdata).length

/-! ### What the packets carry -/

/-- What a packet of the connection has on top of its headers. -/
structure Addressed (c : CapturedConn) (up : Bool) (b : Bytes) : Prop where
  protocol : Ipv4.protocol b = c.proto.toNat
  source : Ipv4.source b = (c.source up).toNat
  destination : Ipv4.destination b = (c.source !up).toNat
  sourcePort : Internet.sourcePort (Ipv4.segment b) = (c.sourcePort up).toNat
  destinationPort : Internet.destinationPort (Ipv4.segment b) = (c.sourcePort !up).toNat

/-- The packet carries a segment of TCP. -/
structure Carries (c : CapturedConn) (b : Bytes) (s : Tcp.Segment) : Prop where
  addressed : c.Addressed s.up b
  seq : Tcp.seq (Ipv4.segment b) = s.seq.toNat
  ack : Tcp.ack (Ipv4.segment b) = s.ack.toNat
  flags : Tcp.flags (Ipv4.segment b) = s.flags.toNat
  data : Tcp.data (Ipv4.segment b) = s.data

/-- The packet carries a datagram of UDP. -/
structure CarriesDatagram (c : CapturedConn) (b : Bytes) (call : Bool × Bytes) : Prop where
  addressed : c.Addressed call.1 b
  data : Udp.data (Ipv4.segment b) = call.2

variable (c : CapturedConn)

theorem sourcePort_payload (state : FlowState) (up : Bool) (data : Bytes) (flags : UInt8)
    (sum : ℕ) :
    Internet.sourcePort (c.payload state up data flags sum) = (c.sourcePort up).toNat := by
  have hlt := (c.sourcePort up).toNat_lt
  rw [Internet.sourcePort, payload]
  split_ifs
  all_goals
    simp only [udpHead, tcpHead, List.append_assoc]
    exact (ByteOrder.big.field_zero_append).trans (Nat.mod_eq_of_lt hlt)

theorem destinationPort_payload (state : FlowState) (up : Bool) (data : Bytes) (flags : UInt8)
    (sum : ℕ) :
    Internet.destinationPort (c.payload state up data flags sum) = (c.sourcePort !up).toNat := by
  have hlt := (c.sourcePort !up).toNat_lt
  rw [Internet.destinationPort, payload]
  split_ifs
  all_goals
    simp only [udpHead, tcpHead, List.append_assoc]
    exact (ByteOrder.big.field_append (length_putUint 2 _)).trans (Nat.mod_eq_of_lt hlt)

variable {e : Emission}

/-- The packet of an emission that is not too long. -/
theorem packet_addressed (h : e.data.length + c.header + 20 ≤ 65535) :
    ∃ b sum, c.packet e = some b ∧ b.length = 20 + c.header + e.data.length ∧
      Ipv4.segment b = c.payload e.state e.up e.data e.flags sum ∧ c.Addressed e.up b := by
  refine ⟨_, _, c.emit_of_le e.state e.up e.flags h, ?_, segment_ip _ _ _, protocol_ip _ _ _,
    source_ip _ _ _, destination_ip _ _ _, ?_, ?_⟩
  · rw [List.length_append, length_ip, length_payload, Nat.add_assoc]
  · rw [segment_ip, sourcePort_payload]
  · rw [segment_ip, destinationPort_payload]

theorem seq_tcpHead (sp dp : UInt16) (seq ack : UInt32) (flags : UInt8) (b : Bytes) :
    Tcp.seq (tcpHead sp dp seq ack flags ++ b) = seq.toNat := by
  rw [Tcp.seq, tcpHead]
  simp [ByteOrder.field_skip, ByteOrder.big_field_putUint, Nat.mod_eq_of_lt seq.toNat_lt]

theorem ack_tcpHead (sp dp : UInt16) (seq ack : UInt32) (flags : UInt8) (b : Bytes) :
    Tcp.ack (tcpHead sp dp seq ack flags ++ b) = if flags &&& 16 ≠ 0 then ack.toNat else 0 := by
  rw [Tcp.ack, tcpHead]
  simp only [List.append_assoc, ByteOrder.field_skip, ByteOrder.big_field_putUint, length_putUint,
    Nat.reduceLeDiff, Nat.reduceSub]
  refine Nat.mod_eq_of_lt ?_
  split_ifs
  · exact ack.toNat_lt
  · decide

theorem flags_tcpHead (sp dp : UInt16) (seq ack : UInt32) (flags : UInt8) (b : Bytes) :
    Tcp.flags (tcpHead sp dp seq ack flags ++ b) = flags.toNat := by
  rw [Tcp.flags, tcpHead]
  simp [ByteOrder.field_skip, ByteOrder.field_cons]
  simp [ByteOrder.field, ByteOrder.read, uint]

theorem packet_carries (hudp : c.udp = false) (h : e.data.length ≤ 1400) :
    ∃ b, c.packet e = some b ∧ 0 < b.length ∧ b.length ≤ 65535 ∧ c.Carries b e.segment := by
  have hheader : c.header = 20 := by rw [header, hudp]; rfl
  obtain ⟨b, sum, hb, hlen, hseg, haddr⟩ := c.packet_addressed (e := e) (by omega)
  refine ⟨b, hb, by omega, by omega, haddr, ?_, ?_, ?_, ?_⟩
  all_goals rw [hseg, payload, hudp, if_neg Bool.false_ne_true]
  · exact seq_tcpHead _ _ _ _ _ _
  · rw [ack_tcpHead]
    exact (apply_ite UInt32.toNat (e.flags &&& 16 ≠ 0) _ 0).symm
  · exact flags_tcpHead _ _ _ _ _ _
  · rw [Tcp.data, ← List.append_assoc, ← List.append_assoc]
    exact List.drop_left' (by simp [length_tcpHead])

theorem packet_carriesDatagram (hudp : c.udp = true) (h : e.data.length ≤ 65507) :
    ∃ b, c.packet e = some b ∧ 0 < b.length ∧ b.length ≤ 65535 ∧
      c.CarriesDatagram b (e.up, e.data) := by
  have hheader : c.header = 8 := by rw [header, hudp]; rfl
  obtain ⟨b, sum, hb, hlen, hseg, haddr⟩ := c.packet_addressed (e := e) (by omega)
  refine ⟨b, hb, by omega, by omega, haddr, ?_⟩
  rw [hseg, payload, hudp, if_pos rfl, Udp.data, ← List.append_assoc]
  exact List.drop_left' (by simp [length_udpHead])

/-- A longer datagram does not fit. -/
theorem packet_of_long (hudp : c.udp = true) (h : 65507 < e.data.length) :
    c.packet e = none := by
  refine if_pos ?_
  rw [header, hudp, if_pos rfl]
  omega

/-- The packets of a sequence of calls. -/
def packets (calls : List (Bool × Bytes)) : List Bytes := (c.flows calls).1.filterMap c.packet

theorem packets_conversation (hudp : c.udp = false) {calls : List (Bool × Bytes)}
    (hne : calls ≠ []) :
    ∃ l, Tcp.Conversation initialNumber 1400 l ∧ (∀ d, Tcp.sent d l = recordedBytes d calls) ∧
      List.Forall₂ c.Carries (c.packets calls) l := by
  obtain ⟨l, hl, hconv, -, hsent⟩ := flows_conversation hudp hne
  refine ⟨l, hconv, hsent, ?_⟩
  have hshort : ∀ e ∈ (c.flows calls).1, e.data.length ≤ 1400 := by
    intro e he
    refine length_of_conversation hconv (s := e.segment) ?_
    rw [hl]
    exact List.mem_map_of_mem he
  rw [packets, hl]
  clear hl hconv hsent
  generalize (c.flows calls).1 = es at *
  induction es with
  | nil => exact .nil
  | cons e es ih =>
    obtain ⟨b, hb, -, -, hcarries⟩ := c.packet_carries hudp (hshort e List.mem_cons_self)
    rw [List.filterMap_cons_some hb, List.map_cons]
    exact .cons hcarries (ih fun e' he' => hshort e' (List.mem_cons_of_mem e he'))

/-- On UDP, each call is an emission of its own. -/
theorem flows_udp (hudp : c.udp = true) (calls : List (Bool × Bytes)) :
    List.Forall₂ (fun (e : Emission) call => (e.up, e.data) = call) (c.flows calls).1 calls := by
  induction calls using List.reverseRecOn with
  | nil => exact .nil
  | append_singleton calls call ih =>
    rw [flows_snoc]
    refine List.rel_append ih ?_
    cases (c.flows calls).2 with
    | none => simp [flow, hudp]
    | some state => simp [flow, hudp]

theorem packets_udp (hudp : c.udp = true) (calls : List (Bool × Bytes)) :
    List.Forall₂ c.CarriesDatagram (c.packets calls)
      (calls.filter fun call => call.2.length ≤ 65507) := by
  have h := c.flows_udp hudp calls
  rw [packets]
  generalize (c.flows calls).1 = es at h ⊢
  induction h with
  | nil => exact .nil
  | @cons e call es calls he _ ih =>
    subst he
    by_cases hlen : e.data.length ≤ 65507
    · obtain ⟨b, hb, -, -, hcarries⟩ := c.packet_carriesDatagram hudp hlen
      rw [List.filterMap_cons_some hb, List.filter_cons_of_pos (by simpa using hlen)]
      exact .cons hcarries ih
    · rw [List.filterMap_cons_none (c.packet_of_long hudp (not_le.1 hlen)),
        List.filter_cons_of_neg (by simpa using hlen)]
      exact ih

/-- A packet is not empty, and not too long for `packetAt`. -/
theorem length_of_packet {b : Bytes} (h : c.packet e = some b) :
    0 < b.length ∧ b.length ≤ 65535 := by
  by_cases hlen : e.data.length + c.header + 20 ≤ 65535
  · obtain ⟨b', -, hb', hlen', -⟩ := c.packet_addressed hlen
    cases hb'.symm.trans h
    omega
  · rw [packet, emit, if_pos (not_le.1 hlen)] at h
    cases h

end CapturedConn

/-! ### Captures of a user -/

theorem Session.later_packetAt (p comment : Bytes) (us : ℕ) (now : Time) (s : Session) :
    s.Later (s.packetAt p comment us now) := by
  rw [packetAt]
  split_ifs
  · exact .refl s
  · exact (s.quiet_emit now _).toLater

/-- A session comes into the table only when it is ready. -/
theorem Manager.start_failed (owner kind user : Bytes) (e : Error) (now : Time) (id : Bytes)
    (m : Manager) : ∃ e', (m.start owner kind user (.failed e) now id).1 = .error e' := by
  unfold start
  split_ifs
  · exact ⟨_, rfl⟩
  · exact ⟨_, rfl⟩
  · exact ⟨_, rfl⟩
  dsimp only
  split_ifs
  · exact ⟨_, rfl⟩
  split
  · exact ⟨_, rfl⟩
  · exact ⟨e, rfl⟩

namespace Recordings

variable {w w' : Recordings}

/-- The sessions that exist become later ones; or one is made, for a user of whom no other
    is running, if it is for a user. -/
theorem step_moves {a : Label} (h : w.step a = some w') :
    (∃ t, w.manager.Moves t w'.manager) ∨
    ∃ id s, w.session id = none ∧ w.manager.Makes id s w'.manager ∧
      (s.user ≠ [] → ∀ id' s', id' ≠ id → w'.manager.find id' = some s' → s'.user = s.user →
        s'.state ≠ .running) := by
  cases a with
  | call c now random result ports =>
    obtain ⟨hallowed, -, -, rfl⟩ := step_call h
    rcases Manager.apply_cases c now random w.manager with
      hmoves | ⟨owner, kind, user, -, -, -, -, ⟨startup, rfl⟩ | ⟨iface, ip, visited, rfl, -⟩⟩
    · exact .inl ⟨_, hmoves⟩
    · rcases Manager.start_cases owner kind user startup now random w.manager with
        ⟨_, -, hmoves⟩ | ⟨hok, huser, -, s, hs, hmakes⟩
      · exact .inl ⟨none, hmoves⟩
      · refine .inr ⟨random, s, ?_, hmakes, fun hne => absurd (hs.user.trans huser) hne⟩
        cases startup with
        | failed e =>
          obtain ⟨e', he'⟩ := w.manager.start_failed owner kind user e now random
          rw [he'] at hok
          cases hok
        | ready link t events => exact hallowed.1
    · rcases Manager.startUser_cases owner user iface ip visited now random w.manager with
        ⟨_, -, hmoves⟩ | ⟨-, -, hother, s, hs, hmakes⟩
      · exact .inl ⟨none, hmoves⟩
      · refine .inr ⟨random, s, hallowed, hmakes, fun _ id' s' hne hs' huser => ?_⟩
        exact hother id' s' hne hs' (huser.trans hs.user)
  | packetAt id p comment us now =>
    cases h
    exact .inl ⟨_, Manager.moves_modify id (Session.later_packetAt p comment us now) w.manager⟩
  | keyLog port udp p selected =>
    obtain ⟨-, rfl⟩ := step_keyLog h
    exact .inl ⟨none, .refl none w.manager⟩
  | write id p =>
    cases h
    exact .inl ⟨none, .refl none w.manager⟩
  | keyWrite i id p =>
    obtain ⟨targets, s, -, -, rfl⟩ := step_keyWrite h
    exact .inl ⟨_, Manager.moves_modify id (fun s => (s.quiet_write p).toLater) w.manager⟩
  | keyEmit i id now =>
    obtain ⟨p, targets, -, rfl⟩ := step_keyEmit h
    exact .inl ⟨_, Manager.moves_modify id (fun s => (s.quiet_emit now _).toLater) w.manager⟩
  | view id a =>
    obtain ⟨s, t, -, -, -, -, rfl⟩ := step_view h
    exact .inl ⟨none, .refl none w.manager⟩

/-- A session is new, or it is a later one. -/
theorem step_old {a : Label} (h : w.step a = some w') {id : Bytes} {s' : Session}
    (hs' : w'.session id = some s') :
    w.session id = none ∨ ∃ s, w.session id = some s ∧ s.Later s' := by
  rcases step_moves h with ⟨t, hmoves⟩ | ⟨id', s, hnone, ⟨rest, hmoves, -, -, hrest⟩, -⟩
  · obtain ⟨s, hs, hlater, -⟩ := hmoves.old id s' hs'
    exact .inr ⟨s, hs, hlater⟩
  · rw [session, hrest, Map.lookup_insert'] at hs'
    by_cases hid : id = id'
    · subst hid
      exact .inl hnone
    · rw [if_neg hid] at hs'
      obtain ⟨s, hs, hlater, -⟩ := hmoves.old id s' hs'
      exact .inr ⟨s, hs, hlater⟩

/-- The session is one that `UserCapture` may return for its user. -/
def Live (id : Bytes) (s : Session) (w : Recordings) : Prop :=
  w.session id = some s ∧ s.retained = true ∧ s.state = .running

/-- At most one capture of a user is running. -/
def Single (w : Recordings) : Prop :=
  ∀ id id' s s', w.Live id s → w.Live id' s' → s.user = s'.user → s.user ≠ [] → id = id'

theorem Single.step (hw : w.Single) {a : Label} (h : w.step a = some w') : w'.Single := by
  rintro id₁ id₂ s₁ s₂ ⟨h₁, hr₁, hrun₁⟩ ⟨h₂, hr₂, hrun₂⟩ huser hne
  -- Two sessions that were there before.
  have old : ∀ {t : Option Bytes} {m : Manager}, w.manager.Moves t m →
      m.sessions.lookup id₁ = some s₁ → m.sessions.lookup id₂ = some s₂ → id₁ = id₂ := by
    intro t m hmoves hl₁ hl₂
    obtain ⟨t₁, ht₁, later₁, -⟩ := hmoves.old id₁ s₁ hl₁
    obtain ⟨t₂, ht₂, later₂, -⟩ := hmoves.old id₂ s₂ hl₂
    refine hw id₁ id₂ t₁ t₂ ⟨ht₁, later₁.retained hr₁, later₁.running hrun₁⟩
      ⟨ht₂, later₂.retained hr₂, later₂.running hrun₂⟩ ?_ (later₁.user ▸ hne)
    rw [← later₁.user, ← later₂.user, huser]
  rcases step_moves h with ⟨t, hmoves⟩ | ⟨id, s, -, ⟨rest, hmoves, -, -, hrest⟩, hother⟩
  · exact old hmoves h₁ h₂
  · have hlookup : ∀ id', w'.session id' =
        if id' = id then some s else rest.sessions.lookup id' := by
      intro id'
      rw [session, hrest, Map.lookup_insert']
    have hfind₁ : w'.manager.find id₁ = some s₁ := Option.filter_eq_some_iff.2 ⟨h₁, hr₁⟩
    have hfind₂ : w'.manager.find id₂ = some s₂ := Option.filter_eq_some_iff.2 ⟨h₂, hr₂⟩
    rw [hlookup] at h₁ h₂
    by_cases hid₁ : id₁ = id
    · by_cases hid₂ : id₂ = id
      · rw [hid₁, hid₂]
      · rw [if_pos hid₁] at h₁
        cases h₁
        exact absurd hrun₂ (hother hne id₂ s₂ hid₂ hfind₂ huser.symm)
    · rw [if_neg hid₁] at h₁
      by_cases hid₂ : id₂ = id
      · rw [if_pos hid₂] at h₂
        cases h₂
        exact absurd hrun₁ (hother (huser ▸ hne) id₁ s₁ hid₁ hfind₁ huser)
      · rw [if_neg hid₂] at h₂
        exact old hmoves h₁ h₂

/-- The blocks of a session, none if there is no session. -/
def blocks (id : Bytes) (w : Recordings) : List Bytes := ((w.session id).map (·.blocks)).getD []

end Recordings

/-! ### The connection among the captures -/

/-- A connection and the captures: the packets that the call of `record` under way has still
    to give to its session, and what each session has got from the connection so far. -/
structure Flow where
  world : Recordings
  conn : CapturedConn
  pending : List (Bytes × Bytes)
  recorded : Bytes → List Bytes

namespace Flow

/-- A step: of the captures; a call of `record`, with the session that `UserCapture`
    returns; or the next packet of the call. -/
inductive Label
  | other (a : Recordings.Label)
  | record (up : Bool) (p : Bytes) (found : Option Bytes)
  | put (us : ℕ) (now : Time)

/-- The steps. The calls of `record` come one after another. What a session gets from the
    connection is what is new in it after a packet was put. -/
inductive Step (f : Flow) : Label → Flow → Prop
  | other {a : Recordings.Label} {w' : Recordings} : f.world.step a = some w' →
      Step f (.other a) { f with world := w' }
  | record {id : Bytes} (up : Bool) (p : Bytes) : f.pending = [] →
      f.world.manager.IsUserCapture f.conn.user id →
      Step f (.record up p (some id))
        { f with
          conn := (f.conn.record id up p).2
          pending := (f.conn.record id up p).1.map (id, ·) }
  | ignored (up : Bool) (p : Bytes) : f.pending = [] →
      (∀ id, ¬ f.world.manager.IsUserCapture f.conn.user id) → Step f (.record up p none) f
  | put {id p : Bytes} {rest : List (Bytes × Bytes)} {w' : Recordings} (us : ℕ) (now : Time) :
      f.pending = (id, p) :: rest →
      f.world.step (.packetAt id p f.conn.comment us now) = some w' →
      Step f (.put us now)
        { f with
          world := w'
          pending := rest
          recorded := Function.update f.recorded id
            (f.recorded id ++ (w'.blocks id).drop (f.world.blocks id).length) }

/-- A connection that is made when nothing has been captured yet. -/
def system : System Flow Label where
  init f := (∃ c, f.world = .new c) ∧ f.conn.Fresh ∧ f.pending = [] ∧ f.recorded = fun _ => []
  step := Step

/-- The call of `record` for the session `id` that a step makes. -/
def Label.call (id : Bytes) : Label → Option (Bool × Bytes)
  | .record up p (some id') => if id' = id then some (up, p) else none
  | _ => none

/-- The calls of `record` for a session. -/
def calls (id : Bytes) (as : List Label) : List (Bool × Bytes) := as.filterMap (Label.call id)

/-- The block is that of the packet, at some time. -/
def IsBlock (c : CapturedConn) (b p : Bytes) : Prop := ∃ us, b = commentedBlock p c.comment us

/-- The session `id` gets the packets of the calls for it. -/
def Follows (id : Bytes) (as : List Label) (f : Flow) : Prop :=
  ∃ done, List.Forall₂ (IsBlock f.conn) (f.recorded id) done ∧
    done ++ (f.pending.filter (·.1 = id)).map (·.2) = f.conn.packets (calls id as)

/-- What holds after the steps `as`. A session that is not there has got nothing; the state
    kept for the running capture of the user is the one after its calls; and as long as a
    capture is running, it gets every packet. -/
structure Inv (as : List Label) (f : Flow) : Prop where
  single : f.world.Single
  user : f.conn.user ≠ []
  absent : ∀ id, f.world.session id = none → calls id as = [] ∧ f.recorded id = [] ∧
    f.conn.states.lookup id = none ∧ ∀ x ∈ f.pending, x.1 ≠ id
  state : ∀ id s, f.world.Live id s → s.user = f.conn.user →
    f.conn.states.lookup id = (f.conn.flows (calls id as)).2
  recorded : ∀ id s, f.world.session id = some s → s.state = .running → f.Follows id as
  short : ∀ x ∈ f.pending, 0 < x.2.length ∧ x.2.length ≤ 65535

variable {f f' : Flow} {as : List Label}

theorem Inv.init (h : system.init f) : Inv [] f := by
  obtain ⟨⟨c, hw⟩, ⟨huser, hstates⟩, hpending, hrecorded⟩ := h
  have hnone : ∀ id, f.world.session id = none := by
    intro id
    rw [hw]
    rfl
  refine ⟨?_, huser, ?_, ?_, ?_, ?_⟩
  · rintro id id' s s' ⟨hs, -⟩
    rw [hnone] at hs
    cases hs
  · intro id _
    rw [hrecorded, hstates, hpending]
    exact ⟨rfl, rfl, rfl, List.forall_mem_nil _⟩
  · rintro id s ⟨hs, -⟩
    rw [hnone] at hs
    cases hs
  · intro id s hs
    rw [hnone] at hs
    cases hs
  · rw [hpending]
    exact List.forall_mem_nil _

theorem calls_snoc (id : Bytes) (as : List Label) (a : Label) :
    calls id (as ++ [a]) = calls id as ++ (a.call id).toList := by
  rw [calls, List.filterMap_append, ← calls]
  cases h : a.call id <;> simp [h]

variable {a : Recordings.Label} {id : Bytes} {w' : Recordings}

/-- A step of the captures, as the connection sees it. -/
theorem Inv.session_cases (h : Inv as f) (hstep : f.world.step a = some w') {s' : Session}
    (hs' : w'.session id = some s') :
    (calls id as = [] ∧ f.recorded id = [] ∧ f.conn.states.lookup id = none ∧
      ∀ x ∈ f.pending, x.1 ≠ id) ∨
    ∃ s, f.world.session id = some s ∧ s.Later s' := by
  rcases Recordings.step_old hstep hs' with hnone | hold
  · exact .inl (h.absent id hnone)
  · exact .inr hold

theorem Inv.state_step (h : Inv as f) (hstep : f.world.step a = some w') {s' : Session}
    (hs' : w'.Live id s') (huser : s'.user = f.conn.user) :
    f.conn.states.lookup id = (f.conn.flows (calls id as)).2 := by
  obtain ⟨hs', hr, hrun⟩ := hs'
  rcases h.session_cases hstep hs' with ⟨hcalls, -, hlookup, -⟩ | ⟨s, hs, hlater⟩
  · rw [hcalls, hlookup]
    rfl
  · exact h.state id s ⟨hs, hlater.retained hr, hlater.running hrun⟩ (hlater.user ▸ huser)

theorem session_none_of_step {w w' : Recordings} (hstep : w.step a = some w')
    (hnone : w'.session id = none) :
    w.session id = none := by
  cases hs : w.session id with
  | none => rfl
  | some s =>
    obtain ⟨s', hs'⟩ := Recordings.step_kept hstep hs
    rw [hnone] at hs'
    cases hs'

/-- A session to which nothing was recorded follows. -/
theorem follows_nil (hcalls : calls id as = []) (hrecorded : f.recorded id = [])
    (hpending : ∀ x ∈ f.pending, x.1 ≠ id) : f.Follows id as := by
  have hfilter : f.pending.filter (·.1 = id) = [] := by
    simpa using fun x y hx hid => hpending (x, y) hx hid
  refine ⟨[], ?_, ?_⟩
  · rw [hrecorded]
    exact .nil
  · rw [hfilter, hcalls]
    rfl

theorem Inv.other (h : Inv as f) (hstep : f.world.step a = some w') :
    Inv (as ++ [.other a]) { f with world := w' } := by
  have hcalls (id : Bytes) : calls id (as ++ [.other a]) = calls id as := by
    rw [calls_snoc]
    exact List.append_nil _
  refine ⟨h.single.step hstep, h.user, fun id hnone => ?_, fun id s' hs' huser => ?_,
    fun id s' hs' hrun => ?_, h.short⟩
  · rw [hcalls]
    exact h.absent id (session_none_of_step hstep hnone)
  · rw [hcalls]
    exact h.state_step hstep hs' huser
  · rw [Follows, hcalls]
    rcases h.session_cases hstep hs' with ⟨hnil, hrecorded, -, hpending⟩ | ⟨s, hs, hlater⟩
    · exact follows_nil hnil hrecorded hpending
    · exact h.recorded id s hs (hlater.running hrun)

/-- What a session has got when it still runs after a packet. -/
theorem packetAt_of_running {s : Session} {p comment : Bytes} {us : ℕ} {now : Time}
    (hp : 0 < p.length ∧ p.length ≤ 65535) (hrun : (s.packetAt p comment us now).state = .running) :
    (s.packetAt p comment us now).blocks = s.blocks ++ [commentedBlock p comment us] := by
  have hlen : ¬ (p.length = 0 ∨ 65535 < p.length) := by omega
  rw [Session.packetAt, if_neg hlen, Session.emit] at hrun ⊢
  split_ifs at hrun ⊢ with hend hmax
  · exact absurd hrun hend
  · rfl

theorem Inv.put (h : Inv as f) {id p : Bytes} {rest : List (Bytes × Bytes)} {us : ℕ} {now : Time}
    (hpending : f.pending = (id, p) :: rest)
    (hstep : f.world.step (.packetAt id p f.conn.comment us now) = some w') :
    Inv (as ++ [.put us now])
      { f with
        world := w'
        pending := rest
        recorded := Function.update f.recorded id
          (f.recorded id ++ (w'.blocks id).drop (f.world.blocks id).length) } := by
  have hcalls (id : Bytes) : calls id (as ++ [.put us now]) = calls id as := by
    rw [calls_snoc]
    exact List.append_nil _
  have hmem : ∀ x ∈ rest, x ∈ f.pending := by
    intro x hx
    rw [hpending]
    exact List.mem_cons_of_mem _ hx
  have hhead : (id, p) ∈ f.pending := hpending ▸ List.mem_cons_self
  refine ⟨h.single.step hstep, h.user, fun id' hnone => ?_, fun id' s' hs' huser => ?_,
    fun id' s' hs' hrun => ?_, fun x hx => h.short x (hmem x hx)⟩
  · obtain ⟨hnil, hrecorded, hlookup, hne⟩ := h.absent id' (session_none_of_step hstep hnone)
    have hid : id' ≠ id := fun hid => hne _ hhead hid.symm
    refine ⟨(hcalls id').trans hnil, ?_, hlookup, fun x hx => hne x (hmem x hx)⟩
    exact (Function.update_of_ne hid _ _).trans hrecorded
  · rw [hcalls]
    exact h.state_step hstep hs' huser
  · rw [Follows, hcalls]
    by_cases hid : id' = id
    · subst hid
      -- The session is there, since it was found, and gets the packet, since it still runs.
      rcases h.session_cases hstep hs' with ⟨-, -, -, hne⟩ | ⟨s, hs, hlater⟩
      · exact absurd rfl (hne _ hhead)
      obtain ⟨done, hdone, heq⟩ := h.recorded id' s hs (hlater.running hrun)
      have hs'' : s' = s.packetAt p f.conn.comment us now := by
        cases hstep
        rw [Recordings.session, Manager.lookup_modify,
          show f.world.manager.sessions.lookup id' = some s from hs] at hs'
        simpa using hs'.symm
      have hblocks : (w'.blocks id').drop (f.world.blocks id').length =
          [commentedBlock p f.conn.comment us] := by
        rw [Recordings.blocks, Recordings.blocks, hs, hs']
        simp only [Option.map_some, Option.getD_some]
        rw [hs'', packetAt_of_running (h.short _ hhead) (hs'' ▸ hrun), List.drop_left]
      refine ⟨done ++ [p], ?_, ?_⟩
      · simp only [Function.update_self, hblocks]
        exact List.rel_append hdone (.cons ⟨us, rfl⟩ .nil)
      · rw [hpending] at heq
        simpa using heq
    · have hfilter : f.pending.filter (·.1 = id') = rest.filter (·.1 = id') := by
        rw [hpending, List.filter_cons_of_neg (by simpa using Ne.symm hid)]
      simp only [Function.update_of_ne hid]
      rw [← hfilter]
      rcases h.session_cases hstep hs' with ⟨hnil, hrecorded, -, hne⟩ | ⟨s, hs, hlater⟩
      · exact follows_nil hnil hrecorded hne
      · exact h.recorded id' s hs (hlater.running hrun)

theorem Inv.record (h : Inv as f) (up : Bool) (p : Bytes) (hidle : f.pending = [])
    (hfound : f.world.manager.IsUserCapture f.conn.user id) :
    Inv (as ++ [.record up p (some id)])
      { f with
        conn := (f.conn.record id up p).2
        pending := (f.conn.record id up p).1.map (id, ·) } := by
  obtain ⟨s, hfind, huser, -, hrun⟩ := hfound
  obtain ⟨hs, hr⟩ := Option.filter_eq_some_iff.1 hfind
  have hlookup : f.conn.states.lookup id = (f.conn.flows (calls id as)).2 :=
    h.state id s ⟨hs, hr, hrun⟩ huser
  have hcalls : calls id (as ++ [.record up p (some id)]) = calls id as ++ [(up, p)] := by
    rw [calls_snoc, Label.call, if_pos rfl]
    rfl
  have hcalls' {id' : Bytes} (hne : id' ≠ id) :
      calls id' (as ++ [.record up p (some id)]) = calls id' as := by
    rw [calls_snoc, Label.call, if_neg hne.symm]
    exact List.append_nil _
  refine ⟨h.single, h.user, fun id' hnone => ?_, fun id' s' hs' huser' => ?_,
    fun id' s' hs' hrun' => ?_, ?_⟩
  · have hne : id' ≠ id := by
      rintro rfl
      exact absurd (hnone.symm.trans hs) (fun h => by cases h)
    obtain ⟨hnil, hrecorded, hnone', -⟩ := h.absent id' hnone
    refine ⟨(hcalls' hne).trans hnil, hrecorded, ?_, ?_⟩
    · rw [CapturedConn.record, Map.lookup_insert', if_neg hne]
      split_ifs
      · rfl
      · exact hnone'
    · intro x hx
      obtain ⟨b, -, rfl⟩ := List.mem_map.1 hx
      exact hne.symm
  · obtain rfl := h.single id' id s' s hs' ⟨hs, hr, hrun⟩ (huser'.trans huser.symm)
      (fun hnil => h.user (huser'.symm.trans hnil))
    rw [hcalls, CapturedConn.record, Map.lookup_insert', if_pos rfl, hlookup]
    exact (congrArg Prod.snd (f.conn.flows_snoc (calls id' as) up p)).symm
  · by_cases hid : id' = id
    · subst hid
      obtain ⟨done, hdone, heq⟩ := h.recorded id' s hs hrun
      rw [hidle, List.filter_nil, List.map_nil, List.append_nil] at heq
      refine ⟨done, hdone, ?_⟩
      have hnew : f.conn.packets (calls id' as ++ [(up, p)]) =
          f.conn.packets (calls id' as) ++ (f.conn.record id' up p).1 := by
        rw [CapturedConn.packets, CapturedConn.flows_snoc, List.filterMap_append,
          CapturedConn.record, hlookup, CapturedConn.packets]
      rw [hcalls, heq]
      refine Eq.trans ?_ hnew.symm
      simp [List.filter_map]
    · obtain ⟨done, hdone, heq⟩ := h.recorded id' s' hs' hrun'
      rw [hidle, List.filter_nil, List.map_nil, List.append_nil] at heq
      refine ⟨done, hdone, ?_⟩
      have hfilter : ((f.conn.record id up p).1.map (id, ·)).filter (·.1 = id') = [] := by
        simp [Ne.symm hid]
      rw [hcalls' hid]
      simp only [hfilter, List.map_nil, List.append_nil]
      exact heq
  · intro x hx
    obtain ⟨b, hb, rfl⟩ := List.mem_map.1 hx
    obtain ⟨e, -, he⟩ := List.mem_filterMap.1 hb
    exact f.conn.length_of_packet he

theorem Inv.step (h : Inv as f) {a : Label} (hstep : Step f a f') : Inv (as ++ [a]) f' := by
  cases hstep with
  | other hw => exact h.other hw
  | record up p hidle hfound => exact h.record up p hidle hfound
  | ignored up p hidle hnone =>
    have hcalls (id : Bytes) : calls id (as ++ [.record up p none]) = calls id as := by
      rw [calls_snoc]
      exact List.append_nil _
    refine ⟨h.single, h.user, fun id hs => ?_, fun id s hs hu => ?_, fun id s hs hrun => ?_,
      h.short⟩
    · rw [hcalls]
      exact h.absent id hs
    · rw [hcalls]
      exact h.state id s hs hu
    · rw [Follows, hcalls]
      exact h.recorded id s hs hrun
  | put us now hpending hw => exact h.put hpending hw

theorem inv_of_run (h : system.Run as f) : Inv as f :=
  h.invariant (P := Inv) (fun _ => Inv.init) fun _ _ _ _ hinv hstep => hinv.step hstep

/-- The segments of a flow replay the calls. -/
structure Replays (calls : List (Bool × Bytes)) (l : List Tcp.Segment) : Prop where
  /-- It begins with the three-way handshake. -/
  handshake : ∃ rest, l =
    [⟨true, 1000, 0, 2, []⟩, ⟨false, 2000, 1001, 18, []⟩, ⟨true, 1001, 2001, 16, []⟩] ++ rest
  /-- What is sent in each direction is what was recorded. -/
  payload : ∀ up, (l.filter (·.up = up)).flatMap (·.data) =
    (calls.filter (·.1 = up)).flatMap (·.2)
  /-- A segment of data is short, it is numbered by the bytes before it, and it is
      acknowledged at once. -/
  data : ∀ before s after, l = before ++ s :: after → s.data ≠ [] →
    s.data.length ≤ 1400 ∧
    s.seq.toNat = ((initialNumber s.up).toNat + 1 + (Tcp.sent s.up before).length) % 2 ^ 32 ∧
    ∃ a rest, after = a :: rest ∧ a.up = !s.up ∧ a.flags = 16 ∧ a.data = [] ∧
      a.ack.toNat = (s.seq.toNat + s.data.length) % 2 ^ 32
  /-- After the first, each segment acknowledges what the other side has sent. -/
  ack : ∀ before s after, l = before ++ s :: after → before ≠ [] →
    s.flags &&& 16 ≠ 0 ∧ s.ack = Tcp.next initialNumber (!s.up) before

theorem replays_of_conversation {calls : List (Bool × Bytes)} {l : List Tcp.Segment}
    (h : Tcp.Conversation initialNumber 1400 l)
    (hsent : ∀ d, Tcp.sent d l = CapturedConn.recordedBytes d calls) : Replays calls l := by
  refine ⟨?_, hsent, fun before s after hl hs => ?_, fun before s after hl hb => ?_⟩
  · obtain ⟨rest, hrest⟩ := h.handshake_prefix
    exact ⟨rest, hrest.symm⟩
  · obtain ⟨hlen, hseq, a, ha, hup, hflags, hdata, hack⟩ := h.delivered hl.symm hs
    obtain ⟨rest, rfl⟩ := List.head?_eq_some_iff.1 ha
    refine ⟨hlen, ?_, a, rest, rfl, hup, hflags, hdata, ?_⟩
    · rw [hseq, UInt32.toNat_add, UInt32.toNat_ofNat', Nat.add_mod_mod, Nat.add_assoc]
    · rw [hack, UInt32.toNat_add, UInt32.toNat_ofNat', Nat.add_mod_mod]
  · exact h.acknowledges hl.symm hb

/-! ### A run to the end of a call -/

theorem length_commentedBlock_le (p comment : Bytes) (us : ℕ) :
    (commentedBlock p comment us).length ≤ p.length + comment.length + 60 := by
  simp only [commentedBlock, block, putUintLE, List.length_append, List.length_reverse,
    length_putUint, List.length_replicate, List.length_cons, List.length_nil]
  omega

/-- A session with enough room takes the packet. -/
theorem packetAt_running {s : Session} {p comment : Bytes} {us : ℕ} {now : Time}
    (hrun : s.state = .running) (hmax : s.bytes + p.length + comment.length + 60 ≤ maxBytes) :
    (s.packetAt p comment us now).state = .running ∧
      (s.packetAt p comment us now).bytes ≤ s.bytes + p.length + comment.length + 60 := by
  have hlen := length_commentedBlock_le p comment us
  rw [Session.packetAt]
  split_ifs
  · exact ⟨hrun, by omega⟩
  · rw [Session.emit, if_neg (not_not.2 hrun), if_neg (by omega)]
    exact ⟨hrun, by dsimp only; omega⟩

/-- The call of `record` ends, and the capture runs on if there is room for its packets. -/
theorem run_puts {room : ℕ}
    (hroom : ∀ x ∈ f.pending, x.1 = id ∧ x.2.length + f.conn.comment.length + 60 ≤ room)
    (h : system.Run as f) {s : Session} (hs : f.world.session id = some s)
    (hrun : s.state = .running) (hmax : s.bytes + f.pending.length * room ≤ maxBytes) :
    ∃ as' f' s', system.Run (as ++ as') f' ∧ f'.pending = [] ∧ f'.conn = f.conn ∧
      f'.world.session id = some s' ∧ s'.state = .running ∧
      ∀ id', calls id' (as ++ as') = calls id' as := by
  induction hn : f.pending generalizing as f s with
  | nil =>
    refine ⟨[], f, s, ?_, hn, rfl, hs, hrun, fun id' => ?_⟩
    · rwa [List.append_nil]
    · rw [List.append_nil]
  | cons x rest ih =>
    obtain ⟨id', p⟩ := x
    obtain ⟨rfl, hp⟩ := hroom (id', p) (by rw [hn]; exact List.mem_cons_self)
    have hstep : Step f (.put 0 0) _ := .put 0 0 hn rfl
    rw [hn, List.length_cons, Nat.succ_mul] at hmax
    dsimp only at hp
    obtain ⟨hrun', hbytes⟩ : (s.packetAt p f.conn.comment 0 0).state = .running ∧
        (s.packetAt p f.conn.comment 0 0).bytes ≤
          s.bytes + p.length + f.conn.comment.length + 60 :=
      packetAt_running hrun (by omega)
    have hsession : Recordings.session id'
        { f.world with
          manager := f.world.manager.modify id' (Session.packetAt p f.conn.comment 0 0) } =
        some (s.packetAt p f.conn.comment 0 0) := by
      rw [Recordings.session, Manager.lookup_modify,
        show f.world.manager.sessions.lookup id' = some s from hs, Option.map_some, if_pos rfl]
    have hrest : ∀ x ∈ rest, x.1 = id' ∧ x.2.length + f.conn.comment.length + 60 ≤ room := by
      intro x hx
      exact hroom x (by rw [hn]; exact List.mem_cons_of_mem _ hx)
    obtain ⟨as', f', s', hrun'', hidle, hconn, hs', hrunning, hcalls⟩ :=
      ih hrest (h.step hstep) hsession hrun' (by dsimp only; omega) rfl
    refine ⟨.put 0 0 :: as', f', s', ?_, hidle, hconn, hs', hrunning, fun id => ?_⟩
    · rwa [List.append_cons]
    · rw [List.append_cons, hcalls, calls_snoc]
      exact List.append_nil _

/-- A connection of the user `8` to a web server. -/
def sampleConn : CapturedConn := ⟨[8], false, 0xC6120001, 0xCB007101, 1025, 80, ∅⟩

/-- A capture of the user is started, and three bytes are recorded. -/
theorem sample_run : ∃ (as : List Label) (f : Flow) (s : Session), system.Run as f ∧
    f.pending = [] ∧ f.conn.udp = false ∧ f.world.session [1] = some s ∧ s.state = .running ∧
    calls [1] as = [(true, [71, 69, 84])] := by
  -- The capture is started, with its first block.
  obtain ⟨w, hw, hs⟩ : ∃ w, (Recordings.new ⟨str "eth0", 4000, ∅, 2, str "/usr/sbin/tcpdump"⟩).step
      (.call (.startUser [7] [8] [] [] fun _ => true) 0 [1] (.ok [1]) (0, 0)) = some w ∧
      w.session [1] =
        some ((Session.fresh [7] (str "user") [8] 0 0 0).emit 0 (sectionHeader 101)).2 :=
    ⟨_, rfl, rfl⟩
  rw [Session.emit_header] at hs
  have h₀ : system.Run [] (⟨.new ⟨str "eth0", 4000, ∅, 2, str "/usr/sbin/tcpdump"⟩, sampleConn, [],
      fun _ => []⟩ : Flow) := .init ⟨⟨_, rfl⟩, ⟨by decide, rfl⟩, rfl, rfl⟩
  have hfound : w.manager.IsUserCapture sampleConn.user [1] :=
    ⟨_, Option.filter_eq_some_iff.2 ⟨hs, rfl⟩, rfl, rfl, rfl⟩
  have h₂ := (h₀.step (.other hw)).step (.record true [71, 69, 84] rfl hfound)
  -- Three segments, and two more for the bytes.
  have hcount : (sampleConn.record [1] true [71, 69, 84]).1.length ≤ 5 := by
    refine (List.length_filterMap_le _ _).trans ?_
    simp [CapturedConn.flow, sampleConn, segmentLoop, openFlow]
  have hroom : ∀ x ∈ (sampleConn.record [1] true [71, 69, 84]).1.map (([1] : Bytes), ·),
      x.1 = [1] ∧ x.2.length + sampleConn.comment.length + 60 ≤ 66000 := by
    intro x hx
    obtain ⟨b, hb, rfl⟩ := List.mem_map.1 hx
    obtain ⟨e, -, he⟩ := List.mem_filterMap.1 hb
    have hlen := sampleConn.length_of_packet he
    have hcomment : sampleConn.comment.length = 75 := by decide
    exact ⟨rfl, by dsimp only; omega⟩
  have hmax : 48 + ((sampleConn.record [1] true [71, 69, 84]).1.map (([1] : Bytes), ·)).length *
      66000 ≤ maxBytes := by
    rw [List.length_map]
    exact (Nat.add_le_add_left (Nat.mul_le_mul_right 66000 hcount) 48).trans (by decide)
  obtain ⟨as', f', s', hrun, hidle, hconn, hs', hrunning, hcalls⟩ := run_puts hroom h₂ hs rfl hmax
  exact ⟨_, f', s', hrun, hidle, by rw [hconn]; rfl, hs', hrunning, (hcalls [1]).trans rfl⟩

/-- Reconstructed flows replay what was proxied. Take any run of a connection and of all that
    goes on with the captures, to where no call of `record` is under way, and a capture
    that is still running, so that it has not reached its size limit. What the capture
    has got from the connection are the blocks of some packets. On TCP, these carry a
    handshake and then segments with exactly the bytes of the calls of `record` for the
    capture, numbered and acknowledged as they should be; so with each new capture there
    is a new handshake. On UDP, they are one datagram for each call of at most 65507
    bytes. While it is the user's capture, every call is one for it. -/
theorem flow_replays (h : system.Run as f) (hidle : f.pending = []) {id : Bytes} {s : Session}
    (hs : f.world.session id = some s) (hrun : s.state = .running) :
    (∃ packets, List.Forall₂ (IsBlock f.conn) (f.recorded id) packets ∧
      (f.conn.udp = false → calls id as = [] ∧ packets = [] ∨
        ∃ l, List.Forall₂ f.conn.Carries packets l ∧ Replays (calls id as) l) ∧
      (f.conn.udp = true → List.Forall₂ f.conn.CarriesDatagram packets
        ((calls id as).filter fun call => call.2.length ≤ 65507))) ∧
    (s.retained = true → s.user = f.conn.user → s.kind = str "user" →
      ∀ up p found f', Step f (.record up p found) f' → found = some id) := by
  have hinv := inv_of_run h
  obtain ⟨done, hdone, heq⟩ := hinv.recorded id s hs hrun
  rw [hidle, List.filter_nil, List.map_nil, List.append_nil] at heq
  subst heq
  refine ⟨⟨_, hdone, fun hudp => ?_, fun hudp => f.conn.packets_udp hudp _⟩, ?_⟩
  · by_cases hcalls : calls id as = []
    · rw [hcalls]
      exact .inl ⟨rfl, rfl⟩
    · obtain ⟨l, hconv, hsent, hcarries⟩ := f.conn.packets_conversation hudp hcalls
      exact .inr ⟨l, hcarries, replays_of_conversation hconv hsent⟩
  · intro hr huser hkind up p found f' hstep
    have hfind : f.world.manager.find id = some s := Option.filter_eq_some_iff.2 ⟨hs, hr⟩
    cases hstep with
    | @record id' _ _ _ hfound =>
      obtain ⟨s', hfind', huser', -, hrun'⟩ := hfound
      obtain ⟨hs', hr'⟩ := Option.filter_eq_some_iff.1 hfind'
      rw [hinv.single id' id s' s ⟨hs', hr', hrun'⟩ ⟨hs, hr, hrun⟩ (huser'.trans huser.symm)
        (fun hnil => hinv.user (huser'.symm.trans hnil))]
    | ignored _ _ _ hnone => exact absurd ⟨s, hfind, huser, hkind, hrun⟩ (hnone id)

/-- The sample has the three bytes in the segments that the client sends. -/
theorem flow_replays_sample : ∃ (as : List Label) (f : Flow) (packets : List Bytes)
    (l : List Tcp.Segment), system.Run as f ∧ List.Forall₂ f.conn.Carries packets l ∧
      (l.filter (·.up = true)).flatMap (·.data) = [71, 69, 84] := by
  obtain ⟨as, f, s, hrun, hidle, hudp, hs, hrunning, hcalls⟩ := sample_run
  obtain ⟨⟨packets, -, htcp, -⟩, -⟩ := flow_replays hrun hidle hs hrunning
  rcases htcp hudp with ⟨hnil, -⟩ | ⟨l, hcarries, hreplays⟩
  · rw [hcalls] at hnil
    cases hnil
  · refine ⟨as, f, packets, l, hrun, hcarries, (hreplays.payload true).trans ?_⟩
    rw [hcalls]
    rfl

end Flow

end QuicLab.DebugCapture
