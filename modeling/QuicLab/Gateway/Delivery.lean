import QuicLab.Gateway.Network
import QuicLab.Gateway.Reassembly

/-!
# UDP over QUIC DATAGRAM: integrity and at-most-once delivery

Whatever the network loses or reorders, and however the `Write`s interleave,
the packets the receiving flows deliver are packets written to the sending flow
of the same id, each `Write` being delivered at most once
(`delivered_subperm_writes`).

The invariant follows the datagrams (`Net.tokens`): those still in the loops of
`Write`s, in the send queue or in flight, and those that arrived, are pairwise
distinct fragments of `Write`s. An assembly of the receiver only holds fragments
that arrived, of the one `Write` with its sequence number; and once a packet is
delivered, all its fragments have arrived, so that none is left for delivering
it again.
-/

namespace QuicLab.Gateway

open Go

/-- The `Write`s of a flow so far. -/
def Net.writesOf (s : Net) (id : UInt64) : ℕ := s.writes.countP (·.flow = id)

/-- All datagrams made so far, except those that were dropped or lost. -/
def Net.tokens (s : Net) : List Bytes :=
  s.writing.flatMap (·.rest) ++ (s.tx.send.map (·.payload) ++ (s.wire ++ s.arrived))

/-! ## The invariant -/

/-- The sending mux: a flow has counted its `Write`s, whose sequence numbers
    tell them apart. -/
structure SenderOK (flows : Map UInt64 DatagramFlow) (opened : List UInt64)
    (writes : List Packet) : Prop where
  flow : ∀ id f, flows.lookup id = some f →
    f.id = id ∧ id ∈ opened ∧ f.seq.toNat = writes.countP (·.flow = id)
  mem_opened : ∀ w ∈ writes, w.flow ∈ opened
  seq_le : ∀ w ∈ writes, w.seq.toNat ≤ writes.countP (·.flow = w.flow)
  size : ∀ w ∈ writes, w.payload.length ≤ maxUDP
  distinct : (writes.map fun w => (w.flow, w.seq)).Nodup

/-- The datagrams: pairwise distinct fragments of `Write`s. -/
structure TokensOK (tokens : List Bytes) (writes : List Packet) : Prop where
  unique : ∀ b, tokens.count b ≤ 1
  valid : ∀ b ∈ tokens, ∃ w ∈ writes, ∃ i < total w.payload, b = w.fragment i

/-- The receiving mux: its assemblies hold fragments of `Write`s that arrived,
    its queues packets that were delivered, and a delivered packet is a `Write`
    all of whose fragments arrived. -/
structure ReceiverOK (flows : Map UInt64 DatagramFlow) (writes : List Packet)
    (arrived : List Bytes) (delivered : List Packet) : Prop where
  parts : ∀ id f, flows.lookup id = some f → ∀ seq a, f.parts.lookup seq = some a →
    ∃ w ∈ writes, w.flow = id ∧ w.seq = seq ∧ a.Of w arrived
  recv : ∀ id f, flows.lookup id = some f → ∀ p ∈ f.recv,
    ∃ d ∈ delivered, d.flow = id ∧ d.payload = p
  written : ∀ d ∈ delivered, d ∈ writes ∧ ∀ i < total d.payload, d.fragment i ∈ arrived
  once : delivered.Nodup

/-- The invariant of the system. -/
structure Net.Inv (s : Net) : Prop where
  sender : SenderOK s.tx.flows s.opened s.writes
  tokens : TokensOK s.tokens s.writes
  receiver : ReceiverOK s.rx.flows s.writes s.arrived s.delivered

theorem Net.initial_inv : Net.initial.Inv where
  sender := ⟨fun _ _ h => (by cases h), fun _ h => (by cases h), fun _ h => (by cases h),
    fun _ h => (by cases h), List.nodup_nil⟩
  tokens := ⟨fun _ => Nat.zero_le 1, fun _ h => by cases h⟩
  receiver := ⟨fun _ _ h => (by cases h), fun _ _ h => (by cases h), fun _ h => (by cases h),
    List.nodup_nil⟩

/-! ## The sending mux -/

namespace SenderOK

variable {flows : Map UInt64 DatagramFlow} {opened : List UInt64} {writes : List Packet}
  (h : SenderOK flows opened writes)

include h

/-- Two `Write`s of a flow with the same sequence number are the same. -/
theorem eq_of_seq {w w' : Packet} (hw : w ∈ writes)
    (hw' : w' ∈ writes) (hf : w.flow = w'.flow) (hs : w.seq = w'.seq) : w = w' :=
  List.inj_on_of_nodup_map h.distinct hw hw' (Prod.ext hf hs)

variable {id : UInt64}

theorem register (hid : id ∉ opened) :
    SenderOK (flows.insert id ⟨id, 0, [], none, ∅⟩) (id :: opened) writes := by
  refine ⟨fun id' f hf => ?_, fun w hw => List.mem_cons_of_mem _ (h.mem_opened w hw), h.seq_le,
    h.size, h.distinct⟩
  rw [Map.lookup_insert'] at hf
  split_ifs at hf with he
  · cases hf
    refine ⟨he.symm, he ▸ List.mem_cons_self, ?_⟩
    -- No flow was ever opened under this id, so nothing was written to it.
    have h0 : writes.countP (fun w => decide (w.flow = id')) = 0 :=
      List.countP_eq_zero.2 fun w hw hwf => hid (he ▸ of_decide_eq_true hwf ▸ h.mem_opened w hw)
    rw [h0]
    rfl
  · obtain ⟨h1, h2, h3⟩ := h.flow id' f hf
    exact ⟨h1, List.mem_cons_of_mem _ h2, h3⟩

theorem erase (id : UInt64) :
    SenderOK (flows.erase id) opened writes := by
  refine ⟨fun id' f hf => ?_, h.mem_opened, h.seq_le, h.size, h.distinct⟩
  rw [Map.lookup_erase'] at hf
  split_ifs at hf
  exact h.flow id' f hf

variable {f : DatagramFlow}

theorem setWriteDeadline (hf : flows.lookup id = some f)
    (d : Option ℤ) :
    SenderOK (flows.insert id { f with writeDeadline := d }) opened writes := by
  refine ⟨fun id' f' hf' => ?_, h.mem_opened, h.seq_le, h.size, h.distinct⟩
  rw [Map.lookup_insert'] at hf'
  split_ifs at hf' with he
  · cases hf'
    exact he ▸ h.flow id f hf
  · exact h.flow id' f' hf'

/-- A `Write` on a flow with fewer than `2 ^ 32 - 1` of them takes a sequence
    number no other `Write` of the flow has. -/
theorem seq_ne (hf : flows.lookup id = some f)
    (hlt : writes.countP (·.flow = id) + 1 < 2 ^ 32) {w : Packet} (hw : w ∈ writes)
    (hwf : w.flow = id) : w.seq ≠ f.seq + 1 := by
  intro he
  have hle := h.seq_le w hw
  have hseq := (h.flow id f hf).2.2
  rw [hwf, he, UInt32.toNat_add, hseq] at hle
  simp only [UInt32.reduceToNat] at hle
  omega

theorem write {b : Bytes} (hf : flows.lookup id = some f)
    (hb : b.length ≤ maxUDP) (hlt : writes.countP (·.flow = id) + 1 < 2 ^ 32) :
    SenderOK (flows.insert id { f with seq := f.seq + 1 }) opened
      (writes ++ [⟨id, f.seq + 1, b⟩]) := by
  obtain ⟨hfid, hmem, hseq⟩ := h.flow id f hf
  have hseq' : (f.seq + 1).toNat = writes.countP (·.flow = id) + 1 := by
    rw [UInt32.toNat_add, hseq]
    exact Nat.mod_eq_of_lt hlt
  refine ⟨fun id' f' hf' => ?_, fun w hw => ?_, fun w hw => ?_, fun w hw => ?_, ?_⟩
  · rw [Map.lookup_insert'] at hf'
    rw [List.countP_append]
    split_ifs at hf' with he
    · cases hf'
      refine ⟨hfid.trans he.symm, he ▸ hmem, ?_⟩
      simp [he, hseq']
    · have hne : ¬ id = id' := fun e => he e.symm
      simpa [hne] using h.flow id' f' hf'
  · rcases mem_snoc.1 hw with hw | hw
    · exact h.mem_opened w hw
    · rw [hw]
      exact hmem
  · rw [List.countP_append]
    rcases mem_snoc.1 hw with hw | hw
    · exact (h.seq_le w hw).trans (Nat.le_add_right _ _)
    · rw [hw]
      simp [hseq']
  · rcases mem_snoc.1 hw with hw | hw
    · exact h.size w hw
    · rw [hw]
      exact hb
  · rw [List.map_append, List.nodup_append']
    refine ⟨h.distinct, List.nodup_singleton _, ?_⟩
    intro x hx hx'
    obtain ⟨w, hw, rfl⟩ := List.mem_map.1 hx
    have he := List.mem_singleton.1 hx'
    exact h.seq_ne hf hlt hw (Prod.ext_iff.1 he).1 (Prod.ext_iff.1 he).2

end SenderOK

/-! ## The datagrams -/

/-- Moving, dropping and losing datagrams makes no new ones. -/
theorem TokensOK.of_count_le {tokens tokens' : List Bytes} {writes : List Packet}
    (h : TokensOK tokens writes) (hc : ∀ b, tokens'.count b ≤ tokens.count b) :
    TokensOK tokens' writes where
  unique b := (hc b).trans (h.unique b)
  valid b hb := h.valid b (List.count_pos_iff.1 ((List.count_pos_iff.2 hb).trans_le (hc b)))

/-- The fragments of a `Write` are new: their header has a sequence number that
    no other `Write` of the flow took. -/
theorem TokensOK.write {tokens tokens' : List Bytes} {writes : List Packet}
    (h : TokensOK tokens writes) {id : UInt64} {seq : UInt32} {b : Bytes}
    (hsize : ∀ w ∈ writes, w.payload.length ≤ maxUDP) (hb : b.length ≤ maxUDP)
    (hseq : ∀ w ∈ writes, w.flow = id → w.seq ≠ seq)
    (hc : ∀ p, tokens'.count p = tokens.count p + (fragments id seq b).count p) :
    TokensOK tokens' (writes ++ [⟨id, seq, b⟩]) := by
  refine ⟨fun p => ?_, fun p hp => ?_⟩
  · rw [hc]
    by_cases hp : p ∈ tokens
    · -- A datagram made before has another flow or sequence number.
      obtain ⟨w, hw, i, hi, rfl⟩ := h.valid p hp
      have hnew : w.fragment i ∉ fragments id seq b := fun hmem => by
        obtain ⟨j, hj, he⟩ := mem_fragments.1 hmem
        have hti := total_le (hsize w hw)
        have htj := total_le hb
        obtain ⟨h1, h2, _⟩ := fragment_inj (by omega) (by omega) he
        exact hseq w hw h1 h2
      rw [List.count_eq_zero_of_not_mem hnew]
      exact h.unique _
    · rw [List.count_eq_zero_of_not_mem hp, Nat.zero_add]
      exact List.nodup_iff_count_le_one.1 (nodup_fragments hb) p
  · have hpos := List.count_pos_iff.2 hp
    rw [hc] at hpos
    by_cases hp' : p ∈ tokens
    · obtain ⟨w, hw, hv⟩ := h.valid p hp'
      exact ⟨w, List.mem_append_left _ hw, hv⟩
    · rw [List.count_eq_zero_of_not_mem hp', Nat.zero_add] at hpos
      obtain ⟨i, hi, he⟩ := mem_fragments.1 (List.count_pos_iff.1 hpos)
      exact ⟨_, List.mem_append_right _ (List.mem_singleton_self _), i, hi, he⟩

/-! ## The receiving mux -/

namespace ReceiverOK

variable {flows : Map UInt64 DatagramFlow} {writes : List Packet} {arrived : List Bytes}
  {delivered : List Packet} (h : ReceiverOK flows writes arrived delivered)

include h

theorem mono_writes (w : Packet) :
    ReceiverOK flows (writes ++ [w]) arrived delivered where
  parts id f hf seq a ha :=
    let ⟨w, hw, hof⟩ := h.parts id f hf seq a ha
    ⟨w, List.mem_append_left _ hw, hof⟩
  recv := h.recv
  written d hd := ⟨List.mem_append_left _ (h.written d hd).1, (h.written d hd).2⟩
  once := h.once

theorem register (id : UInt64) :
    ReceiverOK (flows.insert id ⟨id, 0, [], none, ∅⟩) writes arrived delivered := by
  refine ⟨fun id' f hf seq a ha => ?_, fun id' f hf p hp => ?_, h.written, h.once⟩ <;>
    rw [Map.lookup_insert'] at hf <;> split_ifs at hf
  · cases hf
    cases ha
  · exact h.parts id' f hf seq a ha
  · cases hf
    cases hp
  · exact h.recv id' f hf p hp

theorem erase (id : UInt64) :
    ReceiverOK (flows.erase id) writes arrived delivered := by
  refine ⟨fun id' f hf => ?_, fun id' f hf => ?_, h.written, h.once⟩ <;>
    rw [Map.lookup_erase'] at hf <;> split_ifs at hf
  · exact h.parts id' f hf
  · exact h.recv id' f hf

variable {f : DatagramFlow}

theorem read {id : UInt64} {p : Bytes}
    {rest : List Bytes} (hf : flows.lookup id = some f) (hr : f.recv = p :: rest) :
    ReceiverOK (flows.insert id { f with recv := rest }) writes arrived delivered := by
  refine ⟨fun id' f' hf' => ?_, fun id' f' hf' q hq => ?_, h.written, h.once⟩ <;>
    rw [Map.lookup_insert'] at hf' <;> split_ifs at hf' with he
  · cases hf'
    exact he ▸ h.parts id f hf
  · exact h.parts id' f' hf'
  · cases hf'
    exact he ▸ h.recv id f hf q (hr ▸ List.mem_cons_of_mem _ hq)
  · exact h.recv id' f' hf' q hq

/-- A datagram that changes no flow. -/
theorem arrive (b : Bytes) :
    ReceiverOK flows writes (arrived ++ [b]) delivered where
  parts id f hf seq a ha :=
    let ⟨w, hw, h1, h2, hof⟩ := h.parts id f hf seq a ha
    ⟨w, hw, h1, h2, hof.mono fun _ hb => List.mem_append_left _ hb⟩
  recv := h.recv
  written d hd := ⟨(h.written d hd).1, fun i hi => List.mem_append_left _ ((h.written d hd).2 i hi)⟩
  once := h.once

/-- The assembly a fragment of `w` goes to holds fragments of `w`. -/
theorem base_of {w : Packet} {now : ℤ}
    {a : Assembly} (hf : flows.lookup w.flow = some f)
    (heq : ∀ w' ∈ writes, w'.flow = w.flow → w'.seq = w.seq → w' = w)
    (ha : f.Base now w.seq (total w.payload) a) : a.Of w arrived := by
  rcases ha with ha | rfl
  · obtain ⟨w', hw', h1, h2, hof⟩ := h.parts _ f hf _ a ha
    exact heq w' hw' h1 h2 ▸ hof
  · exact freshAssembly_of now w arrived

/-- What the fragment `i` of `w` puts in the queue is the payload of `w`, all of
    whose fragments have arrived. -/
theorem put_payload {w : Packet} {i : ℕ} {now : ℤ}
    {r : Accepted} (hf : flows.lookup w.flow = some f) (hi : i < total w.payload)
    (heq : ∀ w' ∈ writes, w'.flow = w.flow → w'.seq = w.seq → w' = w)
    (hr : f.Outcome now w.seq i (total w.payload) (chunk w.payload i) r) {p : Bytes}
    (hp : r.put = some p) :
    p = w.payload ∧ ∀ j < total w.payload, w.fragment j ∈ arrived ++ [w.fragment i] := by
  have hmem : w.fragment i ∈ arrived ++ [w.fragment i] :=
    List.mem_append_right _ (List.mem_singleton_self _)
  rcases hr.put p hp with ⟨hone, rfl⟩ | ⟨a, ha, hnone, hcount, rfl⟩
  · -- The only fragment is the packet.
    have h0 : i = 0 := by omega
    subst h0
    refine ⟨?_, fun j hj => ?_⟩
    · have := flatMap_chunk w.payload
      rw [hone] at this
      simpa using this
    · rw [hone, Nat.lt_one_iff] at hj
      exact hj ▸ hmem
  · have hof := ((h.arrive (w.fragment i)).base_of hf heq ha).fill hnone hmem
    exact ⟨hof.packet_of_full hcount, fun j hj => (hof.piece j _ (hof.get_of_full hcount hj)).2⟩

/-- The fragment `i` of the `Write` `w`, not seen before, reaches its flow. -/
theorem accept {w : Packet} {i : ℕ} {now : ℤ}
    {r : Accepted} (hf : flows.lookup w.flow = some f) (hw : w ∈ writes) (hi : i < total w.payload)
    (hnew : w.fragment i ∉ arrived)
    (heq : ∀ w' ∈ writes, w'.flow = w.flow → w'.seq = w.seq → w' = w)
    (hr : f.Outcome now w.seq i (total w.payload) (chunk w.payload i) r) :
    ReceiverOK (flows.insert w.flow r.flow) writes (arrived ++ [w.fragment i])
      (delivered ++ (r.put.map fun p => (⟨w.flow, w.seq, p⟩ : Packet)).toList) := by
  have hmem : w.fragment i ∈ arrived ++ [w.fragment i] :=
    List.mem_append_right _ (List.mem_singleton_self _)
  refine ⟨fun id f' hf' seq a ha => ?_, fun id f' hf' p hp => ?_, fun d hd => ?_, ?_⟩
  · rw [Map.lookup_insert'] at hf'
    split_ifs at hf' with he
    · cases hf'
      rcases hr.stored seq a ha with ha | ⟨rfl, a', ha', hcase⟩
      · exact he ▸ (h.arrive _).parts _ f hf seq a ha
      · refine ⟨w, hw, he.symm, rfl, ?_⟩
        rcases hcase with rfl | ⟨hnone, rfl⟩
        · exact (h.arrive _).base_of hf heq ha'
        · exact ((h.arrive _).base_of hf heq ha').fill hnone hmem
    · exact (h.arrive _).parts id f' hf' seq a ha
  · rw [Map.lookup_insert'] at hf'
    split_ifs at hf' with he
    · cases hf'
      rw [hr.recv] at hp
      rcases List.mem_append.1 hp with hp | hp
      · obtain ⟨d, hd, hd'⟩ := h.recv _ f hf p hp
        exact ⟨d, List.mem_append_left _ hd, he ▸ hd'⟩
      · refine ⟨⟨w.flow, w.seq, p⟩, List.mem_append_right _ ?_, he.symm, rfl⟩
        rw [Option.mem_toList] at hp ⊢
        exact Option.mem_map_of_mem _ hp
    · obtain ⟨d, hd, hd'⟩ := h.recv id f' hf' p hp
      exact ⟨d, List.mem_append_left _ hd, hd'⟩
  · rcases List.mem_append.1 hd with hd | hd
    · exact (h.arrive _).written d hd
    · rw [Option.mem_toList, Option.map_eq_some_iff] at hd
      obtain ⟨p, hp, rfl⟩ := hd
      obtain ⟨rfl, hall⟩ := h.put_payload hf hi heq hr hp
      exact ⟨hw, hall⟩
  · -- Had `w` been delivered before, its fragment `i` would have arrived before.
    refine List.nodup_append'.2 ⟨h.once, ?_, ?_⟩
    · cases r.put <;> simp
    · intro d hd hd'
      rw [Option.mem_toList, Option.map_eq_some_iff] at hd'
      obtain ⟨p, hp, rfl⟩ := hd'
      obtain ⟨rfl, _⟩ := h.put_payload hf hi heq hr hp
      exact hnew ((h.written _ hd).2 i hi)

end ReceiverOK

/-! ## The system -/

namespace Net

variable {s s' : Net} {a : Action}

/-- No flow has used up its sequence numbers. -/
def Bounded (s : Net) : Prop := ∀ id, s.writesOf id < 2 ^ 32

theorem Bounded.of_step (hs : Step s a s') (hb : s'.Bounded) : s.Bounded := by
  cases hs with
  | write => exact fun id => (hb id).trans_le' (by simp [writesOf, afterWrite, List.countP_append])
  | _ => exact hb

/-- A datagram reaches the receiving mux: a fragment of a `Write` that has not
    arrived before. -/
theorem receiver_deliver {now : ℤ} {b : Bytes} (h : s.Inv)
    (hb : b ∉ s.arrived) {w : Packet} {i : ℕ} (hw : w ∈ s.writes) (hi : i < total w.payload)
    (hbw : b = w.fragment i) :
    ReceiverOK (s.afterDeliver now b).rx.flows s.writes (s.arrived ++ [b])
      (s.afterDeliver now b).delivered := by
  simp only [afterDeliver, DatagramMux.receive]
  split_ifs with hlen
  · simpa using h.receiver.arrive b
  split
  next => simpa using h.receiver.arrive b
  next f hf =>
    have ht := total_le (h.sender.size w hw)
    subst hbw
    have hid : UInt64.ofNat (uint ((w.fragment i).take 8)) = w.flow := fragment_id _ _ _ _
    have hseq : UInt32.ofNat (uint (((w.fragment i).drop 8).take 4)) = w.seq := fragment_seq _ _ _ _
    rw [hid] at hf
    have hout := f.accept_outcome now (w.fragment i)
    rw [hseq, show uint (((w.fragment i).drop 12).take 2) = i from
        fragment_index _ _ _ _ (by omega),
      show uint (((w.fragment i).drop 14).take 2) = total w.payload from
        fragment_total _ _ _ _ (by omega),
      show (w.fragment i).drop 16 = chunk w.payload i from fragment_payload _ _ _ _] at hout
    simp only [hid, hseq, Option.map_map]
    exact h.receiver.accept hf hw hi hb
      (fun w' hw' h1 h2 => h.sender.eq_of_seq hw' hw h1 h2) hout

/-- Every step preserves the invariant, as long as no flow has used up its
    sequence numbers. -/
theorem Inv.step (h : s.Inv) (hs : Step s a s') (hb : s'.Bounded) : s'.Inv := by
  cases hs with
  | register hid hm =>
    rw [DatagramMux.register_eq hm]
    exact ⟨h.sender.register hid, h.tokens, h.receiver⟩
  | setWriteDeadline hf => exact ⟨h.sender.setWriteDeadline hf _, h.tokens, h.receiver⟩
  | close => exact ⟨h.sender.erase _, h.tokens, h.receiver⟩
  | @write id f f' fs now b hf hw =>
    obtain ⟨hlen, rfl, rfl⟩ := DatagramFlow.write_eq hw
    have hlt : s.writes.countP (·.flow = id) + 1 < 2 ^ 32 := by
      have := hb id
      simpa [writesOf, afterWrite, List.countP_append] using this
    refine ⟨h.sender.write hf hlen hlt, ?_, h.receiver.mono_writes _⟩
    refine h.tokens.write h.sender.size hlen (fun w hw hwf => h.sender.seq_ne hf hlt hw hwf)
      fun p => ?_
    simp only [Net.tokens, afterWrite, List.flatMap_append, List.flatMap_singleton,
      List.count_append, (h.sender.flow id f hf).1]
    omega
  | queue hw hrest hq =>
    obtain ⟨hfl, hsend⟩ := DatagramMux.enqueue_true hq
    refine ⟨hfl ▸ h.sender, h.tokens.of_count_le fun b => le_of_eq ?_, h.receiver⟩
    simp only [Net.tokens, hw, hsend, hrest, List.flatMap_append, List.flatMap_cons,
      List.map_append, List.map_cons, List.map_nil, List.count_append, List.count_cons,
      List.count_nil]
    omega
  | overflow hw hrest hq =>
    obtain ⟨hfl, hsend⟩ := DatagramMux.enqueue_false hq
    refine ⟨hfl ▸ h.sender, h.tokens.of_count_le fun b => ?_, h.receiver⟩
    simp only [Net.tokens, hw, hsend, List.flatMap_append, List.flatMap_cons, List.count_append]
    omega
  | finish hw hrest =>
    refine ⟨h.sender, h.tokens.of_count_le fun b => ?_, h.receiver⟩
    simp only [Net.tokens, hw, List.flatMap_append, List.flatMap_cons, List.count_append]
    omega
  | send hm =>
    obtain ⟨hfl, hsend⟩ := DatagramMux.sender_eq hm
    refine ⟨hfl ▸ h.sender, h.tokens.of_count_le fun b => ?_, h.receiver⟩
    have := hsend b
    simp only [Net.tokens, List.count_append]
    omega
  | lose hw =>
    refine ⟨h.sender, h.tokens.of_count_le fun b => ?_, h.receiver⟩
    simp only [Net.tokens, hw, List.count_append, List.count_cons]
    omega
  | @deliver pre post b now hw =>
    have hmem : b ∈ s.tokens := by simp [Net.tokens, hw]
    -- A datagram is in one place only, so what is on the wire has not arrived yet.
    have hnew : b ∉ s.arrived := fun harr => by
      have h1 := h.tokens.unique b
      have h2 := List.count_pos_iff.2 harr
      simp only [Net.tokens, hw, List.count_append, List.count_cons_self] at h1
      omega
    obtain ⟨w, hwm, i, hi, hbw⟩ := h.tokens.valid b hmem
    refine ⟨h.sender, h.tokens.of_count_le fun c => ?_, ?_⟩
    · simp only [Net.tokens, afterDeliver, hw, List.count_append, List.count_cons, List.count_nil]
      omega
    · have hinv : Inv { s with wire := pre ++ post } := ⟨h.sender, h.tokens.of_count_le fun c => by
        simp only [Net.tokens, hw, List.count_append, List.count_cons]
        omega, h.receiver⟩
      exact receiver_deliver hinv hnew hwm hi hbw
  | registerRemote hm =>
    rw [DatagramMux.register_eq hm]
    exact ⟨h.sender, h.tokens, h.receiver.register _⟩
  | closeRemote => exact ⟨h.sender, h.tokens, h.receiver.erase _⟩
  | read hm =>
    obtain ⟨f, rest, hf, hr, rfl⟩ := DatagramMux.read_eq hm
    exact ⟨h.sender, h.tokens, h.receiver.read hf hr⟩

theorem inv_of_reachable (h : system.Reachable s) (hb : s.Bounded) : s.Inv := by
  induction h with
  | init h => exact h ▸ initial_inv
  | step _ hs ih => exact (ih (.of_step hs hb)).step hs hb

end Net

end QuicLab.Gateway
