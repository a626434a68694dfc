import QuicLab.Gateway.Datagram

/-!
# UDP over QUIC DATAGRAM: reassembly

What the receiver makes of a fragment. The header of a fragment gives back its
flow, its packet and its place (`fragment_inj`), an assembly filled with the
fragments of one packet gives back its payload (`Assembly.Of.packet_of_full`),
and accepting a datagram touches no assembly but that of its packet
(`DatagramFlow.accept_outcome`), whatever the datagram is.
-/

namespace QuicLab.Gateway

open Go

/-! ## Fragments -/

theorem total_le {b : Bytes} (h : b.length ≤ maxUDP) : total b ≤ 66 := by
  simp only [total, datagramChunk, maxUDP] at h ⊢
  omega

theorem length_le_total (b : Bytes) : b.length ≤ total b * datagramChunk := by
  simp only [total, datagramChunk]
  omega

/-- The fragments of a payload, joined, are the payload. -/
theorem flatMap_chunk (b : Bytes) : (List.range (total b)).flatMap (chunk b) = b :=
  (flatMap_range_drop_take b datagramChunk (total b)).trans
    (List.take_of_length_le (length_le_total b))

section Header

variable (id : UInt64) (seq : UInt32) (b : Bytes) (i : ℕ)

theorem fragment_id : UInt64.ofNat (uint ((fragment id seq b i).take 8)) = id := by
  have h : (fragment id seq b i).take 8 = putUint 8 id.toNat := by
    rw [fragment, List.take_append_of_le_length (by simp), List.take_of_length_le (by simp)]
  rw [h, uint_putUint_of_lt (by have := id.toNat_lt; omega), UInt64.ofNat_toNat]

theorem fragment_seq : UInt32.ofNat (uint (((fragment id seq b i).drop 8).take 4)) = seq := by
  have h : ((fragment id seq b i).drop 8).take 4 = putUint 4 seq.toNat := by
    rw [fragment, List.drop_append_of_le_length (by simp), List.drop_of_length_le (by simp),
      List.nil_append, List.take_append_of_le_length (by simp), List.take_of_length_le (by simp)]
  rw [h, uint_putUint_of_lt (by have := seq.toNat_lt; omega), UInt32.ofNat_toNat]

theorem drop_twelve_fragment : (fragment id seq b i).drop 12 =
    putUint 2 i ++ (putUint 2 (total b) ++ chunk b i) := by
  have h : ∀ n m : ℕ, (putUint 8 n ++ (putUint 4 m ++ (putUint 2 i ++
      (putUint 2 (total b) ++ chunk b i)))).drop 12 =
      putUint 2 i ++ (putUint 2 (total b) ++ chunk b i) := fun n m => by
    rw [← List.append_assoc]
    exact List.drop_left' (by simp)
  exact h _ _

theorem fragment_index (hi : i < 65536) :
    uint (((fragment id seq b i).drop 12).take 2) = i := by
  rw [drop_twelve_fragment, List.take_left' (by simp), uint_putUint_of_lt hi]

theorem drop_fourteen_fragment : (fragment id seq b i).drop 14 =
    putUint 2 (total b) ++ chunk b i := by
  rw [show 14 = 12 + 2 from rfl, ← List.drop_drop, drop_twelve_fragment, List.drop_left' (by simp)]

theorem fragment_total (ht : total b < 65536) :
    uint (((fragment id seq b i).drop 14).take 2) = total b := by
  rw [drop_fourteen_fragment, List.take_left' (by simp), uint_putUint_of_lt ht]

theorem fragment_payload : (fragment id seq b i).drop 16 = chunk b i := by
  rw [show 16 = 14 + 2 from rfl, ← List.drop_drop, drop_fourteen_fragment,
    List.drop_left' (by simp)]

end Header

/-- The header tells the fragments of packets apart. -/
theorem fragment_inj {w w' : Packet} {i i' : ℕ} (hi : i < 65536) (hi' : i' < 65536)
    (h : w.fragment i = w'.fragment i') : w.flow = w'.flow ∧ w.seq = w'.seq ∧ i = i' := by
  simp only [Packet.fragment] at h
  refine ⟨?_, ?_, ?_⟩
  · rw [← fragment_id w.flow w.seq w.payload i, h, fragment_id]
  · rw [← fragment_seq w.flow w.seq w.payload i, h, fragment_seq]
  · rw [← fragment_index w.flow w.seq w.payload i hi, h, fragment_index _ _ _ _ hi']

theorem mem_fragments {id : UInt64} {seq : UInt32} {b p : Bytes} :
    p ∈ fragments id seq b ↔ ∃ i < total b, p = Packet.fragment ⟨id, seq, b⟩ i := by
  simp only [fragments, List.mem_map, List.mem_range, Packet.fragment, eq_comm]

theorem nodup_fragments {id : UInt64} {seq : UInt32} {b : Bytes} (hb : b.length ≤ maxUDP) :
    (fragments id seq b).Nodup := by
  refine List.Nodup.map_on (fun i hi j hj he => ?_) List.nodup_range
  have ht := total_le hb
  have hi' := List.mem_range.1 hi
  have hj' := List.mem_range.1 hj
  have he' : Packet.fragment ⟨id, seq, b⟩ i = Packet.fragment ⟨id, seq, b⟩ j := he
  exact (fragment_inj (by omega) (by omega) he').2.2

/-! ## Assemblies -/

/-- The assembly `a` holds fragments of the packet `w`, all of which are among
    the datagrams `l` that arrived. -/
structure Assembly.Of (a : Assembly) (w : Packet) (l : List Bytes) : Prop where
  length : a.pieces.length = total w.payload
  count : a.count = a.pieces.countP Option.isSome
  piece : ∀ i p, a.pieces[i]? = some (some p) → p = chunk w.payload i ∧ w.fragment i ∈ l

variable {a : Assembly} {w : Packet}

theorem Assembly.Of.mono {l l' : List Bytes} (h : a.Of w l) (hl : ∀ b ∈ l, b ∈ l') : a.Of w l' :=
  ⟨h.length, h.count, fun i p hp => ⟨(h.piece i p hp).1, hl _ (h.piece i p hp).2⟩⟩

theorem freshAssembly_of (now : ℤ) (w : Packet) (l : List Bytes) :
    (DatagramFlow.freshAssembly now (total w.payload)).Of w l where
  length := List.length_replicate
  count := by simp [DatagramFlow.freshAssembly, List.countP_replicate]
  piece i p hp := by simp [DatagramFlow.freshAssembly, List.getElem?_replicate] at hp

theorem countP_set_of_none {l : List (Option Bytes)} {i : ℕ} (hi : l[i]? = some none) (p : Bytes) :
    (l.set i (some p)).countP Option.isSome = l.countP Option.isSome + 1 := by
  obtain ⟨hlt, hnone⟩ := List.getElem?_eq_some_iff.1 hi
  rw [List.countP_set hlt, hnone]
  simp

variable {l : List Bytes}

/-- Filling an empty slot with the fragment that just arrived. -/
theorem Assembly.Of.fill (h : a.Of w l) {i : ℕ} (hi : a.pieces[i]? = some none)
    (hw : w.fragment i ∈ l) :
    (a.fill i (chunk w.payload i)).Of w l where
  length := by rw [Assembly.fill, List.length_set, h.length]
  count := by
    simp only [Assembly.fill]
    rw [countP_set_of_none hi, h.count]
  piece j p hp := by
    simp only [Assembly.fill, List.getElem?_set] at hp
    by_cases hij : i = j
    · subst hij
      rw [if_pos rfl] at hp
      split_ifs at hp
      cases hp
      exact ⟨rfl, hw⟩
    · rw [if_neg hij] at hp
      exact h.piece j p hp

/-- A full assembly holds every fragment of its packet. -/
theorem Assembly.Of.get_of_full (h : a.Of w l) (hc : a.count = total w.payload) {i : ℕ}
    (hi : i < total w.payload) :
    a.pieces[i]? = some (some (chunk w.payload i)) := by
  have hall : ∀ p ∈ a.pieces, Option.isSome p := by
    rw [← List.countP_eq_length, ← h.count, hc, h.length]
  have hlt : i < a.pieces.length := h.length ▸ hi
  obtain ⟨p, hp⟩ := Option.isSome_iff_exists.1 (hall _ (List.getElem_mem hlt))
  have hget : a.pieces[i]? = some (some p) := by rw [List.getElem?_eq_getElem hlt, hp]
  rw [hget, (h.piece i p hget).1]

/-- The packet of a full assembly is the payload that was written. -/
theorem Assembly.Of.packet_of_full (h : a.Of w l) (hc : a.count = total w.payload) :
    a.packet = w.payload := by
  have hp : a.pieces = (List.range (total w.payload)).map fun i => some (chunk w.payload i) := by
    refine List.ext_getElem? fun i => ?_
    by_cases hi : i < total w.payload
    · rw [h.get_of_full hc hi]
      simp [hi]
    · rw [List.getElem?_eq_none (by rw [h.length]; omega), List.getElem?_eq_none (by simp; omega)]
  rw [Assembly.packet, hp, List.flatMap_map]
  exact flatMap_chunk w.payload

/-! ## Accepting a datagram -/

namespace DatagramFlow

/-- The assembly a fragment of the packet `seq` goes to: the one kept, or a new
    one for `n` fragments. -/
def Base (f : DatagramFlow) (now : ℤ) (seq : UInt32) (n : ℕ) (a : Assembly) : Prop :=
  f.parts.lookup seq = some a ∨ a = freshAssembly now n

/-- What handling the fragment `i` of `n` of the packet `seq` may do to a flow:
    it queues what it puts, changes no other assembly, and puts a packet only
    when it is a whole one, or completes one. -/
structure Outcome (f : DatagramFlow) (now : ℤ) (seq : UInt32) (i n : ℕ) (payload : Bytes)
    (r : Accepted) : Prop where
  recv : r.flow.recv = f.recv ++ r.put.toList
  stored : ∀ k a', r.flow.parts.lookup k = some a' → f.parts.lookup k = some a' ∨
    (k = seq ∧ ∃ a, f.Base now seq n a ∧
      (a' = a ∨ (a.pieces[i]? = some none ∧ a' = a.fill i payload)))
  put : ∀ p, r.put = some p → (n = 1 ∧ p = payload) ∨
    ∃ a, f.Base now seq n a ∧ a.pieces[i]? = some none ∧
      (a.fill i payload).count = n ∧ p = (a.fill i payload).packet

variable {f : DatagramFlow} {now : ℤ} {seq : UInt32} {i n : ℕ} {payload : Bytes}

theorem outcome_unchanged (drops : ℕ) : Outcome f now seq i n payload ⟨f, drops, none⟩ where
  recv := (List.append_nil _).symm
  stored _ _ h := .inl h
  put _ h := by cases h

theorem deliver_recv (f : DatagramFlow) (b : Bytes) :
    (f.deliver b).flow.recv = f.recv ++ (f.deliver b).put.toList := by
  rw [deliver]
  split_ifs
  · rfl
  · exact (List.append_nil _).symm

theorem deliver_parts (f : DatagramFlow) (b : Bytes) : (f.deliver b).flow.parts = f.parts := by
  rw [deliver]
  split_ifs <;> rfl

theorem deliver_put {f : DatagramFlow} {b p : Bytes} (h : (f.deliver b).put = some p) : p = b := by
  rw [deliver] at h
  split_ifs at h
  cases h
  rfl

theorem place_outcome {a : Assembly} (ha : f.Base now seq n a) :
    Outcome f now seq i n payload (f.place seq a i n payload) := by
  -- Whatever is stored besides `seq` was there before.
  have hother : ∀ {k : UInt32} {a' : Assembly}, k ≠ seq →
      (f.parts.insert seq a).lookup k = some a' → f.parts.lookup k = some a' := fun hk h => by
    rwa [Finmap.lookup_insert_of_ne _ hk] at h
  have hkeep : ∀ (a' : Assembly) (k : UInt32) (a'' : Assembly),
      ((f.parts.insert seq a).insert seq a').lookup k = some a'' → k = seq ∧ a'' = a' ∨
        f.parts.lookup k = some a'' := fun a' k a'' h => by
    rw [Finmap.insert_insert, Map.lookup_insert'] at h
    split_ifs at h with hk
    · exact .inl ⟨hk, (Option.some.inj h).symm⟩
    · exact .inr h
  have hbase : ∀ (k : UInt32) (a' : Assembly), (f.parts.insert seq a).lookup k = some a' →
      f.parts.lookup k = some a' ∨ (k = seq ∧ ∃ a, f.Base now seq n a ∧
        (a' = a ∨ (a.pieces[i]? = some none ∧ a' = a.fill i payload))) := fun k a' h => by
    by_cases hk : k = seq
    · subst hk
      rw [Finmap.lookup_insert] at h
      exact .inr ⟨rfl, a, ha, .inl (Option.some.inj h).symm⟩
    · exact .inl (hother hk h)
  have herase : ∀ (k : UInt32) (a' : Assembly),
      ((f.parts.insert seq a).erase seq).lookup k = some a' →
      f.parts.lookup k = some a' := fun k a' h => by
    rw [Map.lookup_erase'] at h
    split_ifs at h with hk
    exact hother hk h
  simp only [place]
  split_ifs with hlen hi hsize hcount
  · exact ⟨(List.append_nil _).symm, hbase, fun _ h => by cases h⟩
  · exact ⟨(List.append_nil _).symm, hbase, fun _ h => by cases h⟩
  · exact ⟨(List.append_nil _).symm, fun k a' h => .inl (herase k a' h), fun _ h => by cases h⟩
  · rw [not_not] at hi
    refine ⟨deliver_recv _ _, fun k a' h => ?_, fun p h => ?_⟩
    · rw [deliver_parts] at h
      exact .inl (herase k a' h)
    · exact .inr ⟨a, ha, hi, hcount, deliver_put h⟩
  · rw [not_not] at hi
    refine ⟨(List.append_nil _).symm, fun k a' h => ?_, fun _ h => by cases h⟩
    rcases hkeep _ k a' h with ⟨hk, rfl⟩ | h
    · exact .inr ⟨hk, a, ha, .inr ⟨hi, rfl⟩⟩
    · exact .inl h

/-- Forgetting the expired assemblies first makes no difference to what may
    happen. -/
theorem Outcome.of_live {r : Accepted}
    (h : Outcome { f with parts := f.live now } now seq i n payload r) (drops : ℕ) :
    Outcome f now seq i n payload { r with drops := drops } := by
  have hbase : ∀ a, Base { f with parts := f.live now } now seq n a → f.Base now seq n a :=
    fun a ha => ha.imp_left Map.lookup_of_lookup_filter
  refine ⟨h.recv, fun k a' hk => ?_, fun p hp => ?_⟩
  · rcases h.stored k a' hk with h | ⟨hk, a, ha, h⟩
    · exact .inl (Map.lookup_of_lookup_filter h)
    · exact .inr ⟨hk, a, hbase a ha, h⟩
  · rcases h.put p hp with h | ⟨a, ha, h⟩
    · exact .inl h
    · exact .inr ⟨a, hbase a ha, h⟩

theorem accept_outcome (f : DatagramFlow) (now : ℤ) (b : Bytes) :
    Outcome f now (UInt32.ofNat (uint ((b.drop 8).take 4))) (uint ((b.drop 12).take 2))
      (uint ((b.drop 14).take 2)) (b.drop 16) (f.accept now b) := by
  rw [accept]
  split_ifs with hbad hone
  · exact outcome_unchanged 1
  · refine ⟨deliver_recv _ _, fun k a' h => ?_, fun p h => .inl ⟨hone, deliver_put h⟩⟩
    rw [deliver_parts] at h
    exact .inl h
  · refine Outcome.of_live ?_ _
    split
    next a ha => exact place_outcome (.inl ha)
    next ha =>
      split_ifs
      · exact outcome_unchanged 1
      · exact place_outcome (.inr rfl)

end DatagramFlow

end QuicLab.Gateway
