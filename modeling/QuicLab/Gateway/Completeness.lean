import QuicLab.Gateway.Bounds

/-!
# UDP over QUIC DATAGRAM: completeness of reassembly

A packet whose fragments all arrive in time is delivered, whatever other
datagrams of the peer arrive in between (`reassembly_complete`).

* The datagrams of a packet pass the checks of the receiver
  (`formed_fragment`, `fits_fragment`).
* An assembly `Holds` the fragments of a packet that arrived, in their slots.
  Placing one more keeps it so (`DatagramFlow.place_of_missing`) or, for the
  last, delivers the packet (`DatagramFlow.place_of_last`).
* No other datagram touches the assembly before it expires
  (`DatagramFlow.lookup_accept_of_ne`).
-/

namespace QuicLab.Gateway

open Go

/-! ## The datagrams of a packet -/

theorem length_chunk (b : Bytes) (i : ℕ) :
    (chunk b i).length = min datagramChunk (b.length - i * datagramChunk) := by
  rw [chunk, List.length_take, List.length_drop]

theorem length_fragment (id : UInt64) (seq : UInt32) (b : Bytes) (i : ℕ) :
    (fragment id seq b i).length = 16 + (chunk b i).length := by
  simp only [fragment, List.length_append, length_putUint]
  omega

/-- The fragments of a packet have the length `receive` asks for. -/
theorem fits_fragment (w : Packet) (i : ℕ) : Fits (w.fragment i) := by
  have hlen : (chunk w.payload i).length ≤ datagramChunk := by
    rw [length_chunk]
    exact min_le_left _ _
  rw [Fits, Packet.fragment, length_fragment]
  omega

/-- The fragments of a packet have the format `accept` asks for. -/
theorem formed_chunk {b : Bytes} (hb : b.length ≤ maxUDP) {i : ℕ} (hi : i < total b) :
    ¬ Malformed i (total b) (chunk b i) := by
  have hle := total_le hb
  rw [Malformed, length_chunk]
  simp only [total, datagramChunk] at hi hle ⊢
  omega

theorem addressed_fragment (w : Packet) (i : ℕ) : DatagramMux.Addressed w.flow (w.fragment i) :=
  ⟨fits_fragment w i, fragment_id _ _ _ _⟩

theorem datagramSeq_fragment (w : Packet) (i : ℕ) : datagramSeq (w.fragment i) = w.seq :=
  fragment_seq _ _ _ _

section Header

variable {w : Packet} (hw : w.payload.length ≤ maxUDP) {i : ℕ} (hi : i < total w.payload)
include hw

theorem datagramTotal_fragment : datagramTotal (w.fragment i) = total w.payload :=
  fragment_total _ _ _ _ (by have := total_le hw; omega)

include hi

theorem datagramIndex_fragment : datagramIndex (w.fragment i) = i :=
  fragment_index _ _ _ _ (by have := total_le hw; omega)

/-- Accepting a fragment of a packet, its header read. -/
theorem accept_fragment (f : DatagramFlow) (now : ℤ) : f.accept now (w.fragment i) =
    f.handle now w.seq i (total w.payload) (chunk w.payload i) := by
  rw [DatagramFlow.accept_eq, datagramSeq_fragment, datagramIndex_fragment hw hi,
    datagramTotal_fragment hw, Packet.fragment, fragment_payload]

end Header

/-! ## The assembly of a packet -/

/-- The assembly holds the fragments of the packet `w` among `l`, and nothing
    else. -/
structure Assembly.Holds (a : Assembly) (w : Packet) (l : List Bytes) : Prop extends a.Of w l where
  filled : ∀ i, i < total w.payload → w.fragment i ∈ l →
    a.pieces[i]? = some (some (chunk w.payload i))
  size : a.size = (a.pieces.map fun p => (p.getD []).length).sum

namespace Assembly.Holds

variable {a : Assembly} {w : Packet} {l : List Bytes}

theorem fresh (now : ℤ) (w : Packet) :
    (DatagramFlow.freshAssembly now (total w.payload)).Holds w [] where
  toOf := freshAssembly_of now w []
  filled i _ h := by cases h
  size := by simp [DatagramFlow.freshAssembly]

variable {i : ℕ}

/-- The slot of a fragment that did not arrive is empty. -/
theorem missing (h : a.Holds w l) (hi : i < total w.payload) (hl : w.fragment i ∉ l) :
    a.pieces[i]? = some none := by
  have hlt : i < a.pieces.length := h.length ▸ hi
  cases hp : a.pieces[i]? with
  | none => exact absurd (List.getElem?_eq_none_iff.1 hp) (not_le.2 hlt)
  | some p =>
    cases p with
    | none => rfl
    | some p => exact absurd (h.piece i p hp).2 hl

theorem fill (h : a.Holds w l) (hw : w.payload.length ≤ maxUDP) (hi : i < total w.payload)
    (hl : w.fragment i ∉ l) :
    (a.fill i (chunk w.payload i)).Holds w (l ++ [w.fragment i]) where
  toOf := Assembly.Of.fill (h.toOf.mono fun b hb => List.mem_append_left _ hb) (h.missing hi hl)
    (List.mem_append_right _ (List.mem_singleton.2 rfl))
  filled j hj hmem := by
    have hlt : i < a.pieces.length := h.length ▸ hi
    simp only [Assembly.fill, List.getElem?_set]
    split_ifs with hij
    · rw [hij]
    · refine h.filled j hj ?_
      rcases mem_snoc.1 hmem with hmem | hmem
      · exact hmem
      · have hle := total_le hw
        have hji := fragment_inj (by omega) (by omega) hmem
        exact absurd hji.2.2.symm hij
  size := by
    simp only [Assembly.fill]
    rw [sum_set_of_none (h.missing hi hl), h.size]

/-- What has arrived of a packet is not larger than the packet. -/
theorem size_le (h : a.Holds w l) : a.size ≤ w.payload.length := by
  have hsum : a.size ≤ ((List.range (total w.payload)).map fun i =>
      (chunk w.payload i).length).sum := by
    rw [h.size]
    refine List.Forall₂.sum_le_sum (List.forall₂_iff_get.2 ⟨by simp [h.length], ?_⟩)
    intro i hi hi'
    simp only [List.get_eq_getElem, List.getElem_map, List.getElem_range]
    have hlt : i < a.pieces.length := by simpa using hi
    cases hp : a.pieces[i] with
    | none => exact Nat.zero_le _
    | some p =>
      rw [(h.piece i p (by rw [List.getElem?_eq_getElem hlt, hp])).1]
      rfl
  rwa [← List.length_flatMap, flatMap_chunk] at hsum

/-- An assembly is full once all fragments of its packet arrived. -/
theorem count_of_all (h : a.Holds w l) (hall : ∀ i, i < total w.payload → w.fragment i ∈ l) :
    a.count = total w.payload := by
  rw [h.count, ← h.length, List.countP_eq_length]
  intro p hp
  obtain ⟨i, hi, rfl⟩ := List.mem_iff_getElem.1 hp
  have hfill := h.filled i (h.length ▸ hi) (hall i (h.length ▸ hi))
  rw [List.getElem?_eq_getElem hi] at hfill
  rw [Option.some.inj hfill]
  rfl

/-- It is not full before. -/
theorem count_ne_of_missing (h : a.Holds w l) (hi : i < total w.payload) (hl : w.fragment i ∉ l) :
    a.count ≠ total w.payload := fun hc =>
  hl (h.piece i _ (h.get_of_full hc hi)).2

end Assembly.Holds

/-! ## Placing the fragments -/

namespace DatagramFlow

variable {f : DatagramFlow}

section Place

variable {w : Packet} (hw : w.payload.length ≤ maxUDP) {a : Assembly} {l : List Bytes}
  (ha : a.Holds w l) {i : ℕ} (hi : i < total w.payload) (hl : w.fragment i ∉ l)
include hw ha hi hl

/-- A fragment that is not the last one to arrive is kept. -/
theorem place_of_missing {j : ℕ} (hj : j < total w.payload)
    (hjl : w.fragment j ∉ l ++ [w.fragment i]) :
    f.place w.seq a i (total w.payload) (chunk w.payload i) =
      ⟨{ f with parts := f.parts.insert w.seq (a.fill i (chunk w.payload i)) }, 0, none⟩ := by
  have hfill := ha.fill hw hi hl
  have hsize := hfill.size_le.trans hw
  simp only [place]
  rw [if_neg (not_not.2 ha.length), if_neg (not_not.2 (ha.missing hi hl)), if_neg (not_lt.2 hsize),
    if_neg (hfill.count_ne_of_missing hj hjl), Finmap.insert_insert]

/-- The last fragment to arrive completes the packet. -/
theorem place_of_last (hall : ∀ j, j < total w.payload → w.fragment j ∈ l ++ [w.fragment i])
    (hroom : f.recv.length < queueCap) :
    (f.place w.seq a i (total w.payload) (chunk w.payload i)).put = some w.payload := by
  have hfill := ha.fill hw hi hl
  have hsize := hfill.size_le.trans hw
  have hcount := hfill.count_of_all hall
  simp only [place]
  rw [if_neg (not_not.2 ha.length), if_neg (not_not.2 (ha.missing hi hl)), if_neg (not_lt.2 hsize),
    if_pos hcount, deliver, if_pos hroom]
  exact congrArg some (hfill.packet_of_full hcount)

end Place

/-- Placing a fragment leaves the assemblies of other packets alone. -/
theorem lookup_place_of_ne {seq k : UInt32} (hk : k ≠ seq) (a : Assembly) (index n : ℕ)
    (payload : Bytes) :
    (f.place seq a index n payload).flow.parts.lookup k = f.parts.lookup k := by
  simp only [place]
  split_ifs
  · rw [Finmap.lookup_insert_of_ne _ hk]
  · rw [Finmap.lookup_insert_of_ne _ hk]
  · rw [Finmap.lookup_erase_ne hk, Finmap.lookup_insert_of_ne _ hk]
  · rw [deliver_parts, Finmap.lookup_erase_ne hk, Finmap.lookup_insert_of_ne _ hk]
  · rw [Finmap.insert_insert, Finmap.lookup_insert_of_ne _ hk]

theorem lookup_live {now : ℤ} {seq : UInt32} {a : Assembly} (h : f.parts.lookup seq = some a)
    (hnow : now - a.since ≤ fragmentLifetime) : (f.live now).lookup seq = some a := by
  rw [live, Map.lookup_filter, h]
  simpa [Option.filter] using hnow

/-- A datagram of another packet leaves an assembly alone that has not expired. -/
theorem lookup_accept_of_ne {now : ℤ} {b : Bytes} {seq : UInt32} {a : Assembly}
    (h : f.parts.lookup seq = some a) (hnow : now - a.since ≤ fragmentLifetime)
    (hb : seq ≠ datagramSeq b) : (f.accept now b).flow.parts.lookup seq = some a := by
  have hlive := lookup_live h hnow
  rw [accept_eq, handle]
  split_ifs
  · exact h
  · rwa [deliver_parts]
  · dsimp only
    split
    · rwa [lookup_place_of_ne hb]
    · split_ifs
      · exact hlive
      · rwa [lookup_place_of_ne hb]

section Handle

variable {now : ℤ} {seq : UInt32} {index n : ℕ} {payload : Bytes}
  (hform : ¬ Malformed index n payload) (hn : n ≠ 1)
include hform hn

/-- A fragment of a packet some of whose fragments are kept. -/
theorem handle_of_live {a : Assembly} (ha : (f.live now).lookup seq = some a) :
    f.handle now seq index n payload =
      let r := { f with parts := f.live now }.place seq a index n payload
      { r with drops := r.drops + f.expired now } := by
  rw [handle, if_neg hform, if_neg hn]
  simp only [ha]

/-- The first fragment of a packet, when there is room for it. -/
theorem handle_of_new (ha : (f.live now).lookup seq = none) (hlen : Map.len (f.live now) < 8) :
    f.handle now seq index n payload =
      let r := { f with parts := f.live now }.place seq (freshAssembly now n) index n payload
      { r with drops := r.drops + f.expired now } := by
  rw [handle, if_neg hform, if_neg hn]
  simp only [ha, if_neg (not_le.2 hlen)]

end Handle

end DatagramFlow

/-! ## Whole packets -/

namespace DatagramMux

instance (id : UInt64) (b : Bytes) : Decidable (Addressed id b) :=
  inferInstanceAs (Decidable (_ ∧ _))

/-- The time of an arrival. -/
def Act.time : Act → Option ℤ
  | .receive now _ _ => some now
  | _ => none

/-- The datagram of the packet `seq` of the flow `id` that arrives. -/
def Act.fragment (id : UInt64) (seq : UInt32) : Act → Option Bytes
  | .receive _ b _ => if Addressed id b ∧ datagramSeq b = seq then some b else none
  | _ => none

/-- The datagrams of the packet `seq` of the flow `id` that arrived. -/
def arrivals (id : UInt64) (seq : UInt32) (as : List Act) : List Bytes :=
  as.filterMap (Act.fragment id seq)

/-- The packet `w` arrives whole and in time. The operations `as` lead from the
    mux `m₀`, where its first fragment arrives at `t₀` for the flow `f₀`, to the
    mux `m₁`, where its last one, `last`, arrives at `t₁`. -/
structure Arrives (w : Packet) (m₀ : DatagramMux) (f₀ : DatagramFlow) (t₀ : ℤ) (as : List Act)
    (m₁ : DatagramMux) (t₁ : ℤ) (last : Bytes) : Prop where
  run : (system.start m₀).Run as m₁
  flow : m₀.flows.lookup w.flow = some f₀
  /-- The flow stays open. -/
  opened : Act.close w.flow ∉ as
  /-- The first operation is the arrival of a fragment of the packet. -/
  first : ∃ b put rest, as = .receive t₀ b put :: rest ∧ Addressed w.flow b ∧
    datagramSeq b = w.seq
  /-- The clock does not go back. -/
  clock : (as.filterMap Act.time ++ [t₁]).Pairwise (· ≤ ·)
  /-- What arrives of the packet are its fragments, in any order. -/
  whole : (arrivals w.flow w.seq as ++ [last]).Perm (fragments w.flow w.seq w.payload)
  inTime : t₁ - t₀ ≤ fragmentLifetime
  /-- No other packet being assembled has the sequence number. -/
  unused : (f₀.live t₀).lookup w.seq = none
  few : Map.len (f₀.live t₀) < 8
  room : ∀ f, m₁.flows.lookup w.flow = some f → f.recv.length < queueCap

/-- While the packet is incomplete: its assembly holds what has arrived, and
    none of its fragments completed it. -/
structure Partial (w : Packet) (t₀ : ℤ) (as : List Act) (m : DatagramMux) : Prop where
  assembly : ∃ f a, m.flows.lookup w.flow = some f ∧ f.parts.lookup w.seq = some a ∧
    a.since = t₀ ∧ a.Holds w (arrivals w.flow w.seq as)
  quiet : ∀ now b put, Act.receive now b put ∈ as → Addressed w.flow b → datagramSeq b = w.seq →
    put = none

theorem arrivals_snoc (id : UInt64) (seq : UInt32) (as : List Act) (a : Act) :
    arrivals id seq (as ++ [a]) = arrivals id seq as ++ (a.fragment id seq).toList := by
  rw [arrivals, List.filterMap_append, arrivals]
  cases h : a.fragment id seq <;> simp [h]

variable {b : Bytes}

theorem fragment_of_addressed {id : UInt64} {seq : UInt32} {now : ℤ} {put : Option (UInt64 × Bytes)}
    (hto : Addressed id b) (hseq : datagramSeq b = seq) :
    (Act.receive now b put).fragment id seq = some b := if_pos ⟨hto, hseq⟩

theorem total_eq_one (h : b.length ≤ datagramChunk) : total b = 1 := by
  simp only [total, datagramChunk] at h ⊢
  omega

theorem total_ne_one (h : datagramChunk < b.length) : total b ≠ 1 := by
  simp only [total, datagramChunk] at h ⊢
  omega

section Steps

variable {w : Packet} (hw : w.payload.length ≤ maxUDP) (hlong : datagramChunk < w.payload.length)
  {t₀ : ℤ} {m m' : DatagramMux} {i j : ℕ} (hi : i < total w.payload) (hj : j < total w.payload)
include hw hlong hi hj

/-- The first fragment of a packet to arrive, when another one is missing. -/
theorem partial_first {f₀ : DatagramFlow} {put : Option (UInt64 × Bytes)}
    (hstep : Step m (.receive t₀ (w.fragment i) put) m') (hf : m.flows.lookup w.flow = some f₀)
    (hji : w.fragment j ∉ [w.fragment i]) (hunused : (f₀.live t₀).lookup w.seq = none)
    (hfew : Map.len (f₀.live t₀) < 8) :
    Partial w t₀ [.receive t₀ (w.fragment i) put] m' := by
  obtain ⟨f', hf', hmove⟩ := step_lookup hstep hf (fun h => by cases h)
  have hto := addressed_fragment w i
  have hl : w.fragment i ∉ ([] : List Bytes) := fun h => by cases h
  have hfresh := Assembly.Holds.fresh t₀ w
  have hplace := DatagramFlow.place_of_missing (f := { f₀ with parts := f₀.live t₀ }) hw hfresh hi
    hl hj hji
  have hacc := (accept_fragment hw hi f₀ t₀).trans (DatagramFlow.handle_of_new (formed_chunk hw hi)
    (total_ne_one hlong) hunused hfew)
  rw [hplace] at hacc
  cases hmove with
  | other _ hign => exact absurd hto (hign _ _ _ rfl)
  | accept =>
    rw [hacc] at hf' ⊢
    refine ⟨⟨_, _, hf', Finmap.lookup_insert _, rfl, ?_⟩, fun now b put hmem _ _ => ?_⟩
    · have hheld := hfresh.fill hw hi hl
      rwa [arrivals, List.filterMap_cons_some (fragment_of_addressed hto (datagramSeq_fragment w i))]
    · cases List.mem_singleton.1 hmem
      rfl

/-- Another fragment of the packet, when yet another one is missing. -/
theorem Partial.fragment {as : List Act} (h : Partial w t₀ as m) {now : ℤ}
    {put : Option (UInt64 × Bytes)} (hstep : Step m (.receive now (w.fragment i) put) m')
    (hnow : now - t₀ ≤ fragmentLifetime) (hl : w.fragment i ∉ arrivals w.flow w.seq as)
    (hjl : w.fragment j ∉ arrivals w.flow w.seq as ++ [w.fragment i]) :
    Partial w t₀ (as ++ [.receive now (w.fragment i) put]) m' := by
  obtain ⟨f, a, hf, ha, hsince, hheld⟩ := h.assembly
  obtain ⟨f', hf', hmove⟩ := step_lookup hstep hf (fun h => by cases h)
  have hto := addressed_fragment w i
  have hlive := DatagramFlow.lookup_live ha (hsince ▸ hnow)
  have hplace := DatagramFlow.place_of_missing (f := { f with parts := f.live now }) hw hheld hi
    hl hj hjl
  have hacc := (accept_fragment hw hi f now).trans (DatagramFlow.handle_of_live
    (formed_chunk hw hi) (total_ne_one hlong) hlive)
  rw [hplace] at hacc
  cases hmove with
  | other _ hign => exact absurd hto (hign _ _ _ rfl)
  | accept =>
    rw [hacc] at hf' ⊢
    refine ⟨⟨_, _, hf', Finmap.lookup_insert _, hsince, ?_⟩, fun now b put hmem hb hseq => ?_⟩
    · rw [arrivals_snoc, fragment_of_addressed hto (datagramSeq_fragment w i)]
      exact hheld.fill hw hi hl
    · rcases mem_snoc.1 hmem with hmem | hmem
      · exact h.quiet now b put hmem hb hseq
      · cases hmem
        rfl

end Steps

variable {w : Packet} {a : Act}

/-- Any other operation on the mux, before the packet expires. -/
theorem Partial.other {t₀ : ℤ} {as : List Act} {m m' : DatagramMux} (h : Partial w t₀ as m)
    (hstep : Step m a m') (hopen : a ≠ .close w.flow)
    (htime : ∀ t, a.time = some t → t - t₀ ≤ fragmentLifetime)
    (hfrag : a.fragment w.flow w.seq = none) : Partial w t₀ (as ++ [a]) m' := by
  obtain ⟨f, x, hf, hx, hsince, hheld⟩ := h.assembly
  obtain ⟨f', hf', hmove⟩ := step_lookup hstep hf hopen
  have hkeep : f'.parts.lookup w.seq = some x := by
    cases hmove with
    | other hparts => rwa [hparts]
    | @accept now b hto =>
      refine DatagramFlow.lookup_accept_of_ne hx (hsince ▸ htime now rfl) fun hseq => ?_
      rw [fragment_of_addressed hto hseq.symm] at hfrag
      cases hfrag
  refine ⟨⟨f', x, hf', hkeep, hsince, ?_⟩, fun now b put hmem hb hseq => ?_⟩
  · rwa [arrivals_snoc, hfrag, Option.toList_none, List.append_nil]
  · rcases mem_snoc.1 hmem with hmem | hmem
    · exact h.quiet now b put hmem hb hseq
    · cases hmem
      rw [fragment_of_addressed hb hseq] at hfrag
      cases hfrag

theorem eq_of_fragment {id : UInt64} {seq : UInt32} (h : a.fragment id seq = some b) :
    ∃ now put, a = .receive now b put := by
  cases a with
  | receive now b' put =>
    rw [Act.fragment] at h
    split_ifs at h
    cases h
    exact ⟨now, put, rfl⟩
  | _ => cases h

/-- What one more operation adds to the part of the packet that arrived. -/
theorem Partial.step (hw : w.payload.length ≤ maxUDP) (hlong : datagramChunk < w.payload.length)
    {t₀ : ℤ} {as : List Act} {m m' : DatagramMux} (h : Partial w t₀ as m) (hstep : Step m a m')
    (hopen : a ≠ .close w.flow) (htime : ∀ t, a.time = some t → t - t₀ ≤ fragmentLifetime)
    {last : Bytes} (hlast : last ∈ fragments w.flow w.seq w.payload)
    (hfrag : ∀ b, a.fragment w.flow w.seq = some b → b ∈ fragments w.flow w.seq w.payload ∧ b ∉ arrivals w.flow w.seq as)
    (hmissing : last ∉ arrivals w.flow w.seq (as ++ [a])) : Partial w t₀ (as ++ [a]) m' := by
  cases hb : a.fragment w.flow w.seq with
  | none => exact h.other hstep hopen htime hb
  | some b =>
    obtain ⟨hmem, hnew⟩ := hfrag b hb
    rw [arrivals_snoc, hb] at hmissing
    obtain ⟨i, hi, rfl⟩ := mem_fragments.1 hmem
    obtain ⟨j, hj, rfl⟩ := mem_fragments.1 hlast
    obtain ⟨now, put, rfl⟩ := eq_of_fragment hb
    exact h.fragment hw hlong hi hj hstep (htime now rfl) hnew hmissing

namespace Arrives

variable {w : Packet} {m₀ m₁ : DatagramMux} {f₀ : DatagramFlow} {t₀ t₁ : ℤ} {as : List Act}
  {last : Bytes} (h : Arrives w m₀ f₀ t₀ as m₁ t₁ last)
include h

theorem last_mem : last ∈ fragments w.flow w.seq w.payload :=
  h.whole.subset (List.mem_append_right _ (List.mem_singleton.2 rfl))

/-- Everything arrives before the packet expires. -/
theorem elapsed {a : Act} (ha : a ∈ as) {t : ℤ} (ht : a.time = some t) :
    t - t₀ ≤ fragmentLifetime := by
  have hle : t ≤ t₁ := (List.pairwise_append.1 h.clock).2.2 t
    (List.mem_filterMap.2 ⟨a, ha, ht⟩) t₁ (List.mem_singleton.2 rfl)
  have htime := h.inTime
  omega

section Fragments

variable (hw : w.payload.length ≤ maxUDP)
include hw

theorem nodup : (arrivals w.flow w.seq as ++ [last]).Nodup :=
  h.whole.nodup_iff.2 (nodup_fragments hw)

/-- The last fragment has not arrived before. -/
theorem last_notMem {bs cs : List Act} (has : as = bs ++ cs) :
    last ∉ arrivals w.flow w.seq bs := fun hmem => by
  have hdisj := (List.nodup_append.1 (h.nodup hw)).2.2
  refine hdisj last ?_ last (List.mem_singleton.2 rfl) rfl
  rw [has, arrivals, List.filterMap_append]
  exact List.mem_append_left _ hmem

/-- A fragment of the packet arrives once. -/
theorem fragment_new {bs cs : List Act} {a : Act} (has : as = bs ++ a :: cs) {b : Bytes}
    (hb : a.fragment w.flow w.seq = some b) :
    b ∈ fragments w.flow w.seq w.payload ∧ b ∉ arrivals w.flow w.seq bs := by
  have harr : arrivals w.flow w.seq as =
      arrivals w.flow w.seq bs ++ b :: arrivals w.flow w.seq cs := by
    rw [has, arrivals, List.filterMap_append, List.filterMap_cons_some hb]
    rfl
  have hnodup := (List.nodup_append.1 (h.nodup hw)).1
  rw [harr] at hnodup
  refine ⟨h.whole.subset ?_, fun hmem => ?_⟩
  · rw [harr]
    exact List.mem_append_left _ (List.mem_append_right _ List.mem_cons_self)
  · exact (List.nodup_append.1 hnodup).2.2 b hmem b List.mem_cons_self rfl

end Fragments

variable (hw : w.payload.length ≤ maxUDP) (hlong : datagramChunk < w.payload.length)
include hw hlong

/-- Until the last fragment arrives, the packet is being assembled. -/
theorem partial_of_run {bs : List Act} {m : DatagramMux} (hrun : (system.start m₀).Run bs m) :
    ∀ cs, as = bs ++ cs → (bs = [] ∧ m = m₀) ∨ Partial w t₀ bs m := by
  induction hrun with
  | init hinit => exact fun _ _ => .inl ⟨rfl, hinit⟩
  | @step bs m m' a hrun hstep ih =>
    intro cs has
    have hcons : as = bs ++ a :: cs := by rw [has, List.append_assoc, List.singleton_append]
    have hmem : a ∈ as := by
      rw [hcons]
      exact List.mem_append_right _ List.mem_cons_self
    have hopen : a ≠ .close w.flow := fun heq => h.opened (heq ▸ hmem)
    have hmissing := h.last_notMem hw has
    rcases ih _ hcons with ⟨rfl, rfl⟩ | hpart
    · -- The first operation of the run is the arrival of the first fragment.
      obtain ⟨b, put, rest, hfirst, hto, hseq⟩ := h.first
      rw [hcons, List.nil_append] at hfirst
      cases hfirst
      have hb : (Act.receive t₀ b put).fragment w.flow w.seq = some b :=
        fragment_of_addressed hto hseq
      obtain ⟨i, hi, rfl⟩ := mem_fragments.1 (h.fragment_new hw hcons hb).1
      obtain ⟨j, hj, rfl⟩ := mem_fragments.1 h.last_mem
      rw [arrivals_snoc, hb] at hmissing
      exact .inr (partial_first hw hlong hi hj hstep h.flow hmissing h.unused h.few)
    · exact .inr (hpart.step hw hlong hstep hopen (fun t ht => h.elapsed hmem ht) h.last_mem
        (fun b hb => h.fragment_new hw hcons hb) hmissing)

theorem partial_end : Partial w t₀ as m₁ := by
  rcases h.partial_of_run hw hlong h.run [] (List.append_nil _).symm with ⟨rfl, -⟩ | hpart
  · obtain ⟨b, put, rest, hfirst, -⟩ := h.first
    cases hfirst
  · exact hpart

/-- The last fragment delivers the packet. -/
theorem put_last : (m₁.receive t₁ last).2 = some (w.flow, w.payload) := by
  obtain ⟨f, a, hf, ha, hsince, hheld⟩ := (h.partial_end hw hlong).assembly
  have hnew := h.last_notMem hw (List.append_nil _).symm
  obtain ⟨i, hi, rfl⟩ := mem_fragments.1 h.last_mem
  have hto := addressed_fragment w i
  have hroom := h.room f hf
  have hlive := DatagramFlow.lookup_live ha (hsince ▸ h.inTime)
  have hput := DatagramFlow.place_of_last (f := { f with parts := f.live t₁ }) hw hheld hi hnew
    (fun j hj => h.whole.symm.subset (mem_fragments.2 ⟨j, hj, rfl⟩)) hroom
  rw [receive_of_open hto.1 (hto.2.symm ▸ hf), accept_fragment hw hi,
    DatagramFlow.handle_of_live (formed_chunk hw hi) (total_ne_one hlong) hlive, hto.2]
  simp only [hput, Option.map_some]

end Arrives

/-- A packet that fits in one datagram is delivered when it arrives, whatever
    is being assembled. -/
theorem put_single {m : DatagramMux} {f : DatagramFlow} (hw : w.payload.length ≤ datagramChunk)
    (hf : m.flows.lookup w.flow = some f) (hroom : f.recv.length < queueCap) (now : ℤ) :
    (m.receive now (w.fragment 0)).2 = some (w.flow, w.payload) := by
  have hone := total_eq_one hw
  have hmax : w.payload.length ≤ maxUDP := hw.trans (by decide)
  have hi : 0 < total w.payload := by omega
  have hto := addressed_fragment w 0
  have hchunk : chunk w.payload 0 = w.payload := by
    rw [chunk, Nat.zero_mul, List.drop_zero, List.take_of_length_le hw]
  rw [receive_of_open hto.1 (hto.2.symm ▸ hf), accept_fragment hmax hi, DatagramFlow.handle,
    if_neg (formed_chunk hmax hi), if_pos hone, DatagramFlow.deliver, if_pos hroom, hchunk, hto.2]
  rfl

end DatagramMux

namespace DatagramMux.Sample

/-- A packet whose second fragment arrives first. -/
def packet : Packet := ⟨1, 5, payload⟩

/-- The arrival of its second fragment. -/
def second : Act := .receive 0 (packet.fragment 1) (opened.receive 0 (packet.fragment 1)).2

theorem packet_arrives : Arrives packet opened ⟨1, 0, [], none, ∅⟩ 0 [second] half 100
    (packet.fragment 0) where
  run := .step (.init rfl) (.receive _ _ _)
  flow := rfl
  opened := fun h => by cases List.mem_singleton.1 h
  first := ⟨_, _, [], rfl, addressed_fragment packet 1, datagramSeq_fragment packet 1⟩
  clock := by decide
  whole := by
    have harr : arrivals packet.flow packet.seq [second] = [packet.fragment 1] := by
      rw [arrivals, second, List.filterMap_cons_some (fragment_of_addressed
        (addressed_fragment packet 1) (datagramSeq_fragment packet 1))]
      rfl
    have hfrag : fragments packet.flow packet.seq packet.payload =
        [packet.fragment 0, packet.fragment 1] := by decide +kernel
    rw [harr, hfrag]
    exact .swap _ _ _
  inTime := by decide
  unused := by decide
  few := by decide
  room := fun f hf => by
    have hroom : ((half.flows.lookup packet.flow).map fun f => f.recv.length) = some 0 := by
      decide +kernel
    rw [hf] at hroom
    have hlen : f.recv.length = 0 := Option.some.inj hroom
    rw [hlen]
    decide

end DatagramMux.Sample

end QuicLab.Gateway
