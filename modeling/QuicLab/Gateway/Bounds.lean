import Mathlib.Algebra.Order.BigOperators.Group.List
import QuicLab.Gateway.Reassembly
import QuicLab.System

/-!
# UDP over QUIC DATAGRAM: hostile input

A mux under any use of its flows and any datagrams of the peer: the datagrams
are arbitrary byte strings, arriving at arbitrary times (`DatagramMux.system`).

* `DatagramMux.step_lookup`: what a step does to one flow.
* `DatagramFlow.Bounded`: the incomplete packets a flow keeps are few, and
  their counters are right. Every reachable flow is bounded
  (`DatagramMux.bounded_of_reachable`), by what accepting one datagram
  preserves (`DatagramFlow.accept_bounded`).
* `DatagramMux.receive?`: handling a datagram where every slice and index
  expression of the source is checked. No check ever fails
  (`DatagramMux.receive?_eq`).
-/

namespace QuicLab.Gateway

open Go

/-- The flow a datagram is for. -/
def datagramFlow (b : Bytes) : UInt64 := UInt64.ofNat (uint (b.take 8))

/-- The packet a datagram is of. -/
def datagramSeq (b : Bytes) : UInt32 := UInt32.ofNat (uint ((b.drop 8).take 4))

/-- The index of a fragment. -/
def datagramIndex (b : Bytes) : ℕ := uint ((b.drop 12).take 2)

/-- The number of fragments of the packet a datagram is of. -/
def datagramTotal (b : Bytes) : ℕ := uint ((b.drop 14).take 2)

/-- The format `accept` drops. -/
def Malformed (index total : ℕ) (payload : Bytes) : Prop :=
  total < 1 ∨ 66 < total ∨ total ≤ index ∨
    (index < total - 1 ∧ payload.length ≠ datagramChunk) ∨
    (1 < total ∧ index = total - 1 ∧ payload.length = 0)

instance (index total : ℕ) (payload : Bytes) : Decidable (Malformed index total payload) :=
  inferInstanceAs (Decidable (_ ∨ _))

/-- The length `receive` asks for. -/
def Fits (b : Bytes) : Prop := ¬ (b.length < 16 ∨ 16 + datagramChunk < b.length)

instance (b : Bytes) : Decidable (Fits b) := inferInstanceAs (Decidable (¬ _))

/-! ## A mux in use -/

namespace DatagramMux

/-- The operations on a mux. -/
inductive Act where
  | register (id : UInt64)
  | close (id : UInt64)
  | setWriteDeadline (id : UInt64) (t : Option ℤ)
  | write (id : UInt64) (now : ℤ) (b : Bytes)
  | enqueue (q : QueuedDatagram)
  | sender (now : ℤ) (ok : Bool)
  /-- A datagram arrives, and completes the packet `put` of a flow, if any. -/
  | receive (now : ℤ) (b : Bytes) (put : Option (UInt64 × Bytes))
  | read (id : UInt64)
  deriving DecidableEq

/-- The steps of a mux. -/
inductive Step : DatagramMux → Act → DatagramMux → Prop
  | register {m m' : DatagramMux} {id : UInt64} : m.register id = some m' →
      Step m (.register id) m'
  | close (m : DatagramMux) (id : UInt64) : Step m (.close id) (m.close id)
  | setWriteDeadline {m : DatagramMux} {id : UInt64} {f : DatagramFlow} (t : Option ℤ) :
      m.flows.lookup id = some f → Step m (.setWriteDeadline id t)
        { m with flows := m.flows.insert id { f with writeDeadline := t } }
  | write {m : DatagramMux} {id : UInt64} {f f' : DatagramFlow} {now : ℤ} {b : Bytes}
      {fs : List Bytes} : m.flows.lookup id = some f → f.write now b = some (f', fs) →
      Step m (.write id now b) { m with flows := m.flows.insert id f' }
  | enqueue (m : DatagramMux) (q : QueuedDatagram) : Step m (.enqueue q) (m.enqueue q).1
  | sender (m : DatagramMux) (now : ℤ) (ok : Bool) :
      Step m (.sender now ok) (m.sender now ok).1
  | receive (m : DatagramMux) (now : ℤ) (b : Bytes) :
      Step m (.receive now b (m.receive now b).2) (m.receive now b).1
  | read {m m' : DatagramMux} {id : UInt64} {p : Bytes} : m.read id = some (m', p) →
      Step m (.read id) m'

/-- A mux from its creation on. -/
def system : System DatagramMux Act where
  init m := m = new
  step := Step

/-- A datagram for the flow `id`, of a length `receive` accepts. -/
def Addressed (id : UInt64) (b : Bytes) : Prop := Fits b ∧ datagramFlow b = id

/-- The operation is not the arrival of a datagram for the flow `id`. -/
def Ignores (id : UInt64) (a : Act) : Prop :=
  ∀ now b put, a = .receive now b put → ¬ Addressed id b

/-- What an operation may do to the flow `id`: accept a datagram, or leave the
    incomplete packets alone. -/
inductive Moves (id : UInt64) (f : DatagramFlow) : Act → DatagramFlow → Prop
  | accept {now : ℤ} {b : Bytes} : Addressed id b →
      Moves id f (.receive now b ((f.accept now b).put.map fun p => (id, p)))
        (f.accept now b).flow
  | other {a : Act} {f' : DatagramFlow} : f'.parts = f.parts → Ignores id a → Moves id f a f'

/-- What an operation may do to the flows: nothing, open one, close one, or
    move one. -/
inductive Effect (m : DatagramMux) (a : Act) : Map UInt64 DatagramFlow → Prop
  | same : (∀ id f, m.flows.lookup id = some f → Ignores id a) → Effect m a m.flows
  | opened {id : UInt64} : a = .register id → m.flows.lookup id = none →
      Effect m a (m.flows.insert id ⟨id, 0, [], none, ∅⟩)
  | closed {id : UInt64} : a = .close id → Effect m a (m.flows.erase id)
  | moved {id : UInt64} {f f' : DatagramFlow} : m.flows.lookup id = some f → Moves id f a f' →
      (∀ id', id' ≠ id → Ignores id' a) → Effect m a (m.flows.insert id f')

variable {m : DatagramMux}

variable {now : ℤ} {b : Bytes}

theorem receive_of_not_fits (h : ¬ Fits b) :
    m.receive now b = ({ m with drops := m.drops + 1 }, none) := if_pos (not_not.1 h)

theorem receive_of_unknown (h : Fits b) (hf : m.flows.lookup (datagramFlow b) = none) :
    m.receive now b = ({ m with drops := m.drops + 1 }, none) := by
  rw [receive, if_neg h]
  simp only [datagramFlow] at hf
  simp only [hf]

theorem receive_of_open {f : DatagramFlow} (h : Fits b)
    (hf : m.flows.lookup (datagramFlow b) = some f) :
    m.receive now b = ({ m with
        flows := m.flows.insert (datagramFlow b) (f.accept now b).flow
        drops := m.drops + (f.accept now b).drops },
      (f.accept now b).put.map fun p => (datagramFlow b, p)) := by
  rw [receive, if_neg h]
  simp only [datagramFlow] at hf ⊢
  simp only [hf]

variable {a : Act}

variable {id : UInt64}

/-- A flow stored again with the same incomplete packets. -/
theorem effect_insert {f f' : DatagramFlow} (hf : m.flows.lookup id = some f)
    (hparts : f'.parts = f.parts) (ha : ∀ id, Ignores id a) :
    Effect m a (m.flows.insert id f') := .moved hf (.other hparts (ha id)) fun id' _ => ha id'

theorem effect_receive (m : DatagramMux) (now : ℤ) (b : Bytes) :
    Effect m (.receive now b (m.receive now b).2) (m.receive now b).1.flows := by
  by_cases hb : Fits b
  · cases hf : m.flows.lookup (datagramFlow b) with
    | none =>
      rw [receive_of_unknown hb hf]
      refine .same fun id f hid now b put h hto => ?_
      cases h
      rw [hto.2, hid] at hf
      cases hf
    | some f =>
      rw [receive_of_open hb hf]
      refine .moved hf (.accept ⟨hb, rfl⟩) fun id hid now b put h hto => ?_
      cases h
      exact hid hto.2.symm
  · rw [receive_of_not_fits hb]
    refine .same fun id f hid now b put h hto => ?_
    cases h
    exact hb hto.1

theorem step_effect {m m' : DatagramMux} (h : Step m a m') : Effect m a m'.flows := by
  cases h with
  | register h =>
    rw [register] at h
    split_ifs at h with _ hfree
    cases h
    exact .opened rfl (Option.not_isSome_iff_eq_none.1 hfree)
  | close => exact .closed rfl
  | setWriteDeadline t hf => exact effect_insert hf rfl fun _ _ _ _ h => by cases h
  | write hf hw =>
    obtain ⟨-, rfl, -⟩ := DatagramFlow.write_eq hw
    exact effect_insert hf rfl fun _ _ _ _ h => by cases h
  | enqueue q =>
    rw [enqueue]
    split_ifs <;> exact .same fun _ _ _ _ _ _ h => by cases h
  | sender now ok =>
    have hflows : (m.sender now ok).1.flows = m.flows := (sender_eq (Prod.eta _).symm).1
    rw [hflows]
    exact .same fun _ _ _ _ _ _ h => by cases h
  | receive now b => exact effect_receive m now b
  | read hr =>
    obtain ⟨f, rest, hf, -, rfl⟩ := read_eq hr
    exact effect_insert hf rfl fun _ _ _ _ h => by cases h

/-- An open flow stays open unless it is closed, and moves as `Moves` says. -/
theorem step_lookup {m m' : DatagramMux} (h : Step m a m') {f : DatagramFlow}
    (hf : m.flows.lookup id = some f) (ha : a ≠ .close id) :
    ∃ f', m'.flows.lookup id = some f' ∧ Moves id f a f' := by
  have heff := step_effect h
  generalize m'.flows = flows at heff
  cases heff with
  | same hign => exact ⟨f, hf, .other rfl (hign id f hf)⟩
  | @opened id' hact hnone =>
    have hid : id ≠ id' := fun h => by
      rw [← h, hf] at hnone
      cases hnone
    refine ⟨f, by rwa [Finmap.lookup_insert_of_ne _ hid], .other rfl fun _ _ _ h => ?_⟩
    cases hact.symm.trans h
  | @closed id' hact =>
    have hid : id ≠ id' := fun h => ha (h ▸ hact)
    refine ⟨f, by rwa [Finmap.lookup_erase_ne hid], .other rfl fun _ _ _ h => ?_⟩
    cases hact.symm.trans h
  | @moved id' g g' hg hmove hign =>
    rw [Map.lookup_insert']
    split_ifs with hid
    · subst hid
      cases hf.symm.trans hg
      exact ⟨g', rfl, hmove⟩
    · exact ⟨f, hf, .other rfl (hign id hid)⟩

/-- An open flow was open before, or is new. -/
theorem step_lookup_new {m m' : DatagramMux} (h : Step m a m') {f' : DatagramFlow}
    (hf' : m'.flows.lookup id = some f') :
    f' = ⟨id, 0, [], none, ∅⟩ ∨ ∃ f, m.flows.lookup id = some f ∧ Moves id f a f' := by
  cases hf : m.flows.lookup id with
  | some f =>
    by_cases ha : a = .close id
    · subst ha
      cases h
      rw [close, Finmap.lookup_erase] at hf'
      cases hf'
    · obtain ⟨f'', hf'', hmove⟩ := step_lookup h hf ha
      cases hf'.symm.trans hf''
      exact .inr ⟨f, rfl, hmove⟩
  | none =>
    have heff := step_effect h
    generalize m'.flows = flows at heff hf'
    cases heff with
    | same => rw [hf] at hf'; cases hf'
    | @opened id' =>
      rw [Map.lookup_insert'] at hf'
      split_ifs at hf' with hid
      · rw [hid]
        exact .inl (Option.some.inj hf').symm
      · rw [hf] at hf'; cases hf'
    | @closed id' =>
      rw [Map.lookup_erase'] at hf'
      split_ifs at hf'
      rw [hf] at hf'; cases hf'
    | @moved id' g g' hg =>
      rw [Map.lookup_insert'] at hf'
      split_ifs at hf' with hid
      · rw [← hid, hf] at hg; cases hg
      · rw [hf] at hf'; cases hf'

end DatagramMux

namespace DatagramFlow

/-- `accept` after the header is read. -/
def handle (f : DatagramFlow) (now : ℤ) (seq : UInt32) (index total : ℕ) (payload : Bytes) :
    Accepted :=
  if Malformed index total payload then ⟨f, 1, none⟩
  else if total = 1 then f.deliver payload
  else
    let g := { f with parts := f.live now }
    let r := match g.parts.lookup seq with
      | some a => g.place seq a index total payload
      | none =>
        if 8 ≤ Map.len g.parts then ⟨g, 1, none⟩
        else g.place seq (freshAssembly now total) index total payload
    { r with drops := r.drops + f.expired now }

theorem accept_eq (f : DatagramFlow) (now : ℤ) (b : Bytes) : f.accept now b =
    f.handle now (datagramSeq b) (datagramIndex b) (datagramTotal b) (b.drop 16) := rfl

end DatagramFlow

/-! ## Bounded assemblies -/

/-- The counters of an assembly are right, and its fragments have the lengths
    of the fragments of a packet. -/
structure Assembly.Sized (a : Assembly) : Prop where
  slots : 2 ≤ a.pieces.length ∧ a.pieces.length ≤ 66
  count : a.count = a.pieces.countP Option.isSome
  size : a.size = (a.pieces.map fun p => (p.getD []).length).sum
  full : ∀ i p, a.pieces[i]? = some (some p) → i + 1 < a.pieces.length →
    p.length = datagramChunk
  last : ∀ i p, a.pieces[i]? = some (some p) → i + 1 = a.pieces.length → 0 < p.length

/-- An assembly that is incomplete, and not too large. -/
structure Assembly.Bounded (a : Assembly) : Prop extends a.Sized where
  incomplete : a.count < a.pieces.length
  small : a.size ≤ maxUDP

variable {a : Assembly}

theorem Assembly.Sized.length_packet (h : a.Sized) : a.packet.length = a.size := by
  rw [h.size, packet, List.length_flatMap]

theorem freshAssembly_bounded (now : ℤ) {n : ℕ} (h : 2 ≤ n ∧ n ≤ 66) :
    (DatagramFlow.freshAssembly now n).Bounded where
  slots := by rwa [DatagramFlow.freshAssembly, List.length_replicate]
  count := by simp [DatagramFlow.freshAssembly, List.countP_replicate]
  size := by simp [DatagramFlow.freshAssembly]
  full i p hp := by simp [DatagramFlow.freshAssembly, List.getElem?_replicate] at hp
  last i p hp := by simp [DatagramFlow.freshAssembly, List.getElem?_replicate] at hp
  incomplete := by
    rw [DatagramFlow.freshAssembly, List.length_replicate]
    exact Nat.lt_of_lt_of_le Nat.zero_lt_two h.1
  small := Nat.zero_le _

variable {i : ℕ}

/-- The sum over a list when one empty slot is filled. -/
theorem sum_set_of_none {l : List (Option Bytes)} (hi : l[i]? = some none) (p : Bytes) :
    ((l.set i (some p)).map fun p => (p.getD []).length).sum =
      (l.map fun p => (p.getD []).length).sum + p.length := by
  induction l generalizing i with
  | nil => cases hi
  | cons q l ih =>
    cases i with
    | zero =>
      cases hi
      simp [Nat.add_comm]
    | succ i =>
      rw [List.set_cons_succ, List.map_cons, List.sum_cons, ih hi, List.map_cons, List.sum_cons,
        Nat.add_assoc]

/-- Filling an empty slot with a fragment of the right length. -/
theorem Assembly.Sized.fill (h : a.Sized) {p : Bytes} (hi : a.pieces[i]? = some none)
    (hp : ¬ Malformed i a.pieces.length p) : (a.fill i p).Sized where
  slots := by simpa only [Assembly.fill, List.length_set] using h.slots
  count := by
    simp only [Assembly.fill]
    rw [countP_set_of_none hi, h.count]
  size := by
    simp only [Assembly.fill]
    rw [sum_set_of_none hi, h.size]
  full j q hq hj := by
    simp only [Assembly.fill, List.getElem?_set, List.length_set] at hq hj
    split_ifs at hq with hij
    · cases hq
      by_contra hlen
      exact hp (.inr (.inr (.inr (.inl ⟨by omega, hlen⟩))))
    · exact h.full j q hq hj
  last j q hq hj := by
    simp only [Assembly.fill, List.getElem?_set, List.length_set] at hq hj
    split_ifs at hq with hij
    · cases hq
      by_contra hlen
      have hslots := h.slots.1
      exact hp (.inr (.inr (.inr (.inr ⟨by omega, by omega, by omega⟩))))
    · exact h.last j q hq hj

/-- A complete packet of two fragments or more is longer than one fragment. -/
theorem Assembly.Sized.lt_size (h : a.Sized) (hc : a.count = a.pieces.length) :
    datagramChunk < a.size := by
  have hall : ∀ p ∈ a.pieces, Option.isSome p := by
    rw [← List.countP_eq_length, ← h.count, hc]
  have hget : ∀ i, i < a.pieces.length → ∃ p, a.pieces[i]? = some (some p) := fun i hi => by
    obtain ⟨p, hp⟩ := Option.isSome_iff_exists.1 (hall _ (List.getElem_mem hi))
    exact ⟨p, by rw [List.getElem?_eq_getElem hi, hp]⟩
  have hslots := h.slots.1
  obtain ⟨p, hp⟩ := hget 0 (by omega)
  obtain ⟨q, hq⟩ := hget (a.pieces.length - 1) (by omega)
  have hplen : p.length = datagramChunk := h.full 0 p hp (by omega)
  have hqlen : 0 < q.length := h.last _ q hq (by omega)
  rw [h.size]
  cases hpieces : a.pieces with
  | nil =>
    rw [hpieces] at hp
    cases hp
  | cons x rest =>
    rw [hpieces] at hp hq hslots
    cases hp
    -- The last fragment is one of those after the first.
    have hmem : some q ∈ rest := by
      obtain ⟨k, hk⟩ : ∃ k, (some p :: rest).length - 1 = k + 1 := ⟨rest.length - 1, by
        rw [List.length_cons] at hslots ⊢
        omega⟩
      rw [hk, List.getElem?_cons_succ] at hq
      exact List.mem_of_getElem? hq
    have hle : q.length ≤ (rest.map fun p => (p.getD []).length).sum :=
      List.le_sum_of_mem (List.mem_map.2 ⟨some q, hmem, rfl⟩)
    rw [List.map_cons, List.sum_cons, Option.getD_some, hplen]
    omega

namespace DatagramFlow

/-- The incomplete packets of a flow are few, incomplete and not too large. -/
structure Bounded (f : DatagramFlow) : Prop where
  few : Map.len f.parts ≤ 8
  parts : ∀ seq a, f.parts.lookup seq = some a → a.Bounded

/-- The lengths of what accepting a datagram of a packet of `n` fragments puts
    in the queue. -/
structure Lengths (n : ℕ) (p : Bytes) : Prop where
  le : p.length ≤ maxUDP
  lt : n ≠ 1 → datagramChunk < p.length

theorem bounded_new (id : UInt64) : Bounded ⟨id, 0, [], none, ∅⟩ :=
  ⟨Nat.zero_le _, fun _ _ h => by cases h⟩

theorem Bounded.of_parts {f f' : DatagramFlow} (h : f.Bounded) (hparts : f'.parts = f.parts) :
    f'.Bounded := ⟨hparts ▸ h.few, fun seq a ha => h.parts seq a (hparts ▸ ha)⟩

variable {f : DatagramFlow}

theorem Bounded.insert (h : f.Bounded) {seq : UInt32} {a : Assembly} (ha : a.Bounded)
    (hlen : Map.len (f.parts.insert seq a) ≤ 8) :
    Bounded { f with parts := f.parts.insert seq a } where
  few := hlen
  parts k a' hk := by
    rw [Map.lookup_insert'] at hk
    split_ifs at hk
    · cases hk
      exact ha
    · exact h.parts k a' hk

theorem Bounded.erase (h : f.Bounded) (seq : UInt32) :
    Bounded { f with parts := f.parts.erase seq } where
  few := (Map.len_erase_le _ _).trans h.few
  parts k a' hk := by
    rw [Map.lookup_erase'] at hk
    split_ifs at hk
    exact h.parts k a' hk

theorem Bounded.live (h : f.Bounded) (now : ℤ) :
    Bounded { f with parts := f.live now } where
  few := (Map.len_filter_le _ _).trans h.few
  parts k a' hk := h.parts k a' (Map.lookup_of_lookup_filter hk)

variable {f : DatagramFlow}

theorem place_bounded (h : f.Bounded) {seq : UInt32} {a : Assembly} {index n : ℕ} {payload : Bytes}
    (ha : a.Bounded) (hlen : ∀ a, Map.len (f.parts.insert seq a) ≤ 8)
    (hp : ¬ Malformed index n payload) : (f.place seq a index n payload).flow.Bounded ∧
      ∀ p, (f.place seq a index n payload).put = some p → Lengths n p := by
  have hin := h.insert ha (hlen a)
  simp only [place]
  split_ifs with hn hi hsize hcount
  · exact ⟨hin, fun p h => by cases h⟩
  · exact ⟨hin, fun p h => by cases h⟩
  · exact ⟨hin.erase seq, fun p h => by cases h⟩
  all_goals
    rw [not_not] at hn hi
    subst hn
    have hfill := ha.toSized.fill hi hp
  · refine ⟨(hin.erase seq).of_parts (deliver_parts _ _), fun p h => ?_⟩
    rw [deliver_put h]
    refine ⟨?_, fun _ => ?_⟩
    · rw [hfill.length_packet]
      exact not_lt.1 hsize
    · rw [hfill.length_packet]
      refine hfill.lt_size ?_
      rw [hcount, Assembly.fill, List.length_set]
  · refine ⟨?_, fun p h => by cases h⟩
    have hbound : (a.fill index payload).Bounded := ⟨hfill, lt_of_le_of_ne ?_ ?_, not_lt.1 hsize⟩
    · rw [Finmap.insert_insert]
      exact h.insert hbound (hlen _)
    · rw [hfill.count]
      exact List.countP_le_length
    · simpa only [Assembly.fill, List.length_set] using hcount

/-- Accepting a datagram of the peer keeps a flow bounded. -/
theorem accept_bounded (h : f.Bounded) (now : ℤ) {b : Bytes} (hb : Fits b) :
    (f.accept now b).flow.Bounded ∧
      ∀ p, (f.accept now b).put = some p → Lengths (datagramTotal b) p := by
  rw [accept_eq, handle]
  split_ifs with hbad hone
  · exact ⟨h, fun p h => by cases h⟩
  · refine ⟨h.of_parts (deliver_parts _ _), fun p hput => ?_⟩
    rw [deliver_put hput]
    refine ⟨?_, fun hne => absurd hone hne⟩
    simp only [Fits, datagramChunk] at hb
    rw [List.length_drop, maxUDP]
    omega
  · have hn : 2 ≤ datagramTotal b ∧ datagramTotal b ≤ 66 := by
      simp only [Malformed] at hbad
      omega
    have hlive := h.live now
    dsimp only
    split
    next a ha =>
      refine place_bounded hlive (hlive.parts _ a ha) (fun a' => ?_) hbad
      rw [Map.len_insert_of_lookup ha]
      exact hlive.few
    next ha =>
      split_ifs with hlen
      · exact ⟨hlive, fun p h => by cases h⟩
      · refine place_bounded hlive (freshAssembly_bounded now hn) (fun a' => ?_) hbad
        rw [Map.len_insert_of_lookup_none ha]
        exact not_le.1 hlen

end DatagramFlow

/-! ## Index expressions -/

/-- The slice expression `b[i:]`; `none` is a panic. -/
def sliceFrom? (b : Bytes) (i : ℕ) : Option Bytes :=
  if i ≤ b.length then some (b.drop i) else none

/-- `binary.BigEndian`'s `Uint16`, `Uint32` and `Uint64`, for `w` bytes: they
    index `b` up to `w - 1`; `none` is a panic. -/
def uint? (w : ℕ) (b : Bytes) : Option ℕ := if w ≤ b.length then some (uint (b.take w)) else none

theorem sliceFrom?_eq {b : Bytes} (h : i ≤ b.length) : sliceFrom? b i = some (b.drop i) :=
  if_pos h

theorem uint?_eq {w : ℕ} {b : Bytes} (h : w ≤ b.length) : uint? w b = some (uint (b.take w)) :=
  if_pos h

namespace DatagramFlow

/-- `place`, with the index expressions `a.pieces[index]` checked. -/
def place? (f : DatagramFlow) (seq : UInt32) (a : Assembly) (index total : ℕ) (payload : Bytes) :
    Option Accepted :=
  if a.pieces.length ≠ total then some (f.place seq a index total payload)
  else if index < a.pieces.length then some (f.place seq a index total payload)
  else none

/-- `accept` after the header is read, with the index expressions checked. -/
def handle? (f : DatagramFlow) (now : ℤ) (seq : UInt32) (index total : ℕ) (payload : Bytes) :
    Option Accepted :=
  if Malformed index total payload then some ⟨f, 1, none⟩
  else if total = 1 then some (f.deliver payload)
  else
    let g := { f with parts := f.live now }
    let r := match g.parts.lookup seq with
      | some a => g.place? seq a index total payload
      | none =>
        if 8 ≤ Map.len g.parts then some ⟨g, 1, none⟩
        else g.place? seq (freshAssembly now total) index total payload
    r.map fun r => { r with drops := r.drops + f.expired now }

/-- `accept`, with the slice and index expressions checked: `none` is a panic. -/
def accept? (f : DatagramFlow) (now : ℤ) (b : Bytes) : Option Accepted := do
  let seq ← uint? 4 (← sliceFrom? b 8)
  let index ← uint? 2 (← sliceFrom? b 12)
  let total ← uint? 2 (← sliceFrom? b 14)
  let payload ← sliceFrom? b 16
  f.handle? now (UInt32.ofNat seq) index total payload

theorem place?_eq (f : DatagramFlow) (seq : UInt32) (a : Assembly) {index total : ℕ}
    {payload : Bytes} (h : ¬ Malformed index total payload) :
    f.place? seq a index total payload = some (f.place seq a index total payload) := by
  rw [place?]
  split_ifs with hn hi
  · rfl
  · rfl
  · rw [not_not] at hn
    exact absurd (.inr (.inr (.inl (by omega)))) h

theorem handle?_eq (f : DatagramFlow) (now : ℤ) (seq : UInt32) (index total : ℕ)
    (payload : Bytes) :
    f.handle? now seq index total payload = some (f.handle now seq index total payload) := by
  rw [handle?, handle]
  split_ifs with hformed hone
  · rfl
  · rfl
  · dsimp only
    split
    · rw [place?_eq _ _ _ hformed]
      rfl
    · split_ifs
      · rfl
      · rw [place?_eq _ _ _ hformed]
        rfl

theorem accept?_eq (f : DatagramFlow) (now : ℤ) {b : Bytes} (h : 16 ≤ b.length) :
    f.accept? now b = some (f.accept now b) := by
  simp only [accept?, sliceFrom?_eq h, sliceFrom?_eq (show 8 ≤ b.length by omega),
    sliceFrom?_eq (show 12 ≤ b.length by omega), sliceFrom?_eq (show 14 ≤ b.length by omega),
    uint?_eq (show 4 ≤ (b.drop 8).length by rw [List.length_drop]; omega),
    uint?_eq (show 2 ≤ (b.drop 12).length by rw [List.length_drop]; omega),
    uint?_eq (show 2 ≤ (b.drop 14).length by rw [List.length_drop]; omega), Option.bind_eq_bind,
    Option.bind_some]
  rw [handle?_eq, accept_eq]
  rfl

end DatagramFlow

namespace DatagramMux

/-- `receive`, with the slice and index expressions checked: `none` is a panic. -/
def receive? (m : DatagramMux) (now : ℤ) (b : Bytes) :
    Option (DatagramMux × Option (UInt64 × Bytes)) :=
  if b.length < 16 ∨ 16 + datagramChunk < b.length then some ({ m with drops := m.drops + 1 }, none)
  else do
    let id ← uint? 8 b
    match m.flows.lookup (UInt64.ofNat id) with
    | none => some ({ m with drops := m.drops + 1 }, none)
    | some f =>
      let r ← f.accept? now b
      some ({ m with
          flows := m.flows.insert (UInt64.ofNat id) r.flow, drops := m.drops + r.drops },
        r.put.map fun p => (UInt64.ofNat id, p))

/-- No slice or index expression is out of range. -/
theorem receive?_eq (m : DatagramMux) (now : ℤ) (b : Bytes) :
    m.receive? now b = some (m.receive now b) := by
  rw [receive?]
  split_ifs with hb
  · rw [receive_of_not_fits (not_not.2 hb)]
  · have hlen : 16 ≤ b.length := by omega
    rw [uint?_eq (by omega), Option.bind_eq_bind, Option.bind_some]
    cases hf : m.flows.lookup (datagramFlow b) with
    | none =>
      rw [receive_of_unknown hb hf]
      simp only [datagramFlow] at hf
      simp only [hf]
    | some f =>
      rw [receive_of_open hb hf]
      simp only [datagramFlow] at hf ⊢
      simp only [hf, DatagramFlow.accept?_eq f now hlen, Option.bind_eq_bind, Option.bind_some]

/-! ## Whole runs -/

/-- Every flow is bounded, and so is every packet put so far. -/
structure Bounded (as : List Act) (m : DatagramMux) : Prop where
  flows : ∀ id f, m.flows.lookup id = some f → f.Bounded
  put : ∀ now b id p, Act.receive now b (some (id, p)) ∈ as →
    DatagramFlow.Lengths (datagramTotal b) p

theorem Moves.bounded {id : UInt64} {f f' : DatagramFlow} {a : Act} (h : Moves id f a f')
    (hf : f.Bounded) : f'.Bounded := by
  cases h with
  | accept hto => exact (DatagramFlow.accept_bounded hf _ hto.1).1
  | other hparts => exact hf.of_parts hparts

theorem Bounded.step {as : List Act} {m m' : DatagramMux} {a : Act} (h : Bounded as m)
    (hstep : Step m a m') : Bounded (as ++ [a]) m' where
  flows id f' hf' := by
    rcases step_lookup_new hstep hf' with rfl | ⟨f, hf, hmove⟩
    · exact DatagramFlow.bounded_new id
    · exact hmove.bounded (h.flows id f hf)
  put now b id p hmem := by
    rcases mem_snoc.1 hmem with hmem | hmem
    · exact h.put now b id p hmem
    · cases hmem
      generalize hput : some (id, p) = put at hstep
      cases hstep with
      | receive =>
        by_cases hb : Fits b
        · cases hf : m.flows.lookup (datagramFlow b) with
          | none =>
            rw [receive_of_unknown hb hf] at hput
            cases hput
          | some f =>
            rw [receive_of_open hb hf] at hput
            obtain ⟨p', hp', heq⟩ := Option.map_eq_some_iff.1 hput.symm
            cases heq
            exact (DatagramFlow.accept_bounded (h.flows _ f hf) now hb).2 p hp'
        · rw [receive_of_not_fits hb] at hput
          cases hput

theorem bounded_of_run {as : List Act} {m : DatagramMux} (h : system.Run as m) : Bounded as m := by
  refine h.invariant (fun m hm => ?_) fun as m a m' hm hstep => hm.step hstep
  cases hm
  exact ⟨fun id f hf => (by cases hf), fun _ _ _ _ h => (by cases h)⟩

namespace Sample

/-- A mux with one flow. -/
def opened : DatagramMux := { new with flows := new.flows.insert 1 ⟨1, 0, [], none, ∅⟩ }

/-- A payload of two fragments. -/
def payload : Bytes := List.replicate 1500 7

/-- The mux after the second fragment of a packet. -/
def half : DatagramMux := (opened.receive 0 (fragment 1 5 payload 1)).1

theorem opened_run : system.Run [.register 1] opened :=
  .step (.init rfl) (.register rfl)

theorem half_run : system.Run
    ([.register 1] ++ [.receive 0 (fragment 1 5 payload 1)
      (opened.receive 0 (fragment 1 5 payload 1)).2]) half :=
  opened_run.step (.receive _ _ _)

end Sample

end DatagramMux

end QuicLab.Gateway
