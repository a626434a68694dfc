import QuicLab.Gateway.Wire
import QuicLab.Go.Map

/-!
# UDP over QUIC DATAGRAM: the mux

`DatagramMux` carries the UDP packets of many flows over the DATAGRAM frames of
one QUIC connection. A packet of more than `datagramChunk` bytes is cut into
fragments, each with a header of 16 bytes: the flow's id, the packet's sequence
number, the fragment's index and the number of fragments.

* `DatagramFlow.write` takes a sequence number and cuts a payload
  (`fragments`); each fragment is then queued for the sender goroutine
  (`DatagramMux.enqueue`), a full queue ending the call.
* `DatagramMux.sender` takes a queued datagram to the connection, unless its
  flow is closed or it waited too long.
* `DatagramMux.receive` finds the flow of an incoming datagram and hands it to
  `DatagramFlow.accept`, which keeps the fragments of incomplete packets
  (`Assembly`) and puts complete ones in the flow's queue (`deliver`).

Times are in nanoseconds. A flow that is `done` is one that `Close` removed
from the mux: ids are never reused by the sending side.
-/

namespace QuicLab.Gateway

open Go

/-- The payload bytes of a fragment. -/
def datagramChunk : ℕ := 1000

/-- The largest UDP payload. -/
def maxUDP : ℕ := 65507

/-- How long an incomplete packet is kept, in nanoseconds. -/
def fragmentLifetime : ℤ := 500000000

/-- How long a datagram may wait in the send queue, in nanoseconds. -/
def queueLifetime : ℤ := 200000000

/-- The capacity of the queues `DatagramMux.send` and `DatagramFlow.recv`. -/
def queueCap : ℕ := 32

/-- An incomplete packet: when its first fragment came, its fragments so far,
    their number and total size. -/
structure Assembly where
  since : ℤ
  pieces : List (Option Bytes)
  count : ℕ
  size : ℕ
  deriving DecidableEq

/-- A flow: the last sequence number used, the packets received and not yet
    read, the write deadline and the incomplete packets. -/
structure DatagramFlow where
  id : UInt64
  seq : UInt32
  recv : List Bytes
  writeDeadline : Option ℤ
  parts : Map UInt32 Assembly

/-- A datagram in the send queue. -/
structure QueuedDatagram where
  flow : UInt64
  payload : Bytes
  since : ℤ
  deriving DecidableEq

/-- The mux: its open flows, its send queue and the count of drops. -/
structure DatagramMux where
  flows : Map UInt64 DatagramFlow
  send : List QueuedDatagram
  drops : ℕ

namespace DatagramMux

/-- A new mux. -/
def new : DatagramMux := ⟨∅, [], 0⟩

/-- `Register`: a new flow, unless there are too many or the id is taken. -/
def register (m : DatagramMux) (id : UInt64) : Option DatagramMux :=
  if maxFlows ≤ Map.len m.flows then none
  else if (m.flows.lookup id).isSome then none
  else some { m with flows := m.flows.insert id ⟨id, 0, [], none, ∅⟩ }

theorem register_eq {m m' : DatagramMux} {id : UInt64} (h : m.register id = some m') :
    m' = { m with flows := m.flows.insert id ⟨id, 0, [], none, ∅⟩ } := by
  rw [register] at h
  split_ifs at h
  exact (Option.some.inj h).symm

/-- `Close`: the flow is done and forgotten. -/
def close (m : DatagramMux) (id : UInt64) : DatagramMux :=
  { m with flows := m.flows.erase id }

end DatagramMux

/-! ## Sending -/

/-- The number of fragments of a payload; an empty one still has one. -/
def total (b : Bytes) : ℕ := max 1 ((b.length + datagramChunk - 1) / datagramChunk)

/-- The bytes of `b` in its fragment `i`. -/
def chunk (b : Bytes) (i : ℕ) : Bytes := (b.drop (i * datagramChunk)).take datagramChunk

/-- The datagram of the fragment `i` of the packet `seq` of a flow. -/
def fragment (id : UInt64) (seq : UInt32) (b : Bytes) (i : ℕ) : Bytes :=
  putUint 8 id.toNat ++ (putUint 4 seq.toNat ++ (putUint 2 i ++ (putUint 2 (total b) ++ chunk b i)))

/-- The datagrams of a packet. -/
def fragments (id : UInt64) (seq : UInt32) (b : Bytes) : List Bytes :=
  (List.range (total b)).map (fragment id seq b)

/-- A packet of a flow: the argument of a `Write` with the sequence number it
    took, or a packet put in the queue of the flow with the sequence number of
    the datagram that completed it. -/
structure Packet where
  flow : UInt64
  seq : UInt32
  payload : Bytes
  deriving DecidableEq

/-- The datagram of the fragment `i` of a packet. -/
def Packet.fragment (w : Packet) (i : ℕ) : Bytes := Gateway.fragment w.flow w.seq w.payload i

/-- `Write` up to its loop: the checks, then the next sequence number; the
    datagrams are those the loop queues one by one. `none` is an error. -/
def DatagramFlow.write (f : DatagramFlow) (now : ℤ) (b : Bytes) :
    Option (DatagramFlow × List Bytes) :=
  if f.writeDeadline.any (· ≤ now) then none
  else if maxUDP < b.length then none
  else
    let seq := f.seq + 1
    some ({ f with seq := seq }, fragments f.id seq b)

theorem DatagramFlow.write_eq {f f' : DatagramFlow} {now : ℤ} {b : Bytes} {fs : List Bytes}
    (h : f.write now b = some (f', fs)) : b.length ≤ maxUDP ∧
      f' = { f with seq := f.seq + 1 } ∧ fs = fragments f.id (f.seq + 1) b := by
  rw [write] at h
  split_ifs at h with _ hlen
  cases h
  exact ⟨not_lt.1 hlen, rfl, rfl⟩

namespace DatagramMux

/-- One turn of `Write`'s loop: the datagram is queued, or dropped when the
    queue is full (the flag: `Write` then returns). -/
def enqueue (m : DatagramMux) (q : QueuedDatagram) : DatagramMux × Bool :=
  if m.send.length < queueCap then ({ m with send := m.send ++ [q] }, true)
  else ({ m with drops := m.drops + 1 }, false)

theorem enqueue_true {m m' : DatagramMux} {q : QueuedDatagram}
    (h : m.enqueue q = (m', true)) : m'.flows = m.flows ∧ m'.send = m.send ++ [q] := by
  rw [enqueue] at h
  split_ifs at h <;> cases h
  exact ⟨rfl, rfl⟩

theorem enqueue_false {m m' : DatagramMux} {q : QueuedDatagram}
    (h : m.enqueue q = (m', false)) : m'.flows = m.flows ∧ m'.send = m.send := by
  rw [enqueue] at h
  split_ifs at h <;> cases h
  exact ⟨rfl, rfl⟩

/-- One turn of `sender`: the datagram at the head of the queue goes to the
    connection, unless its flow is done, it is too old, or `SendDatagram`
    fails (`ok`). -/
def sender (m : DatagramMux) (now : ℤ) (ok : Bool) : DatagramMux × Option Bytes :=
  match m.send with
  | [] => (m, none)
  | q :: rest =>
    let m := { m with send := rest }
    if m.flows.lookup q.flow = none then (m, none)
    else if queueLifetime < now - q.since then ({ m with drops := m.drops + 1 }, none)
    else if ok then (m, some q.payload)
    else ({ m with drops := m.drops + 1 }, none)

/-- The sender takes the head of the queue to the connection, or drops it. -/
theorem sender_eq {m m' : DatagramMux} {now : ℤ} {ok : Bool} {out : Option Bytes}
    (h : m.sender now ok = (m', out)) : m'.flows = m.flows ∧
      ∀ b, (m'.send.map (·.payload)).count b + out.toList.count b ≤
        (m.send.map (·.payload)).count b := by
  rw [sender] at h
  split at h
  next hsend =>
    cases h
    exact ⟨rfl, fun b => le_of_eq rfl⟩
  next q rest hsend =>
    rw [hsend]
    simp only at h
    split_ifs at h <;> cases h <;> refine ⟨rfl, fun b => ?_⟩ <;>
      simp only [List.map_cons, List.count_cons, Option.toList, List.count_nil] <;> omega

end DatagramMux

/-! ## Receiving -/

/-- What handling a datagram does to a flow: its new state, the drops counted,
    and the packet put in its queue, if any. -/
structure Accepted where
  flow : DatagramFlow
  drops : ℕ
  put : Option Bytes

namespace DatagramFlow

/-- `deliver`: the packet goes in the queue, or is dropped when it is full. -/
def deliver (f : DatagramFlow) (b : Bytes) : Accepted :=
  if f.recv.length < queueCap then ⟨{ f with recv := f.recv ++ [b] }, 0, some b⟩
  else ⟨f, 1, none⟩

/-- The assemblies that have not expired. -/
def live (f : DatagramFlow) (now : ℤ) : Map UInt32 Assembly :=
  Map.filter (fun _ a => ¬ fragmentLifetime < now - a.since) f.parts

/-- The number of expired assemblies, dropped by the next fragment. -/
def expired (f : DatagramFlow) (now : ℤ) : ℕ :=
  Map.len (Map.filter (fun _ a => fragmentLifetime < now - a.since) f.parts)

/-- A new assembly for a packet of `total` fragments. -/
def freshAssembly (now : ℤ) (total : ℕ) : Assembly := ⟨now, List.replicate total none, 0, 0⟩

end DatagramFlow

/-- The assembly with the fragment `index` filled in. -/
def Assembly.fill (a : Assembly) (index : ℕ) (payload : Bytes) : Assembly :=
  { a with
    pieces := a.pieces.set index (some payload)
    count := a.count + 1
    size := a.size + payload.length }

/-- The packet of an assembly: its fragments in order. -/
def Assembly.packet (a : Assembly) : Bytes := a.pieces.flatMap fun p => p.getD []

namespace DatagramFlow

/-- The end of `accept`, on the assembly `a` of the packet `seq`: a fragment
    that disagrees on the number of fragments is dropped, one that came before
    is ignored, and the last one completes the packet. -/
def place (f : DatagramFlow) (seq : UInt32) (a : Assembly) (index total : ℕ) (payload : Bytes) :
    Accepted :=
  let f := { f with parts := f.parts.insert seq a }
  if a.pieces.length ≠ total then ⟨f, 1, none⟩
  else if a.pieces[index]? ≠ some none then ⟨f, 0, none⟩
  else
    let a := a.fill index payload
    if maxUDP < a.size then ⟨{ f with parts := f.parts.erase seq }, 1, none⟩
    else if a.count = total then { f with parts := f.parts.erase seq }.deliver a.packet
    else ⟨{ f with parts := f.parts.insert seq a }, 0, none⟩

/-- `accept`: a datagram of the flow (at least its 16 bytes of header). -/
def accept (f : DatagramFlow) (now : ℤ) (b : Bytes) : Accepted :=
  let seq := UInt32.ofNat (uint ((b.drop 8).take 4))
  let index := uint ((b.drop 12).take 2)
  let total := uint ((b.drop 14).take 2)
  let payload := b.drop 16
  if total < 1 ∨ 66 < total ∨ total ≤ index ∨
      (index < total - 1 ∧ payload.length ≠ datagramChunk) ∨
      (1 < total ∧ index = total - 1 ∧ payload.length = 0) then ⟨f, 1, none⟩
  else if total = 1 then f.deliver payload
  else
    -- Assemblies only expire when a fragment comes, and before it is placed.
    let g := { f with parts := f.live now }
    let r := match g.parts.lookup seq with
      | some a => g.place seq a index total payload
      | none =>
        if 8 ≤ Map.len g.parts then ⟨g, 1, none⟩
        else g.place seq (freshAssembly now total) index total payload
    { r with drops := r.drops + f.expired now }

end DatagramFlow

namespace DatagramMux

/-- One turn of `receive`: an incoming datagram, and the packet it makes its
    flow deliver, if any. -/
def receive (m : DatagramMux) (now : ℤ) (b : Bytes) : DatagramMux × Option (UInt64 × Bytes) :=
  if b.length < 16 ∨ 16 + datagramChunk < b.length then ({ m with drops := m.drops + 1 }, none)
  else
    let id := UInt64.ofNat (uint (b.take 8))
    match m.flows.lookup id with
    | none => ({ m with drops := m.drops + 1 }, none)
    | some f =>
      let r := f.accept now b
      ({ m with flows := m.flows.insert id r.flow, drops := m.drops + r.drops },
        r.put.map fun p => (id, p))

/-- `Read`: the next packet of a flow. -/
def read (m : DatagramMux) (id : UInt64) : Option (DatagramMux × Bytes) :=
  match m.flows.lookup id with
  | none => none
  | some f =>
    match f.recv with
    | [] => none
    | p :: rest => some ({ m with flows := m.flows.insert id { f with recv := rest } }, p)

theorem read_eq {m m' : DatagramMux} {id : UInt64} {p : Bytes} (h : m.read id = some (m', p)) :
    ∃ f rest, m.flows.lookup id = some f ∧ f.recv = p :: rest ∧
      m' = { m with flows := m.flows.insert id { f with recv := rest } } := by
  rw [read] at h
  split at h
  · cases h
  next f hf =>
    split at h
    · cases h
    next hr =>
      cases h
      exact ⟨f, _, hf, hr, rfl⟩

end DatagramMux

end QuicLab.Gateway
