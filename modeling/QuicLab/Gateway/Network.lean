import QuicLab.System
import QuicLab.Gateway.Datagram

/-!
# UDP over QUIC DATAGRAM: two muxes and a network

The system of a sending mux, a network and a receiving mux. A `Write` runs
concurrently with the others: it takes its sequence number in one step, and
each turn of its loop is another one (`Writing`). The network holds the
datagrams handed to the connection; it may lose any of them, and deliver them
in any order, but each one at most once, as QUIC does with DATAGRAM frames.
Any step may happen at any time of the clock.

Besides the state of the parties, a state records the history the properties
are about: the `Write`s made, the datagrams that arrived, and the packets put
in the queues of the receiving flows.
-/

namespace QuicLab.Gateway

open Go

/-- A `Write` in its loop: the datagrams it has still to queue. -/
structure Writing where
  flow : UInt64
  since : ℤ
  rest : List Bytes
  deriving DecidableEq

/-- The two muxes and the network between them, with the history. -/
structure Net where
  /-- The sending mux. -/
  tx : DatagramMux
  /-- The `Write`s in their loops. -/
  writing : List Writing
  /-- The datagrams in flight. -/
  wire : List Bytes
  /-- The receiving mux. -/
  rx : DatagramMux
  /-- The ids of all flows ever opened on the sending mux. -/
  opened : List UInt64
  /-- The `Write`s made so far. -/
  writes : List Packet
  /-- The datagrams that arrived so far. -/
  arrived : List Bytes
  /-- The packets put in the queues of the receiving flows so far. -/
  delivered : List Packet

namespace Net

/-- Two new muxes. -/
def initial : Net := ⟨.new, [], [], .new, [], [], [], []⟩

/-- The moves of the parties. -/
inductive Action
  | register (id : UInt64)
  | setWriteDeadline (id : UInt64) (deadline : Option ℤ)
  | close (id : UInt64)
  | write (id : UInt64) (b : Bytes)
  | queue (w : Writing)
  | send
  | lose (b : Bytes)
  | deliver (b : Bytes)
  | registerRemote (id : UInt64)
  | closeRemote (id : UInt64)
  | read (id : UInt64)

/-- The state after a `Write` took its sequence number. -/
def afterWrite (s : Net) (now : ℤ) (f : DatagramFlow) (fs : List Bytes) (id : UInt64) (b : Bytes) :
    Net :=
  { s with
    tx := { s.tx with flows := s.tx.flows.insert id f }
    writing := s.writing ++ [⟨id, now, fs⟩]
    writes := s.writes ++ [⟨id, f.seq, b⟩] }

/-- The state after the datagram `b` reached the receiving mux. -/
def afterDeliver (s : Net) (now : ℤ) (b : Bytes) : Net :=
  let r := s.rx.receive now b
  { s with
    rx := r.1
    arrived := s.arrived ++ [b]
    delivered := s.delivered ++
      (r.2.map fun p => (⟨p.1, UInt32.ofNat (uint ((b.drop 8).take 4)), p.2⟩ : Packet)).toList }

/-- The steps of the system. -/
inductive Step : Net → Action → Net → Prop
  /-- The sending side opens a flow, under an id it has never used. -/
  | register {s : Net} {id : UInt64} {m : DatagramMux} :
      id ∉ s.opened → s.tx.register id = some m →
      Step s (.register id) { s with tx := m, opened := id :: s.opened }
  | setWriteDeadline {s : Net} {id : UInt64} {f : DatagramFlow} {d : Option ℤ} :
      s.tx.flows.lookup id = some f →
      Step s (.setWriteDeadline id d)
        { s with tx := { s.tx with flows := s.tx.flows.insert id { f with writeDeadline := d } } }
  | close {s : Net} {id : UInt64} : Step s (.close id) { s with tx := s.tx.close id }
  | write {s : Net} {id : UInt64} {f f' : DatagramFlow} {fs : List Bytes} {now : ℤ} {b : Bytes} :
      s.tx.flows.lookup id = some f → f.write now b = some (f', fs) →
      Step s (.write id b) (s.afterWrite now f' fs id b)
  /-- A turn of the loop of a `Write`: one more datagram in the send queue. -/
  | queue {s : Net} {pre post : List Writing} {w : Writing} {p : Bytes} {rest : List Bytes}
      {m : DatagramMux} :
      s.writing = pre ++ w :: post → w.rest = p :: rest →
      s.tx.enqueue ⟨w.flow, p, w.since⟩ = (m, true) →
      Step s (.queue w) { s with tx := m, writing := pre ++ { w with rest := rest } :: post }
  /-- The send queue is full: the `Write` returns, its packet partly sent. -/
  | overflow {s : Net} {pre post : List Writing} {w : Writing} {p : Bytes} {rest : List Bytes}
      {m : DatagramMux} :
      s.writing = pre ++ w :: post → w.rest = p :: rest →
      s.tx.enqueue ⟨w.flow, p, w.since⟩ = (m, false) →
      Step s (.queue w) { s with tx := m, writing := pre ++ post }
  /-- The loop of a `Write` is over. -/
  | finish {s : Net} {pre post : List Writing} {w : Writing} :
      s.writing = pre ++ w :: post → w.rest = [] →
      Step s (.queue w) { s with writing := pre ++ post }
  /-- A turn of the sender goroutine. -/
  | send {s : Net} {now : ℤ} {ok : Bool} {m : DatagramMux} {out : Option Bytes} :
      s.tx.sender now ok = (m, out) →
      Step s .send { s with tx := m, wire := s.wire ++ out.toList }
  | lose {s : Net} {pre post : List Bytes} {b : Bytes} :
      s.wire = pre ++ b :: post → Step s (.lose b) { s with wire := pre ++ post }
  | deliver {s : Net} {pre post : List Bytes} {b : Bytes} {now : ℤ} :
      s.wire = pre ++ b :: post →
      Step s (.deliver b) ({ s with wire := pre ++ post }.afterDeliver now b)
  | registerRemote {s : Net} {id : UInt64} {m : DatagramMux} :
      s.rx.register id = some m → Step s (.registerRemote id) { s with rx := m }
  | closeRemote {s : Net} {id : UInt64} :
      Step s (.closeRemote id) { s with rx := s.rx.close id }
  | read {s : Net} {id : UInt64} {m : DatagramMux} {p : Bytes} :
      s.rx.read id = some (m, p) → Step s (.read id) { s with rx := m }

/-- The system, from two new muxes. -/
def system : System Net Action where
  init s := s = initial
  step := Step

end Net

end QuicLab.Gateway
