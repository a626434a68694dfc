import QuicLab.Go.Reader

/-!
# Framing on streams

Packets with a length of two bytes in front (`writePacket`, `readPacket`), and
the streams of the HTTPS transport made of them: an `MStream` cuts what is
written to it into frames of at most 32768 bytes, and closes its writing half
with an empty frame, which the reading half takes for the end of the stream.

All is written for any stream with a reader and a writer, as packets are sent
both over smux streams and over the `MStream`s on top of them.
-/

namespace QuicLab.Gateway

open Go

/-- The number of flows of a connection. -/
def maxFlows : ℕ := 128

variable {σ : Type*}

/-- `WritePacket`. -/
def writePacket (w : Writer σ) (b : Bytes) (s : σ) : Option Error × σ :=
  if 65535 < b.length then (some (.new "frame too large"), s)
  else
    match w.write (putUint 2 b.length) s with
    | ((_, some e), s') => (some e, s')
    | ((_, none), s') =>
      match w.write b s' with
      | ((_, e), s'') => (e, s'')

/-- `ReadPacket`, of at most `max` bytes. A packet cut short is padded with
    zeros, as the buffer is. -/
def readPacket (r : Reader σ) (max : ℕ) (s : σ) : (Bytes × Option Error) × σ :=
  match r.readFull 2 s with
  | ((_, some e), s') => (([], some e), s')
  | ((h, none), s') =>
    if max < uint h then (([], some (.new "frame limit")), s')
    else
      match r.readFull (uint h) s' with
      | ((b, e), s'') => ((b.rightpad (uint h) 0, e), s'')

/-- A packet read takes at least its two bytes of length and its bytes. -/
theorem left_readPacket (r : Reader σ) {max : ℕ} {p : Bytes} {s s' : σ}
    (h : readPacket r max s = ((p, none), s')) : r.left s' + p.length + 2 ≤ r.left s := by
  rw [readPacket] at h
  have h₁ := r.left_readFull 2 s
  split at h
  · cases h
  next hd s₁ hr =>
    have h₂ := r.left_readFull (uint hd) s₁
    have hlen := r.length_readFull hr
    rw [hr] at h₁
    split_ifs at h
    · cases h
    split at h
    next b e s₂ hr₂ =>
      cases h
      have hb := r.length_readFull hr₂
      rw [hr₂] at h₂
      simp only at h₁ h₂
      rw [List.rightpad, hb, Nat.sub_self, List.replicate_zero, List.append_nil]
      omega

theorem left_readPacket_le (r : Reader σ) (max : ℕ) (s : σ) :
    r.left (readPacket r max s).2 ≤ r.left s := by
  rw [readPacket]
  have h₁ := r.left_readFull 2 s
  split
  next e s₁ hr =>
    rw [hr] at h₁
    exact (Nat.le_add_right _ _).trans h₁
  next hd s₁ hr =>
    have h₂ := r.left_readFull (uint hd) s₁
    rw [hr] at h₁
    simp only at h₁
    split_ifs
    · exact (Nat.le_add_right _ _).trans h₁
    · simp only
      omega

/-! ## Streams with an end -/

/-- An `MStream` over the stream `raw`: the bytes of a frame not yet read, and
    whether the reading and the writing half are at their end. -/
structure MStream (σ : Type*) where
  raw : σ
  pending : Bytes
  eof : Bool
  writeClosed : Bool

namespace MStream

/-- `NewMStream`. -/
def new (raw : σ) : MStream σ := ⟨raw, [], false, false⟩

/-- `MStream.Read` on a buffer of `n` bytes. -/
def read (r : Reader σ) (n : ℕ) (s : MStream σ) : (Bytes × Option Error) × MStream σ :=
  if n = 0 then (([], none), s)
  else if s.pending = [] then
    if s.eof then (([], some .EOF), s)
    else
      match readPacket r 32768 s.raw with
      | ((_, some e), raw) => (([], some e), { s with raw := raw })
      | (([], none), raw) => (([], some .EOF), { s with raw := raw, eof := true })
      | ((c :: p, none), raw) =>
        (((c :: p).take n, none), { s with raw := raw, pending := (c :: p).drop n })
  else ((s.pending.take n, none), { s with pending := s.pending.drop n })

/-- The loop of `MStream.Write`: frames of at most 32768 bytes, until an error.
    The first argument bounds the number of turns, each taking a byte at
    least. -/
def writeLoop (w : Writer σ) : ℕ → Bytes → ℕ → σ → (ℕ × Option Error) × σ
  | 0, _, total, raw => ((total, none), raw)
  | k + 1, b, total, raw =>
    if b = [] then ((total, none), raw)
    else
      match writePacket w (b.take 32768) raw with
      | (some e, raw) => ((total, some e), raw)
      | (none, raw) => writeLoop w k (b.drop 32768) (total + (b.take 32768).length) raw

/-- `MStream.Write`. -/
def write (w : Writer σ) (b : Bytes) (s : MStream σ) : (ℕ × Option Error) × MStream σ :=
  if s.writeClosed then ((0, some .ErrClosedPipe), s)
  else
    match writeLoop w b.length b 0 s.raw with
    | (r, raw) => (r, { s with raw := raw })

/-- `MStream.CloseWrite`: an empty frame, once. -/
def closeWrite (w : Writer σ) (s : MStream σ) : Option Error × MStream σ :=
  if s.writeClosed then (none, s)
  else
    match writePacket w [] s.raw with
    | (e, raw) => (e, { s with raw := raw, writeClosed := true })

/-- An `MStream` is a reader: what it can still do is bounded by its stream and
    what is pending. -/
def reader (r : Reader σ) : Reader (MStream σ) where
  read := read r
  left s := r.left s.raw + s.pending.length
  length_read n s := by
    rw [read]
    split_ifs with h0
    · exact Nat.zero_le n
    · exact Nat.zero_le n
    · split
      · exact Nat.zero_le n
      · exact Nat.zero_le n
      · exact List.length_take_le _ _
    · exact List.length_take_le _ _
  left_read n s := by
    rw [read]
    split_ifs with h0 hp he
    · exact le_rfl
    · exact le_rfl
    · split
      next e raw hr =>
        have hle := left_readPacket_le r 32768 s.raw
        rw [hr] at hle
        simpa [hp] using hle
      next raw hr =>
        have hle := left_readPacket r hr
        simp only [hp, List.length_nil] at hle ⊢
        omega
      next c p raw hr =>
        have hle := left_readPacket r hr
        simp only [hp, List.length_take, List.length_drop, List.length_nil] at hle ⊢
        omega
    · simp only [List.length_take, List.length_drop]
      omega
  left_lt n s hn h := by
    rw [read] at h ⊢
    rw [if_neg hn.ne'] at h ⊢
    split_ifs at h ⊢ with hp he
    · split at h
      · cases h
      · cases h
      next c p raw hr =>
        have hle := left_readPacket r hr
        simp only [hp, List.length_drop, List.length_nil] at hle ⊢
        omega
    · have := List.length_pos_iff.2 hp
      simp only [List.length_drop]
      omega

/-- An `MStream` is a writer. -/
def writer (w : Writer σ) : Writer (MStream σ) where
  write := write w

end MStream

end QuicLab.Gateway
