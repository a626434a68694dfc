import QuicLab.Gateway.Datagram

/-!
# UDP over HTTPS

A `PacketStream` sends UDP packets over an `MStream`, one frame each, empty
packets included. Two framings are thus stacked on the smux stream, whose reads
may stop anywhere: inside a length, or inside a frame of either level.

The round trip (`udp_over_https`): what is written to an `MStream` that is then
closed is read back, byte by byte and for any sizes of the buffers, and then the
end of the stream; and the packets written to a `PacketStream` are read back one
by one, with their boundaries. Both follow from `readPacket_of_source`, the
reading of a packet from any source: the smux stream is one, and so is an
`MStream` whose stream carries frames up to an empty one (`MStream.Holds`).
-/

namespace QuicLab.Gateway

open Go

variable {σ : Type*}

namespace PacketStream

/-- `PacketStream.Read` on a buffer of `n` bytes. -/
def read (r : Reader σ) (n : ℕ) (s : σ) : (Bytes × Option Error) × σ :=
  match readPacket r maxUDP s with
  | ((_, some e), s') => (([], some e), s')
  | ((p, none), s') => ((p.take n, none), s')

/-- `PacketStream.Write`. -/
def write (w : Writer σ) (b : Bytes) (s : σ) : (ℕ × Option Error) × σ :=
  if maxUDP < b.length then ((0, some (.new "UDP payload too large")), s)
  else
    match writePacket w b s with
    | (some e, s') => ((0, some e), s')
    | (none, s') => ((b.length, none), s')

end PacketStream

/-- Successive writes: their results, and the last state. -/
def writeMany (write : Bytes → σ → (ℕ × Option Error) × σ) :
    List Bytes → σ → List (ℕ × Option Error) × σ
  | [], s => ([], s)
  | b :: bs, s =>
    match write b s with
    | (r, s') =>
      match writeMany write bs s' with
      | (rs, s'') => (r :: rs, s'')

/-- Successive reads, on buffers of the given sizes: their results. -/
def readMany (read : ℕ → σ → (Bytes × Option Error) × σ) :
    List ℕ → σ → List (Bytes × Option Error)
  | [], _ => []
  | n :: ns, s =>
    match read n s with
    | (r, s') => r :: readMany read ns s'

/-! ## Packets -/

/-- A packet on the wire. -/
def frame (p : Bytes) : Bytes := putUint 2 p.length ++ p

/-- A packet at the head of a source is read as it was written. -/
theorem readPacket_of_source {r : Reader σ} {H : σ → Bytes → Prop} (hr : Source r H) {n : ℕ}
    {p rest : Bytes} {s : σ} (h : H s (frame p ++ rest)) (hp : p.length ≤ n)
    (hlen : p.length < 65536) : ∃ s', readPacket r n s = ((p, none), s') ∧ H s' rest := by
  rw [frame, List.append_assoc] at h
  obtain ⟨s₁, h₁, hs₁⟩ := hr.readFull (n := 2) h (by simp)
  rw [List.take_left' (by simp)] at h₁
  rw [List.drop_left' (by simp)] at hs₁
  obtain ⟨s₂, h₂, hs₂⟩ := hr.readFull (n := p.length) hs₁ (by simp)
  rw [List.take_left] at h₂
  rw [List.drop_left] at hs₂
  refine ⟨s₂, ?_, hs₂⟩
  rw [readPacket, h₁]
  simp only [uint_putUint_of_lt (show p.length < 256 ^ 2 from hlen), if_neg (not_lt.2 hp), h₂]
  rw [List.rightpad, Nat.sub_self, List.replicate_zero, List.append_nil]

theorem readPacket_eof {r : Reader σ} {H : σ → Bytes → Prop} (hr : Source r H) {n : ℕ} {s : σ}
    (h : H s []) : ∃ s', readPacket r n s = (([], some .EOF), s') ∧ H s' [] := by
  obtain ⟨s', h', hs'⟩ := hr.readFull_eof (n := 2) h Nat.two_pos
  exact ⟨s', by rw [readPacket, h'], hs'⟩

theorem writePacket_pipe {b : Bytes} (hb : b.length ≤ 65535) (s : Pipe) :
    writePacket Pipe.writer b s = (none, { s with outgoing := s.outgoing ++ frame b }) := by
  rw [writePacket, if_neg (not_lt.2 hb)]
  simp only [Pipe.writer, frame, List.append_assoc]

/-! ## Writing -/

/-- Frames an `MStream` sends: of 1 to 32768 bytes. -/
def Frames (fs : List Bytes) : Prop := ∀ f ∈ fs, f ≠ [] ∧ f.length ≤ 32768

namespace MStream

/-- The bytes `c` were written to `s`, in some frames. -/
def Sent (s : MStream Pipe) (c : Bytes) : Prop :=
  s.writeClosed = false ∧ ∃ fs, Frames fs ∧ fs.flatten = c ∧ s.raw.outgoing = fs.flatMap frame

theorem sent_new (incoming : List Bytes) : Sent (new ⟨incoming, []⟩) [] :=
  ⟨rfl, [], List.forall_mem_nil _, rfl, rfl⟩

theorem writeLoop_pipe {k : ℕ} {b : Bytes} (hk : b.length ≤ k) (total : ℕ) (s : Pipe) :
    ∃ fs, Frames fs ∧ fs.flatten = b ∧ writeLoop Pipe.writer k b total s =
      ((total + b.length, none), { s with outgoing := s.outgoing ++ fs.flatMap frame }) := by
  induction k generalizing b total s with
  | zero =>
    obtain rfl := List.length_eq_zero_iff.1 (Nat.le_zero.1 hk)
    exact ⟨[], List.forall_mem_nil _, rfl, by simp [writeLoop]⟩
  | succ k ih =>
    by_cases hb : b = []
    · subst hb
      exact ⟨[], List.forall_mem_nil _, rfl, by simp [writeLoop]⟩
    · have hpos := List.length_pos_iff.2 hb
      have htake : (b.take 32768).length ≤ 32768 := List.length_take_le _ _
      obtain ⟨fs, hfs, hflat, hloop⟩ := ih (b := b.drop 32768) (by rw [List.length_drop]; omega)
        (total + (b.take 32768).length) { s with outgoing := s.outgoing ++ frame (b.take 32768) }
      refine ⟨b.take 32768 :: fs, fun f hf => ?_, ?_, ?_⟩
      · rcases List.mem_cons.1 hf with rfl | hf
        · exact ⟨fun h0 => by simp [hb] at h0, htake⟩
        · exact hfs f hf
      · rw [List.flatten_cons, hflat, List.take_append_drop]
      · rw [writeLoop, if_neg hb, writePacket_pipe (htake.trans (by decide))]
        simp only
        rw [hloop, List.flatMap_cons, List.append_assoc, List.length_take, List.length_drop]
        simp only [Prod.mk.injEq, and_true]
        omega

theorem Sent.write {s : MStream Pipe} {c : Bytes} (h : s.Sent c) (b : Bytes) :
    ∃ s', write Pipe.writer b s = ((b.length, none), s') ∧ s'.Sent (c ++ b) := by
  obtain ⟨hopen, fs, hfs, rfl, hout⟩ := h
  obtain ⟨fs', hfs', rfl, hloop⟩ := writeLoop_pipe (le_refl b.length) 0 s.raw
  refine ⟨{ s with raw := { s.raw with outgoing := s.raw.outgoing ++ fs'.flatMap frame } }, ?_,
    hopen, fs ++ fs', fun f hf => ?_, List.flatten_append, ?_⟩
  · rw [MStream.write, hopen, hloop, Nat.zero_add]
    rfl
  · exact (List.mem_append.1 hf).elim (hfs f) (hfs' f)
  · rw [List.flatMap_append, hout]

/-- Closing the writing half sends an empty frame after all others. -/
theorem Sent.closeWrite {s : MStream Pipe} {c : Bytes} (h : s.Sent c) :
    ∃ s' fs, closeWrite Pipe.writer s = (none, s') ∧ Frames fs ∧ fs.flatten = c ∧
      s'.raw.outgoing = fs.flatMap frame ++ frame [] := by
  obtain ⟨hopen, fs, hfs, hflat, hout⟩ := h
  refine ⟨⟨{ s.raw with outgoing := s.raw.outgoing ++ frame [] }, s.pending, s.eof, true⟩, fs, ?_,
    hfs, hflat, by rw [hout]⟩
  rw [MStream.closeWrite, hopen, writePacket_pipe (Nat.zero_le _)]
  rfl

/-- A packet is written to an `MStream` as its length and its bytes. -/
theorem Sent.writePacket {s : MStream Pipe} {c b : Bytes} (h : s.Sent c) (hb : b.length ≤ maxUDP) :
    ∃ s', PacketStream.write (writer Pipe.writer) b s = ((b.length, none), s') ∧
      s'.Sent (c ++ frame b) := by
  obtain ⟨s₁, h₁, hs₁⟩ := h.write (putUint 2 b.length)
  obtain ⟨s₂, h₂, hs₂⟩ := hs₁.write b
  refine ⟨s₂, ?_, by rwa [frame, ← List.append_assoc]⟩
  have hle : b.length ≤ 65535 := hb.trans (by decide)
  rw [PacketStream.write, if_neg (not_lt.2 hb), Gateway.writePacket, if_neg (not_lt.2 hle)]
  simp only [writer, h₁, h₂]

end MStream

theorem writeMany_sent {write : Bytes → MStream Pipe → (ℕ × Option Error) × MStream Pipe}
    {f : Bytes → Bytes} {bs : List Bytes}
    (hw : ∀ b ∈ bs, ∀ s c, MStream.Sent s c → ∃ s', write b s = ((b.length, none), s') ∧
      s'.Sent (c ++ f b)) {s : MStream Pipe} {c : Bytes} (h : s.Sent c) :
    ∃ s', writeMany write bs s = (bs.map fun b => (b.length, none), s') ∧
      s'.Sent (c ++ bs.flatMap f) := by
  induction bs generalizing s c with
  | nil => exact ⟨s, rfl, by rwa [List.flatMap_nil, List.append_nil]⟩
  | cons b bs ih =>
    obtain ⟨s₁, h₁, hs₁⟩ := hw b List.mem_cons_self s c h
    obtain ⟨s₂, h₂, hs₂⟩ := ih (fun b hb => hw b (List.mem_cons_of_mem _ hb)) hs₁
    refine ⟨s₂, ?_, by rwa [List.flatMap_cons, ← List.append_assoc]⟩
    rw [writeMany, h₁]
    simp only [h₂, List.map_cons]

/-! ## Reading -/

namespace MStream

/-- The bytes `c` are left to read on `s`: what is pending, then the frames up
    to an empty one; nothing once the empty frame was read. -/
def Holds (H : σ → Bytes → Prop) (s : MStream σ) (c : Bytes) : Prop :=
  (s.eof = true ∧ s.pending = [] ∧ c = []) ∨
    (s.eof = false ∧ ∃ fs rest, Frames fs ∧ H s.raw (fs.flatMap frame ++ (frame [] ++ rest)) ∧
      c = s.pending ++ fs.flatten)

variable {r : Reader σ} {H : σ → Bytes → Prop}

/-- While something is left, a read returns a first part of it, not empty. -/
theorem read_data (hr : Source r H) {s : MStream σ} {c : Bytes} {n : ℕ} (h : s.Holds H c)
    (hn : 0 < n) (hc : c ≠ []) : ∃ b c' s', read r n s = ((b, none), s') ∧ c = b ++ c' ∧
      b ≠ [] ∧ b.length ≤ n ∧ s'.Holds H c' := by
  obtain ⟨_, _, rfl⟩ | ⟨heof, fs, rest, hfs, hraw, rfl⟩ := h
  · exact absurd rfl hc
  -- Taking `n` bytes of what is not empty takes some.
  have htake : ∀ l : Bytes, l ≠ [] → l.take n ≠ [] := fun l hl h0 =>
    (List.take_eq_nil_iff.1 h0).elim hn.ne' hl
  rw [read, if_neg hn.ne']
  by_cases hp : s.pending = []
  · -- Nothing is pending: the next frame is read, and it is not the empty one.
    cases fs with
    | nil => simp [hp] at hc
    | cons f fs =>
      obtain ⟨hne, hle⟩ := hfs f List.mem_cons_self
      rw [List.flatMap_cons, List.append_assoc] at hraw
      obtain ⟨raw, hread, hraw'⟩ := readPacket_of_source hr hraw hle (hle.trans_lt (by decide))
      rw [if_pos hp, heof, hread]
      obtain ⟨x, xs, rfl⟩ := List.exists_cons_of_ne_nil hne
      refine ⟨(x :: xs).take n, (x :: xs).drop n ++ fs.flatten, _, rfl, ?_, htake _ hne,
        List.length_take_le _ _, .inr ⟨rfl, fs, rest, fun f hf => hfs f (List.mem_cons_of_mem _ hf),
          hraw', rfl⟩⟩
      rw [hp, List.nil_append, ← List.append_assoc, List.take_append_drop, List.flatten_cons]
  · rw [if_neg hp]
    refine ⟨s.pending.take n, s.pending.drop n ++ fs.flatten, _, rfl, ?_, htake _ hp,
      List.length_take_le _ _, .inr ⟨heof, fs, rest, hfs, hraw, rfl⟩⟩
    rw [← List.append_assoc, List.take_append_drop]

/-- The end of the stream is reported when nothing is left, and ever after. -/
theorem read_eof (hr : Source r H) {s : MStream σ} {n : ℕ} (h : s.Holds H []) (hn : 0 < n) :
    ∃ s', read r n s = (([], some .EOF), s') ∧ s'.Holds H [] := by
  rw [read, if_neg hn.ne']
  obtain ⟨heof, hp, _⟩ | ⟨heof, fs, rest, hfs, hraw, hc⟩ := h
  · exact ⟨s, by rw [if_pos hp, heof]; rfl, .inl ⟨heof, hp, rfl⟩⟩
  · obtain ⟨hp, hflat⟩ := List.append_eq_nil_iff.1 hc.symm
    cases fs with
    | nil =>
      obtain ⟨raw, hread, _⟩ := readPacket_of_source (p := []) (n := 32768) hr hraw
        (Nat.zero_le _) (Nat.zero_lt_succ _)
      rw [if_pos hp, heof, hread]
      exact ⟨_, rfl, .inl ⟨rfl, hp, rfl⟩⟩
    | cons f fs =>
      rw [List.flatten_cons, List.append_eq_nil_iff] at hflat
      exact absurd hflat.1 (hfs f List.mem_cons_self).1

/-- An `MStream` over a source is a source. -/
theorem source (hr : Source r H) : Source (reader r) (Holds H) where
  data h hn hc :=
    let ⟨b, c', s', h1, h2, _, h3, h4⟩ := read_data hr h hn hc
    ⟨b, c', s', h1, h2, h3, h4⟩
  eof h hn :=
    let ⟨s', h1, h2⟩ := read_eof hr h hn
    ⟨_, s', h1, .inr rfl, h2⟩

/-- Reads return what is left, in parts that are not empty, and the end of the
    stream after the last of them. -/
theorem readMany_holds (hr : Source r H) {sizes : List ℕ} (hn : ∀ n ∈ sizes, 1 ≤ n)
    {s : MStream σ} {c : Bytes} (h : s.Holds H c) :
    ∃ (data : List Bytes) (k : ℕ), readMany (read r) sizes s =
        data.map (fun d => (d, none)) ++ List.replicate k ([], some .EOF) ∧
      (∀ d ∈ data, d ≠ []) ∧ data.flatten <+: c ∧ (k ≠ 0 → data.flatten = c) := by
  induction sizes generalizing s c with
  | nil => exact ⟨[], 0, rfl, List.forall_mem_nil _, List.nil_prefix,
      fun h => absurd rfl h⟩
  | cons n ns ih =>
    have ih' := @ih fun m hm => hn m (List.mem_cons_of_mem _ hm)
    have hpos : 0 < n := hn n List.mem_cons_self
    by_cases hc : c = []
    · subst hc
      obtain ⟨s', hread, h'⟩ := read_eof hr h hpos
      obtain ⟨data, k, hmany, hne, hpre, _⟩ := ih' h'
      -- Nothing is left, so no later read returns anything either.
      have hdata : data = [] := List.eq_nil_iff_forall_not_mem.2 fun d hd => hne d hd <|
        List.eq_nil_of_subset_nil fun x hx =>
          List.prefix_nil.1 hpre ▸ List.mem_flatten.2 ⟨d, hd, hx⟩
      subst hdata
      refine ⟨[], k + 1, ?_, hne, hpre, fun _ => rfl⟩
      rw [readMany, hread]
      simp only [hmany, List.map_nil, List.nil_append, List.replicate_succ]
    · obtain ⟨b, c', s', hread, rfl, hb, _, h'⟩ := read_data hr h hpos hc
      obtain ⟨data, k, hmany, hne, hpre, hall⟩ := ih' h'
      refine ⟨b :: data, k, ?_, fun d hd => ?_, ?_, fun hk => ?_⟩
      · rw [readMany, hread]
        simp only [hmany, List.map_cons, List.cons_append]
      · rcases List.mem_cons.1 hd with rfl | hd
        · exact hb
        · exact hne d hd
      · rw [List.flatten_cons]
        exact List.prefix_append_right_inj b |>.2 hpre
      · rw [List.flatten_cons, hall hk]

end MStream

/-- Packets are read back one by one, and then the end of the stream. -/
theorem readMany_packets {r : Reader σ} {H : σ → Bytes → Prop} (hr : Source r H)
    {ps : List Bytes} (hp : ∀ p ∈ ps, p.length ≤ maxUDP) (k : ℕ) {s : σ}
    (h : H s (ps.flatMap frame)) :
    readMany (PacketStream.read r) (List.replicate (ps.length + k) maxUDP) s =
      ps.map (fun p => (p, none)) ++ List.replicate k ([], some .EOF) := by
  induction ps generalizing s with
  | nil =>
    induction k generalizing s with
    | zero => rfl
    | succ k ih =>
      obtain ⟨s', hread, h'⟩ := readPacket_eof (n := maxUDP) hr h
      have ih' := ih h'
      rw [List.length_nil, Nat.zero_add] at ih' ⊢
      rw [List.replicate_succ, readMany, PacketStream.read, hread]
      simp only [ih', List.map_nil, List.nil_append, List.replicate_succ]
  | cons p ps ih =>
    have hle := hp p List.mem_cons_self
    rw [List.flatMap_cons] at h
    obtain ⟨s', hread, h'⟩ := readPacket_of_source hr h hle (hle.trans_lt (by decide))
    have ih' := ih (fun q hq => hp q (List.mem_cons_of_mem _ hq)) h'
    rw [List.length_cons, Nat.add_right_comm, List.replicate_succ, readMany, PacketStream.read,
      hread]
    simp only [ih', List.map_cons, List.cons_append, List.take_of_length_le hle]

/-! ## The round trip -/

/-- What a new stream has sent after the writes `bs` and `CloseWrite`. -/
def sentBytes (write : Bytes → MStream Pipe → (ℕ × Option Error) × MStream Pipe)
    (bs : List Bytes) : Bytes :=
  (MStream.closeWrite Pipe.writer (writeMany write bs (.new ⟨[], []⟩)).2).2.raw.outgoing

/-- The other end holds what was written, however the stream is cut into chunks. -/
theorem holds_sentBytes {write : Bytes → MStream Pipe → (ℕ × Option Error) × MStream Pipe}
    {f : Bytes → Bytes} {bs : List Bytes}
    (hw : ∀ b ∈ bs, ∀ s c, MStream.Sent s c → ∃ s', write b s = ((b.length, none), s') ∧
      s'.Sent (c ++ f b)) {chunks : List Bytes} (h : chunks.flatten = sentBytes write bs) :
    MStream.Holds (fun s c => s.incoming.flatten = c) (.new (Pipe.mk chunks []))
      (bs.flatMap f) := by
  obtain ⟨s, hmany, hs⟩ := writeMany_sent hw (MStream.sent_new [])
  obtain ⟨s', fs, hclose, hfs, hflat, hout⟩ := hs.closeWrite
  refine .inr ⟨rfl, fs, [], hfs, ?_, hflat.symm⟩
  rw [sentBytes, hmany, hclose, hout] at h
  rw [List.append_nil]
  exact h

theorem length_readMany (read : ℕ → σ → (Bytes × Option Error) × σ) (ns : List ℕ) (s : σ) :
    (readMany read ns s).length = ns.length := by
  induction ns generalizing s with
  | nil => rfl
  | cons n ns ih => rw [readMany, List.length_cons, ih, List.length_cons]

theorem length_le_length_flatten {data : List Bytes} (h : ∀ d ∈ data, d ≠ []) :
    data.length ≤ data.flatten.length := by
  induction data with
  | nil => exact Nat.le_refl _
  | cons d data ih =>
    have hd := List.length_pos_iff.2 (h d List.mem_cons_self)
    have ih' := ih fun d hd => h d (List.mem_cons_of_mem _ hd)
    rw [List.length_cons, List.flatten_cons, List.length_append]
    omega

/-- UDP over HTTPS. Packets written to a `PacketStream` over an `MStream` are all
    accepted, and are read back one by one, empty ones too, however the stream
    below cuts them into chunks, and then the end of the stream. Byte strings
    written to an `MStream` are read back as their concatenation, for any sizes of
    the buffers, and then the end of the stream; no read returns neither data nor
    an error, so enough reads reach the end. -/
theorem udp_over_https :
    (∀ payloads : List Bytes, (∀ p ∈ payloads, p.length ≤ maxUDP) →
      (writeMany (PacketStream.write (MStream.writer Pipe.writer)) payloads
        (.new ⟨[], []⟩)).1 = payloads.map (fun p => (p.length, none)) ∧
      ∀ chunks : List Bytes,
        chunks.flatten = sentBytes (PacketStream.write (MStream.writer Pipe.writer)) payloads →
      ∀ k, readMany (PacketStream.read (MStream.reader Pipe.reader))
          (List.replicate (payloads.length + k) maxUDP) (.new ⟨chunks, []⟩) =
        payloads.map (fun p => (p, none)) ++ List.replicate k ([], some .EOF)) ∧
    (∀ bs : List Bytes,
      (writeMany (MStream.write Pipe.writer) bs (.new ⟨[], []⟩)).1 =
        bs.map (fun b => (b.length, none)) ∧
      ∀ chunks : List Bytes, chunks.flatten = sentBytes (MStream.write Pipe.writer) bs →
      ∀ sizes : List ℕ, (∀ n ∈ sizes, 1 ≤ n) →
      ∃ (data : List Bytes) (k : ℕ),
        readMany (MStream.read Pipe.reader) sizes (.new ⟨chunks, []⟩) =
          data.map (fun d => (d, none)) ++ List.replicate k ([], some .EOF) ∧
        (∀ d ∈ data, d ≠ []) ∧ data.flatten <+: bs.flatten ∧
        (k ≠ 0 → data.flatten = bs.flatten) ∧
        (bs.flatten.length < sizes.length → k ≠ 0)) := by
  refine ⟨fun payloads hp => ?_, fun bs => ?_⟩
  · have hw := fun p hmem s c (h : MStream.Sent s c) => h.writePacket (hp p hmem)
    obtain ⟨s, hmany, _⟩ := writeMany_sent hw (MStream.sent_new [])
    refine ⟨by rw [hmany], fun chunks hchunks k => ?_⟩
    exact readMany_packets (MStream.source Pipe.source) hp k (holds_sentBytes hw hchunks)
  · have hw := fun b (_ : b ∈ bs) s c (h : MStream.Sent s c) => h.write b
    obtain ⟨s, hmany, _⟩ := writeMany_sent (f := id) hw (MStream.sent_new [])
    refine ⟨by rw [hmany], fun chunks hchunks sizes hn => ?_⟩
    have hholds := holds_sentBytes (f := id) hw hchunks
    rw [List.flatMap_id] at hholds
    obtain ⟨data, k, hread, hne, hpre, hall⟩ :=
      MStream.readMany_holds Pipe.source hn hholds
    refine ⟨data, k, hread, hne, hpre, hall, fun hlong hk => ?_⟩
    -- Without an end of the stream, each read returned a byte at least.
    have hlen := congrArg List.length hread
    rw [length_readMany, List.length_append, List.length_map, List.length_replicate, hk] at hlen
    have hdata := length_le_length_flatten hne
    have hle := hpre.length_le
    omega

/-- An empty packet and one of three bytes, the stream delivering a byte at a time. -/
theorem udp_over_https_two :
    readMany (PacketStream.read (MStream.reader Pipe.reader)) [maxUDP, maxUDP, maxUDP]
        (.new ⟨[[0], [2], [0], [0], [0], [2], [0], [3], [0], [3], [7], [8], [9], [0], [0]], []⟩) =
      [([], none), ([7, 8, 9], none), ([], some .EOF)] :=
  ((udp_over_https.1 [[], [7, 8, 9]] (by decide)).2 _ (by decide) 1)

end QuicLab.Gateway
