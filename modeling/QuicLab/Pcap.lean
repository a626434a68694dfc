import QuicLab.Go.Bytes

/-!
# Packet capture files

Two formats of files of captured packets: the classic one, `Pcap`, given by what is
written, in either byte order; and the newer one, `Pcapng`, in the little-endian order,
given by how a file is read.

A `Pcapng` file is a row of blocks, each with its length before and after its body:
`Pcapng.split` reads the row, and the readers of a `Block` what stands in one of them.
`Pcapng.split_flatMap` gives back the blocks that were written one after another, and
`Pcapng.readCapture_eq` the packets.

In a `Pcap` file, records follow a header. A record can be told from what follows it
(`Pcap.Record.bytes_append_inj`), so that a stream that goes wrong somewhere still has
one longest beginning made of records (`Pcap.Longest`).
-/

namespace QuicLab

open Go

/-- A captured packet: its time in microseconds, its length on the wire and the bytes
    captured. -/
structure Packet where
  time : ℕ
  original : ℕ
  data : Bytes
  deriving DecidableEq

namespace Pcapng

/-- The length rounded up to a multiple of four. -/
def padded (n : ℕ) : ℕ := (n + 3) / 4 * 4

theorem le_padded (n : ℕ) : n ≤ padded n := by
  rw [padded]
  omega

/-- The bytes, and zeros up to a multiple of four. -/
def pad (b : Bytes) : Bytes := b ++ List.replicate (padded b.length - b.length) 0

@[simp]
theorem length_pad (b : Bytes) : (pad b).length = padded b.length := by
  rw [pad, List.length_append, List.length_replicate, Nat.add_sub_cancel' (le_padded _)]

theorem pad_of_aligned {b : Bytes} (h : b.length % 4 = 0) : pad b = b := by
  have hb : padded b.length - b.length = 0 := by
    rw [padded]
    omega
  rw [pad, hb, List.replicate_zero, List.append_nil]

theorem pad_append {a : Bytes} (h : a.length % 4 = 0) (b : Bytes) : pad (a ++ b) = a ++ pad b := by
  have hlen : padded (a ++ b).length - (a ++ b).length = padded b.length - b.length := by
    rw [List.length_append, padded, padded]
    omega
  rw [pad, hlen, pad, List.append_assoc]

/-! ## Blocks -/

/-- A block of a file. -/
structure Block where
  kind : ℕ
  body : Bytes
  deriving DecidableEq

namespace Block

/-- A block that can be written. -/
structure Fits (b : Block) : Prop where
  kind : b.kind < 256 ^ 4
  aligned : b.body.length % 4 = 0
  length : b.body.length + 12 < 256 ^ 4

/-- The block, as it is written. -/
def bytes (b : Block) : Bytes :=
  ByteOrder.little.put 4 b.kind ++ (ByteOrder.little.put 4 (b.body.length + 12) ++
    (b.body ++ ByteOrder.little.put 4 (b.body.length + 12)))

@[simp]
theorem length_bytes (b : Block) : b.bytes.length = b.body.length + 12 := by
  simp only [bytes, List.length_append, ByteOrder.length_put]
  omega

end Block

/-- The numbers of a block, read where they stand. -/
theorem Block.Fits.fields {b : Block} (h : b.Fits) (rest : Bytes) :
    ByteOrder.little.field 0 4 (b.bytes ++ rest) = b.kind ∧
      ByteOrder.little.field 4 4 (b.bytes ++ rest) = b.body.length + 12 ∧
      ByteOrder.little.field (b.body.length + 12 - 4) 4 (b.bytes ++ rest) = b.body.length + 12 := by
  have hlength := Nat.mod_eq_of_lt h.length
  refine ⟨?_, ?_, ?_⟩
  · rw [Block.bytes, List.append_assoc, ByteOrder.field_zero_append, Nat.mod_eq_of_lt h.kind]
  · simp only [Block.bytes, List.append_assoc]
    rw [ByteOrder.field_append _ (ByteOrder.length_put _ _ _), hlength]
  · have heq : b.bytes ++ rest = (ByteOrder.little.put 4 b.kind ++
        ByteOrder.little.put 4 (b.body.length + 12) ++ b.body) ++
        (ByteOrder.little.put 4 (b.body.length + 12) ++ rest) := by
      simp only [Block.bytes, List.append_assoc]
    rw [heq, ByteOrder.field_append, hlength]
    simp only [List.length_append, ByteOrder.length_put]
    omega

/-- The length before the body and the one after it agree. -/
theorem Block.Fits.lengths {b : Block} (h : b.Fits) :
    ByteOrder.little.field 4 4 b.bytes = b.bytes.length ∧
      ByteOrder.little.field (b.bytes.length - 4) 4 b.bytes = b.bytes.length ∧
      b.bytes.length % 4 = 0 := by
  have haligned := h.aligned
  obtain ⟨-, hlead, htrail⟩ := h.fields []
  rw [List.append_nil] at hlead htrail
  rw [Block.length_bytes]
  exact ⟨hlead, htrail, by omega⟩

/-- The first block of a file, and what follows it. -/
def readBlock (file : Bytes) : Option (Block × Bytes) :=
  let n := ByteOrder.little.field 4 4 file
  if 12 ≤ n ∧ n % 4 = 0 ∧ n ≤ file.length ∧ ByteOrder.little.field (n - 4) 4 file = n then
    some (⟨ByteOrder.little.field 0 4 file, (file.drop 8).take (n - 12)⟩, file.drop n)
  else none

/-- The blocks of a file, at most as many as the first argument. -/
def splitLoop : ℕ → Bytes → Option (List Block)
  | _, [] => some []
  | 0, _ => none
  | k + 1, file =>
    match readBlock file with
    | none => none
    | some (b, rest) => (splitLoop k rest).map (b :: ·)

/-- The blocks of a file. -/
def split (file : Bytes) : Option (List Block) := splitLoop file.length file

/-- A block is read back, whatever follows it. -/
theorem readBlock_bytes {b : Block} (h : b.Fits) (rest : Bytes) :
    readBlock (b.bytes ++ rest) = some (b, rest) := by
  have haligned := h.aligned
  obtain ⟨hkind, hlead, htrail⟩ := h.fields rest
  have hbody : ((b.bytes ++ rest).drop 8).take (b.body.length + 12 - 12) = b.body := by
    have heq : b.bytes ++ rest = (ByteOrder.little.put 4 b.kind ++
        ByteOrder.little.put 4 (b.body.length + 12)) ++ (b.body ++
        (ByteOrder.little.put 4 (b.body.length + 12) ++ rest)) := by
      simp only [Block.bytes, List.append_assoc]
    rw [heq, List.drop_left' (by simp), Nat.add_sub_cancel, List.take_left' rfl]
  have hlen : b.body.length + 12 ≤ (b.bytes ++ rest).length := by
    rw [List.length_append, Block.length_bytes]
    exact Nat.le_add_right _ _
  rw [readBlock, hlead, if_pos ⟨by omega, by omega, hlen, htrail⟩, hkind, hbody,
    List.drop_left' b.length_bytes]

theorem splitLoop_flatMap {bs : List Block} (h : ∀ b ∈ bs, b.Fits) {k : ℕ}
    (hk : (bs.flatMap Block.bytes).length ≤ k) :
    splitLoop k (bs.flatMap Block.bytes) = some bs := by
  induction bs generalizing k with
  | nil => rw [List.flatMap_nil, splitLoop]
  | cons b bs ih =>
    rw [List.flatMap_cons, List.length_append, Block.length_bytes] at hk
    cases k with
    | zero => omega
    | succ k =>
      obtain ⟨c, file, hfile⟩ : ∃ c file, b.bytes ++ bs.flatMap Block.bytes = c :: file :=
        List.exists_cons_of_length_pos (by simp)
      have hb := readBlock_bytes (h b List.mem_cons_self) (bs.flatMap Block.bytes)
      rw [hfile] at hb
      rw [List.flatMap_cons, hfile, splitLoop, hb]
      · dsimp only
        rw [ih (fun b' hb' => h b' (List.mem_cons_of_mem b hb')) (by omega), Option.map_some]
      · exact List.cons_ne_nil c file

/-- Blocks written one after another are read back. -/
theorem split_flatMap {bs : List Block} (h : ∀ b ∈ bs, b.Fits) :
    split (bs.flatMap Block.bytes) = some bs := splitLoop_flatMap h le_rfl

/-! ## What stands in a block -/

namespace Block

/-- The block starts a section, of version 1.0. -/
def IsSection (b : Block) : Prop :=
  b.kind = 0x0a0d0d0a ∧ 16 ≤ b.body.length ∧ ByteOrder.little.field 0 4 b.body = 0x1a2b3c4d ∧
    ByteOrder.little.field 4 2 b.body = 1 ∧ ByteOrder.little.field 6 2 b.body = 0

instance (b : Block) : Decidable b.IsSection := inferInstanceAs (Decidable (_ ∧ _))

/-- The link type of the interface that the block describes. -/
def linkType (b : Block) : Option ℕ :=
  if b.kind = 1 ∧ 8 ≤ b.body.length then some (ByteOrder.little.field 0 2 b.body) else none

/-- The kind of the secrets of the block, and the secrets. -/
def secrets (b : Block) : Option (ℕ × Bytes) :=
  let n := ByteOrder.little.field 4 4 b.body
  if b.kind = 10 ∧ 8 + n ≤ b.body.length then
    some (ByteOrder.little.field 0 4 b.body, (b.body.drop 8).take n)
  else none

/-- The packet in the block, of the first interface, and the options that follow it. -/
def packet (b : Block) : Option (Packet × Bytes) :=
  let n := ByteOrder.little.field 12 4 b.body
  if b.kind = 6 ∧ ByteOrder.little.field 0 4 b.body = 0 ∧ 20 + padded n ≤ b.body.length then
    some (⟨ByteOrder.little.field 4 4 b.body * 2 ^ 32 + ByteOrder.little.field 8 4 b.body,
      ByteOrder.little.field 16 4 b.body, (b.body.drop 20).take n⟩, b.body.drop (20 + padded n))
  else none

end Block

/-- The block of a packet of the first interface, with options. -/
def packetBlock (p : Packet) (options : Bytes) : Block where
  kind := 6
  body := ByteOrder.little.put 4 0 ++ (ByteOrder.little.put 4 (p.time / 2 ^ 32) ++
    (ByteOrder.little.put 4 p.time ++ (ByteOrder.little.put 4 p.data.length ++
      (ByteOrder.little.put 4 p.original ++ (pad p.data ++ options)))))

/-- The numbers before the data of a packet. -/
theorem fields_packetBlock (p : Packet) (options : Bytes) :
    ByteOrder.little.field 0 4 (packetBlock p options).body = 0 ∧
      ByteOrder.little.field 4 4 (packetBlock p options).body = p.time / 2 ^ 32 % 256 ^ 4 ∧
      ByteOrder.little.field 8 4 (packetBlock p options).body = p.time % 256 ^ 4 ∧
      ByteOrder.little.field 12 4 (packetBlock p options).body = p.data.length % 256 ^ 4 ∧
      ByteOrder.little.field 16 4 (packetBlock p options).body = p.original % 256 ^ 4 := by
  simp [packetBlock, ByteOrder.field_skip, ByteOrder.field_zero_append]

/-- The block of a packet is read back. -/
theorem packet_packetBlock {p : Packet} (htime : p.time < 256 ^ 8)
    (hdata : p.data.length < 256 ^ 4) (horiginal : p.original < 256 ^ 4) (options : Bytes) :
    (packetBlock p options).packet = some (p, options) := by
  obtain ⟨hid, hhigh, hlow, hlen, horig⟩ := fields_packetBlock p options
  rw [Nat.mod_eq_of_lt hdata] at hlen
  rw [Nat.mod_eq_of_lt horiginal] at horig
  have htimes : p.time / 2 ^ 32 % 256 ^ 4 * 2 ^ 32 + p.time % 256 ^ 4 = p.time := by omega
  have hdrop : ∀ n,
      (packetBlock p options).body.drop (20 + n) = (pad p.data ++ options).drop n := by
    intro n
    rw [← List.drop_drop]
    rfl
  have hlength : 20 + padded p.data.length ≤ (packetBlock p options).body.length := by
    simp only [packetBlock, List.length_append, ByteOrder.length_put, length_pad]
    omega
  have htake : ((packetBlock p options).body.drop 20).take p.data.length = p.data := by
    rw [hdrop 0, List.drop_zero, pad, List.append_assoc, List.take_left' rfl]
  rw [Block.packet, hlen, if_pos ⟨rfl, hid, hlength⟩, hhigh, hlow, horig, htimes, hdrop, htake,
    List.drop_left' (length_pad _)]

/-! ## Options -/

/-- The first option, its code and its value, and what follows it. -/
def readOption (b : Bytes) : Option ((ℕ × Bytes) × Bytes) :=
  let n := ByteOrder.little.field 2 2 b
  if 4 + padded n ≤ b.length then
    some ((ByteOrder.little.field 0 2 b, (b.drop 4).take n), b.drop (4 + padded n))
  else none

/-- The options up to the one that ends them, which has the code 0 and comes last; at most
    as many as the first argument. -/
def readOptionsLoop : ℕ → Bytes → Option (List (ℕ × Bytes))
  | 0, _ => none
  | k + 1, b =>
    match readOption b with
    | none => none
    | some (o, rest) =>
      if o.1 = 0 then if rest = [] then some [o] else none
      else (readOptionsLoop k rest).map (o :: ·)

/-- The options, of which the last one ends them. -/
def readOptions (b : Bytes) : Option (List (ℕ × Bytes)) := readOptionsLoop b.length b

/-- An option, as it is written. -/
def optionBytes (code : ℕ) (value : Bytes) : Bytes :=
  ByteOrder.little.put 2 code ++ (ByteOrder.little.put 2 value.length ++ pad value)

theorem length_optionBytes (code : ℕ) (value : Bytes) :
    (optionBytes code value).length = 4 + padded value.length := by
  simp only [optionBytes, List.length_append, ByteOrder.length_put, length_pad]
  omega

/-- An option is read back, whatever follows it. -/
theorem readOption_optionBytes {code : ℕ} {value : Bytes} (hcode : code < 256 ^ 2)
    (hvalue : value.length < 256 ^ 2) (rest : Bytes) :
    readOption (optionBytes code value ++ rest) = some ((code, value), rest) := by
  have hn : ByteOrder.little.field 2 2 (optionBytes code value ++ rest) = value.length := by
    rw [optionBytes, List.append_assoc, List.append_assoc,
      ByteOrder.field_append _ (ByteOrder.length_put _ _ _), Nat.mod_eq_of_lt hvalue]
  have hc : ByteOrder.little.field 0 2 (optionBytes code value ++ rest) = code := by
    rw [optionBytes, List.append_assoc, ByteOrder.field_zero_append, Nat.mod_eq_of_lt hcode]
  have hv : ((optionBytes code value ++ rest).drop 4).take value.length = value := by
    have heq : optionBytes code value ++ rest =
        (ByteOrder.little.put 2 code ++ ByteOrder.little.put 2 value.length) ++
          (pad value ++ rest) := by
      simp only [optionBytes, List.append_assoc]
    rw [heq, List.drop_left' (by simp), pad, List.append_assoc, List.take_left' rfl]
  have hlen : 4 + padded value.length ≤ (optionBytes code value ++ rest).length := by
    rw [List.length_append, length_optionBytes]
    exact Nat.le_add_right _ _
  rw [readOption, hn, if_pos hlen, hc, hv, List.drop_left' (length_optionBytes code value)]

/-- The end of the options, as it is written. -/
theorem readOption_end : readOption (optionBytes 0 []) = some ((0, []), []) := by
  rw [← List.append_nil (optionBytes 0 []), readOption_optionBytes (by decide) (by decide)]

/-- One option is read back. -/
theorem readOptions_single {code : ℕ} {value : Bytes} (hpos : 0 < code) (hcode : code < 256 ^ 2)
    (hvalue : value.length < 256 ^ 2) :
    readOptions (optionBytes code value ++ optionBytes 0 []) = some [(code, value), (0, [])] := by
  obtain ⟨k, hk⟩ : ∃ k, (optionBytes code value ++ optionBytes 0 []).length = k + 2 := by
    refine ⟨(optionBytes code value).length + 2, ?_⟩
    rw [List.length_append]
    rfl
  rw [readOptions, hk, readOptionsLoop, readOption_optionBytes hcode hvalue]
  dsimp only
  rw [if_neg hpos.ne', readOptionsLoop, readOption_end]
  rfl

/-! ## Captures -/

/-- What a file says: the link type of its interface, and the packets captured there. -/
structure Capture where
  link : ℕ
  packets : List Packet

/-- Reads a file with one section and one interface. -/
def readCapture (file : Bytes) : Option Capture := do
  let header :: interface :: blocks ← split file | none
  guard header.IsSection
  let link ← interface.linkType
  let packets ← (blocks.filter (·.kind = 6)).mapM Block.packet
  return ⟨link, packets.map Prod.fst⟩

/-- What is read of each block is read of all of them. -/
theorem mapM_map {α β γ : Type*} {f : β → Option γ} {g : α → β} {k : α → γ} {xs : List α}
    (h : ∀ x ∈ xs, f (g x) = some (k x)) : (xs.map g).mapM f = some (xs.map k) := by
  induction xs with
  | nil => rfl
  | cons x xs ih =>
    obtain ⟨hx, hxs⟩ := List.forall_mem_cons.1 h
    rw [List.map_cons, List.mapM_cons, hx, ih hxs]
    rfl

/-- A file of blocks that fit, the first two being a header and a description of the
    interface, and the rest packets. -/
theorem readCapture_eq {header interface : Block} {blocks : List Block} {link : ℕ}
    {packets : List (Packet × Bytes)} (hfits : ∀ b ∈ header :: interface :: blocks, b.Fits)
    (hheader : header.IsSection) (hlink : interface.linkType = some link)
    (hkind : ∀ b ∈ blocks, b.kind = 6) (hpackets : blocks.mapM Block.packet = some packets) :
    readCapture ((header :: interface :: blocks).flatMap Block.bytes) =
      some ⟨link, packets.map Prod.fst⟩ := by
  have hfilter : blocks.filter (·.kind = 6) = blocks :=
    List.filter_eq_self.2 fun b hb => decide_eq_true (hkind b hb)
  rw [readCapture, split_flatMap hfits]
  simp only [Option.bind_eq_bind, Option.bind_some, guard, if_pos hheader, hlink, hfilter, hpackets]
  rfl

end Pcapng

/-! ## Classic files -/

namespace Pcap

/-- The header of a file of version 2.4, with microseconds. What stands in the middle, on
    time zone, accuracy and length of the packets, is not looked at. -/
structure Header where
  order : ByteOrder
  middle : Bytes
  link : ℕ

/-- The header can be written, and its link type in a `Pcapng` file too. -/
structure Header.Valid (h : Header) : Prop where
  middle : h.middle.length = 12
  link : h.link ≤ 65535

/-- The header, as it is written. -/
def Header.bytes (h : Header) : Bytes :=
  h.order.put 4 0xa1b2c3d4 ++ (h.order.put 2 2 ++ (h.order.put 2 4 ++
    (h.middle ++ h.order.put 4 h.link)))

theorem Header.length_bytes {h : Header} (hv : h.Valid) : h.bytes.length = 24 := by
  simp only [bytes, List.length_append, ByteOrder.length_put, hv.middle]

/-- The numbers of a header, read where they stand. -/
theorem Header.fields_bytes {h : Header} (hv : h.Valid) :
    h.order.field 4 2 h.bytes = 2 ∧ h.order.field 6 2 h.bytes = 4 ∧
      h.order.field 20 4 h.bytes = h.link := by
  have hlink : h.link % 256 ^ 4 = h.link := Nat.mod_eq_of_lt (hv.link.trans_lt (by decide))
  refine ⟨?_, ?_, ?_⟩
  · rw [bytes, ByteOrder.field_append _ (h.order.length_put 4 _), Nat.mod_eq_of_lt (by decide)]
  · rw [bytes, ← List.append_assoc, ByteOrder.field_append _ (by simp),
      Nat.mod_eq_of_lt (by decide)]
  · rw [bytes, ← List.append_assoc, ← List.append_assoc, ← List.append_assoc,
      ← List.append_nil (h.order.put 4 h.link),
      ByteOrder.field_append _ (by simp [hv.middle]), hlink]

/-- What has the numbers of a header is one. -/
theorem Header.eq_bytes {o : ByteOrder} {b : Bytes} (hlen : b.length = 24)
    (hmagic : o.field 0 4 b = 0xa1b2c3d4) (hmajor : o.field 4 2 b = 2)
    (hminor : o.field 6 2 b = 4) :
    b = Header.bytes ⟨o, (b.drop 8).take 12, o.field 20 4 b⟩ := by
  have h0 : b = o.put 4 0xa1b2c3d4 ++ b.drop 4 := by
    rw [← hmagic]
    exact o.drop_eq_put_append (i := 0) (w := 4) (by omega)
  have h4 : b.drop 4 = o.put 2 2 ++ b.drop 6 := by
    rw [o.drop_eq_put_append (i := 4) (w := 2) (by omega), hmajor]
  have h6 : b.drop 6 = o.put 2 4 ++ b.drop 8 := by
    rw [o.drop_eq_put_append (i := 6) (w := 2) (by omega), hminor]
  have h8 : b.drop 8 = (b.drop 8).take 12 ++ b.drop 20 := by
    rw [← List.drop_drop (i := 12) (j := 8), List.take_append_drop]
  have h20 : b.drop 20 = o.put 4 (o.field 20 4 b) := by
    rw [o.drop_eq_put_append (i := 20) (w := 4) (by omega), List.drop_of_length_le hlen.le,
      List.append_nil]
  rw [bytes, ← h20, ← h8, ← h6, ← h4, ← h0]

/-- A record of a file. -/
structure Record where
  seconds : ℕ
  micros : ℕ
  original : ℕ
  data : Bytes

namespace Record

/-- The packet recorded. -/
def packet (x : Record) : Packet := ⟨x.seconds * 1000000 + x.micros, x.original, x.data⟩

/-- A record that makes sense: of at most 262144 bytes. -/
structure Valid (x : Record) : Prop where
  seconds : x.seconds < 256 ^ 4
  micros : x.micros < 1000000
  original : x.original < 256 ^ 4
  length : x.data.length ≤ 262144
  captured : x.data.length ≤ x.original

/-- The record, as it is written. -/
def bytes (o : ByteOrder) (x : Record) : Bytes :=
  o.put 4 x.seconds ++ (o.put 4 x.micros ++ (o.put 4 x.data.length ++
    (o.put 4 x.original ++ x.data)))

variable {o : ByteOrder}

theorem length_bytes (x : Record) : (x.bytes o).length = 16 + x.data.length := by
  simp only [bytes, List.length_append, ByteOrder.length_put]
  omega

/-- The numbers of a record, read where they stand. -/
theorem fields_bytes {x : Record} (h : x.Valid) (rest : Bytes) :
    o.field 0 4 (x.bytes o ++ rest) = x.seconds ∧ o.field 4 4 (x.bytes o ++ rest) = x.micros ∧
      o.field 8 4 (x.bytes o ++ rest) = x.data.length ∧
      o.field 12 4 (x.bytes o ++ rest) = x.original := by
  have hseconds := Nat.mod_eq_of_lt h.seconds
  have hmicros := Nat.mod_eq_of_lt (h.micros.trans (show 1000000 < 256 ^ 4 by decide))
  have hlength := Nat.mod_eq_of_lt (h.length.trans_lt (show 262144 < 256 ^ 4 by decide))
  have horiginal := Nat.mod_eq_of_lt h.original
  simp only [bytes, List.append_assoc]
  refine ⟨?_, ?_, ?_, ?_⟩
  · rw [ByteOrder.field_zero_append, hseconds]
  · rw [ByteOrder.field_append _ (o.length_put 4 _), hmicros]
  · rw [← List.append_assoc, ByteOrder.field_append _ (by simp), hlength]
  · rw [← List.append_assoc, ← List.append_assoc, ByteOrder.field_append _ (by simp), horiginal]

end Record

/-- The record with which a stream starts, and what follows it. -/
def readRecord (o : ByteOrder) (c : Bytes) : Option (Record × Bytes) :=
  let n := o.field 8 4 c
  if 16 + n ≤ c.length ∧ n ≤ 262144 ∧ n ≤ o.field 12 4 c ∧ o.field 4 4 c < 1000000 then
    some (⟨o.field 0 4 c, o.field 4 4 c, o.field 12 4 c, (c.drop 16).take n⟩, c.drop (16 + n))
  else none

section

variable {o : ByteOrder}

theorem readRecord_bytes {x : Record} (h : x.Valid) (rest : Bytes) :
    readRecord o (x.bytes o ++ rest) = some (x, rest) := by
  obtain ⟨hseconds, hmicros, hlength, horiginal⟩ := Record.fields_bytes (o := o) h rest
  have hle : 16 + x.data.length ≤ (x.bytes o ++ rest).length := by
    rw [List.length_append, Record.length_bytes]
    exact Nat.le_add_right _ _
  have hdrop : (x.bytes o ++ rest).drop 16 = x.data ++ rest := by
    simp only [Record.bytes, ← List.append_assoc]
    rw [List.append_assoc]
    exact List.drop_left' (by simp)
  rw [readRecord, hlength, horiginal, hmicros, if_pos ⟨hle, h.length, h.captured, h.micros⟩,
    hseconds, hdrop, List.take_left' rfl, List.drop_left' x.length_bytes]

theorem eq_of_readRecord {c rest : Bytes} {x : Record} (h : readRecord o c = some (x, rest)) :
    x.Valid ∧ c = x.bytes o ++ rest := by
  rw [readRecord] at h
  split_ifs at h with hc
  obtain ⟨hlen, hsize, horiginal, hmicros⟩ := hc
  simp only [Option.some.injEq, Prod.mk.injEq] at h
  obtain ⟨rfl, rfl⟩ := h
  have hdata : ((c.drop 16).take (o.field 8 4 c)).length = o.field 8 4 c := by
    rw [List.length_take_of_le]
    rw [List.length_drop]
    omega
  refine ⟨⟨o.field_lt (by omega), hmicros, o.field_lt (by omega), ?_, ?_⟩, ?_⟩
  · rwa [hdata]
  · rwa [hdata]
  · -- The four numbers are peeled off one after another.
    simp only [Record.bytes, hdata, List.append_assoc]
    rw [← List.drop_drop, List.take_append_drop, ← o.drop_eq_put_append (i := 12) (by omega),
      ← o.drop_eq_put_append (i := 8) (by omega), ← o.drop_eq_put_append (i := 4) (by omega),
      ← o.drop_eq_put_append (i := 0) (by omega), List.drop_zero]

/-- A record can be told from what follows it. -/
theorem Record.bytes_append_inj {x y : Record} {a b : Bytes} (hx : x.Valid) (hy : y.Valid)
    (h : x.bytes o ++ a = y.bytes o ++ b) : x = y ∧ a = b := by
  have hread := readRecord_bytes (o := o) hx a
  rw [h, readRecord_bytes hy] at hread
  simp only [Option.some.injEq, Prod.mk.injEq] at hread
  exact ⟨hread.1.symm, hread.2.symm⟩

/-- The longest row of valid records with which a stream starts. -/
structure Longest (o : ByteOrder) (c : Bytes) (xs : List Record) : Prop where
  valid : ∀ x ∈ xs, x.Valid
  starts : xs.flatMap (Record.bytes o) <+: c
  longest : ∀ ys : List Record, (∀ y ∈ ys, y.Valid) → ys.flatMap (Record.bytes o) <+: c → ys <+: xs

theorem Longest.unique {c : Bytes} {xs ys : List Record} (hx : Longest o c xs)
    (hy : Longest o c ys) : xs = ys := by
  have hxy : xs <+: ys := hy.longest xs hx.valid hx.starts
  have hyx : ys <+: xs := hx.longest ys hy.valid hy.starts
  exact hxy.eq_of_length_le hyx.length_le

theorem Longest.nil {c : Bytes} (h : readRecord o c = none) : Longest o c [] where
  valid x hx := absurd hx List.not_mem_nil
  starts := List.nil_prefix
  longest ys hys hpre := by
    cases ys with
    | nil => exact List.nil_prefix
    | cons y ys =>
      obtain ⟨tail, rfl⟩ := hpre
      rw [List.flatMap_cons, List.append_assoc, readRecord_bytes (hys y List.mem_cons_self)] at h
      cases h

theorem Longest.cons {c : Bytes} {x : Record} {xs : List Record} (hx : x.Valid)
    (h : Longest o c xs) : Longest o (x.bytes o ++ c) (x :: xs) where
  valid := List.forall_mem_cons.2 ⟨hx, h.valid⟩
  starts := by
    rw [List.flatMap_cons]
    exact (List.prefix_append_right_inj _).2 h.starts
  longest ys hys hpre := by
    cases ys with
    | nil => exact List.nil_prefix
    | cons y ys =>
      obtain ⟨hy, hys⟩ := List.forall_mem_cons.1 hys
      obtain ⟨tail, heq⟩ := hpre
      rw [List.flatMap_cons, List.append_assoc] at heq
      obtain ⟨rfl, hrest⟩ := Record.bytes_append_inj hy hx heq
      exact (List.cons_prefix_cons).2 ⟨rfl, h.longest ys hys ⟨tail, hrest⟩⟩

/-- All the records of a stream, when it is made of valid ones. -/
theorem longest_flatMap {xs : List Record} (h : ∀ x ∈ xs, x.Valid) :
    Longest o (xs.flatMap (Record.bytes o)) xs := by
  induction xs with
  | nil =>
    refine .nil ?_
    rw [List.flatMap_nil, readRecord, if_neg]
    intro hc
    have := hc.1
    rw [List.length_nil] at this
    omega
  | cons x xs ih =>
    obtain ⟨hx, hxs⟩ := List.forall_mem_cons.1 h
    exact .cons hx (ih hxs)

end

end Pcap

end QuicLab
