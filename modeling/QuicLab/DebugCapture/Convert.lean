import QuicLab.DebugCapture.Capture
import QuicLab.Pcap

/-!
# The conversion of `tcpdump`'s output

`readPCAP` reads a classic pcap stream, in either byte order, and gives it on block by
block to a callback. The reader may cut the stream anywhere, and the callback has a state
of its own and may fail at any block.

* the blocks that the package writes are those of the format (`block_eq`,
  `sectionHeader_eq`, `recordBlock_eq`);
* a header that passes the checks is one that can be written (`readHeader_iff`);
* the records are converted as long as they are complete and valid
  (`readRecords_longest`).

From these, `readPCAP_converts` says what the callback gets, and what is sent to the
channel `ready`.
-/

namespace QuicLab.DebugCapture

open Go Pcap

/-! ### Blocks -/

theorem putUintLE_eq (w n : ℕ) : putUintLE w n = ByteOrder.little.put w n := rfl

theorem block_eq (kind : ℕ) (body : Bytes) :
    block kind body = Pcapng.Block.bytes ⟨kind, Pcapng.pad body⟩ := by
  simp only [block, Pcapng.Block.bytes, Pcapng.length_pad, List.append_assoc]
  rw [Pcapng.pad, List.append_assoc]
  rfl

/-- The block that starts a section. -/
def headerBlock : Pcapng.Block where
  kind := 0x0a0d0d0a
  body := putUintLE 4 0x1a2b3c4d ++ putUintLE 2 1 ++ putUintLE 2 0 ++ putUintLE 8 (2 ^ 64 - 1)

/-- The block that describes the interface. -/
def interfaceBlock (link : ℕ) : Pcapng.Block where
  kind := 1
  body := putUintLE 2 link ++ putUintLE 2 0 ++ putUintLE 4 262144

theorem length_interfaceBlock (link : ℕ) : (interfaceBlock link).body.length = 8 := by
  simp [interfaceBlock, putUintLE_eq]

theorem sectionHeader_eq (link : ℕ) :
    sectionHeader link = headerBlock.bytes ++ (interfaceBlock link).bytes := by
  rw [sectionHeader, block_eq, block_eq, Pcapng.pad_of_aligned, Pcapng.pad_of_aligned]
  · rfl
  · exact congrArg (· % 4) (length_interfaceBlock link)
  · rfl

theorem fits_headerBlock : headerBlock.Fits := ⟨by decide, rfl, by decide⟩

theorem isSection_headerBlock : headerBlock.IsSection := by decide

theorem fits_interfaceBlock (link : ℕ) : (interfaceBlock link).Fits := by
  refine ⟨show 1 < 256 ^ 4 by decide, ?_, ?_⟩
  · rw [length_interfaceBlock]
  · rw [length_interfaceBlock]
    decide

theorem linkType_interfaceBlock {link : ℕ} (h : link ≤ 65535) :
    (interfaceBlock link).linkType = some link := by
  have hlink : link % 256 ^ 2 = link := Nat.mod_eq_of_lt (by omega)
  rw [Pcapng.Block.linkType, if_pos ⟨rfl, (length_interfaceBlock link).ge⟩, interfaceBlock,
    List.append_assoc, putUintLE_eq, ByteOrder.field_zero_append, hlink]

/-! ### The conversion -/

variable {σ : Type*} {τ : Type}

/-- What `readPCAP` reads in the header: the byte order and the link type. -/
def readHeader (h : Bytes) : Except Error (ByteOrder × ℕ) :=
  let order :=
    if ByteOrder.little.field 0 4 h = 0xa1b2c3d4 then some ByteOrder.little
    else if ByteOrder.little.field 0 4 h = 0xd4c3b2a1 then some ByteOrder.big
    else none
  match order with
  | none => .error (.new "tcpdump must emit classic microsecond pcap")
  | some order =>
    if order.field 4 2 h ≠ 2 ∨ order.field 6 2 h ≠ 4 then .error (.new "unsupported pcap version")
    else if 65535 < order.field 20 4 h then .error (.new "unsupported link type")
    else .ok (order, order.field 20 4 h)

/-- The block of a record. -/
def recordBlock (ts size orig : ℕ) (data : Bytes) : Bytes :=
  block 6 (putUintLE 4 0 ++ putUintLE 4 (ts / 2 ^ 32) ++ putUintLE 4 ts ++ putUintLE 4 size ++
    putUintLE 4 orig ++ data)

/-- The loop of `readPCAP`, which ends by an error. The state of the callback `emit` is of
    type `τ`. The first number bounds the number of turns, `ErrNoProgress` not being
    reached below. -/
def readRecords (r : Reader σ) (order : ByteOrder) (emit : Bytes → τ → Option Error × τ) :
    ℕ → σ → τ → Error × τ
  | 0, _, t => (.ErrNoProgress, t)
  | k + 1, s, t =>
    match r.readFull 16 s with
    | ((_, some e), _) => (e, t)
    | ((h, none), s) =>
      let size := order.field 8 4 h
      let orig := order.field 12 4 h
      let us := order.field 4 4 h
      if 262144 < size ∨ orig < size ∨ 1000000 ≤ us then (.new "invalid capture record", t)
      else
        let ts := order.field 0 4 h * 1000000 + us
        match r.readFull size s with
        | ((_, some e), _) => (e, t)
        | ((data, none), s) =>
          match emit (recordBlock ts size orig data) t with
          | (some e, t) => (e, t)
          | (none, t) => readRecords r order emit k s t

/-- What comes of `readPCAP`: the error it returns, what it sent to `ready`, and the
    state of the callback. -/
structure Conversion (τ : Type) where
  err : Error
  ready : List (Option Error)
  state : τ

/-- `readPCAP`. -/
def readPCAP (r : Reader σ) (emit : Bytes → τ → Option Error × τ) (s : σ) (t : τ) :
    Conversion τ :=
  match r.readFull 24 s with
  | ((_, some e), _) => ⟨e, [some e], t⟩
  | ((h, none), s) =>
    match readHeader h with
    | .error e => ⟨e, [some e], t⟩
    | .ok (order, link) =>
      match emit (sectionHeader link) t with
      | (some e, t) => ⟨e, [some e], t⟩
      | (none, t) =>
        let (e, t) := readRecords r order emit (r.left s + 1) s t
        ⟨e, [none], t⟩

/-! ### What is read -/

/-- The block of a record holds its packet. -/
theorem recordBlock_eq (x : Record) :
    recordBlock (x.seconds * 1000000 + x.micros) x.data.length x.original x.data =
      (Pcapng.packetBlock x.packet []).bytes := by
  rw [recordBlock, block_eq, Pcapng.pad_append, Pcapng.packetBlock]
  · simp only [putUintLE_eq, List.append_assoc, List.append_nil, Record.packet]
  · simp [putUintLE_eq]

/-- The two numbers by which `readPCAP` tells the byte order are one number, read in
    either order. -/
theorem magic_iff {order : ByteOrder} {h : Bytes} (hlen : 4 ≤ h.length) :
    order.field 0 4 h = 0xa1b2c3d4 ↔
      (if ByteOrder.little.field 0 4 h = 0xa1b2c3d4 then some ByteOrder.little
        else if ByteOrder.little.field 0 4 h = 0xd4c3b2a1 then some ByteOrder.big
        else none) = some order := by
  have hput : ∀ o : ByteOrder, o.put 4 (o.field 0 4 h) = h.take 4 := fun o =>
    o.put_read (List.length_take_of_le hlen)
  have hread : ∀ o : ByteOrder, o.field 0 4 h = o.read (h.take 4) := fun _ => rfl
  have hswap : ByteOrder.big.field 0 4 h = 0xa1b2c3d4 ↔
      ByteOrder.little.field 0 4 h = 0xd4c3b2a1 := by
    constructor
    · intro hbig
      rw [hread, ← hput .big, hbig]
      decide
    · intro hlittle
      rw [hread, ← hput .little, hlittle]
      decide
  cases order with
  | little => by_cases hmagic : ByteOrder.little.field 0 4 h = 0xa1b2c3d4 <;> simp [hmagic]
  | big =>
    rw [hswap]
    by_cases hmagic : ByteOrder.little.field 0 4 h = 0xa1b2c3d4 <;> simp [hmagic]

/-- The header passes the checks if and only if it can be written. -/
theorem readHeader_iff {h : Bytes} (hlen : h.length = 24) (order : ByteOrder) (link : ℕ) :
    readHeader h = .ok (order, link) ↔
      ∃ header : Header, header.Valid ∧ header.order = order ∧ header.link = link ∧
        h = header.bytes := by
  constructor
  · intro hread
    rw [readHeader] at hread
    split at hread
    · cases hread
    next o ho =>
      rw [← magic_iff (by omega)] at ho
      split_ifs at hread with hversion hlink
      simp only [not_or, not_not] at hversion
      obtain ⟨rfl, rfl⟩ := Prod.mk.inj (Except.ok.inj hread)
      refine ⟨_, ⟨?_, not_lt.1 hlink⟩, rfl, rfl, Header.eq_bytes hlen ho hversion.1 hversion.2⟩
      rw [List.length_take_of_le]
      rw [List.length_drop]
      omega
  · rintro ⟨header, hv, rfl, rfl, rfl⟩
    obtain ⟨hmajor, hminor, hlink⟩ := Header.fields_bytes hv
    have hmagic : header.order.field 0 4 header.bytes = 0xa1b2c3d4 := by
      rw [Header.bytes, ByteOrder.field_zero_append, Nat.mod_eq_of_lt (by decide)]
    rw [readHeader, (magic_iff (by omega)).1 hmagic]
    simp only
    rw [hmajor, hminor, hlink, if_neg (by simp), if_neg (not_lt.2 hv.link)]

variable {H : σ → Bytes → Prop} {r : Reader σ} {e : Error}

/-- One turn of the loop: there is no complete and valid record, and the loop ends, or
    the first one is converted. -/
theorem readRecords_step (hr : Delivers r e H) (order : ByteOrder) {s : σ} {c : Bytes} (h : H s c) :
    (readRecord order c = none ∧ ∀ (τ : Type) (emit : Bytes → τ → Option Error × τ) k t,
      (readRecords r order emit (k + 1) s t).2 = t) ∨
    ∃ x c' s', readRecord order c = some (x, c') ∧ H s' c' ∧ r.left s' < r.left s ∧
      ∀ (τ : Type) (emit : Bytes → τ → Option Error × τ) k t,
        readRecords r order emit (k + 1) s t =
          match emit (Pcapng.packetBlock x.packet []).bytes t with
          | (some e, t) => (e, t)
          | (none, t) => readRecords r order emit k s' t := by
  by_cases hlen : c.length < 16
  · -- Not even the numbers of a record are complete.
    obtain ⟨e', s', hread⟩ := hr.readFull_short h hlen
    refine .inl ⟨?_, fun τ emit k t => ?_⟩
    · rw [readRecord, if_neg]
      omega
    · rw [readRecords, hread]
  obtain ⟨s', hread, h'⟩ := hr.readFull h (not_lt.1 hlen)
  have hfield : ∀ i, i + 4 ≤ 16 → order.field i 4 (c.take 16) = order.field i 4 c := by
    intro i hi
    rw [ByteOrder.field, ByteOrder.field, List.drop_take, List.take_take, min_eq_left (by omega)]
  by_cases hvalid : 262144 < order.field 8 4 c ∨ order.field 12 4 c < order.field 8 4 c ∨
      1000000 ≤ order.field 4 4 c
  · refine .inl ⟨?_, fun τ emit k t => ?_⟩
    · rw [readRecord, if_neg]
      omega
    · simp only [readRecords, hread, hfield 8 (by decide), hfield 12 (by decide),
        hfield 4 (by decide), if_pos hvalid]
  by_cases hdata : (c.drop 16).length < order.field 8 4 c
  · -- The bytes of the packet are not complete.
    obtain ⟨e', s'', hread'⟩ := hr.readFull_short h' hdata
    refine .inl ⟨?_, fun τ emit k t => ?_⟩
    · rw [List.length_drop] at hdata
      rw [readRecord, if_neg]
      omega
    · simp only [readRecords, hread, hfield 8 (by decide), hfield 12 (by decide),
        hfield 4 (by decide), if_neg hvalid, hread']
  obtain ⟨s'', hread', h''⟩ := hr.readFull h' (not_lt.1 hdata)
  have hsize : ((c.drop 16).take (order.field 8 4 c)).length = order.field 8 4 c :=
    List.length_take_of_le (not_lt.1 hdata)
  rw [List.length_drop, not_lt] at hdata
  rw [List.drop_drop] at h''
  refine .inr ⟨_, _, s'', if_pos (by omega), h'', ?_, fun τ emit k t => ?_⟩
  · have hleft := r.left_readFull 16 s
    have hleft' := r.left_readFull (order.field 8 4 c) s'
    rw [hread] at hleft
    rw [hread'] at hleft'
    simp only [List.length_take] at hleft hleft'
    omega
  · rw [← recordBlock_eq, hsize]
    simp only [readRecords, hread, hfield 0 (by decide), hfield 8 (by decide),
      hfield 12 (by decide), hfield 4 (by decide), if_neg hvalid, hread']

/-- The loop goes through the longest row of valid records. -/
theorem readRecords_longest (hr : Delivers r e H) (order : ByteOrder) {k : ℕ} {s : σ} {c : Bytes}
    (hk : r.left s < k) (h : H s c) :
    ∃ xs, Longest order c xs ∧ ∀ (τ : Type) (emit : Bytes → τ → Option Error × τ) (t : τ),
      (∀ b t, (emit b t).1 = none) → (readRecords r order emit k s t).2 =
        (xs.map fun x => (Pcapng.packetBlock x.packet []).bytes).foldl
          (fun t b => (emit b t).2) t := by
  induction k generalizing s c with
  | zero => exact absurd hk (Nat.not_lt_zero _)
  | succ k ih =>
    rcases readRecords_step hr order h with ⟨hnone, hend⟩ | ⟨x, c', s', hx, h', hleft, hnext⟩
    · exact ⟨[], .nil hnone, fun τ emit t _ => hend τ emit k t⟩
    · obtain ⟨xs, hxs, hrest⟩ := ih (hleft.trans_le (Nat.lt_succ_iff.1 hk)) h'
      obtain ⟨hxv, rfl⟩ := eq_of_readRecord hx
      refine ⟨x :: xs, .cons hxv hxs, fun τ emit t hemit => ?_⟩
      have hfst := hemit (Pcapng.packetBlock x.packet []).bytes t
      rw [hnext, List.map_cons, List.foldl_cons, ← hrest τ emit _ hemit]
      split
      next heq => rw [heq] at hfst; cases hfst
      next heq => rw [heq]

/-! ### What is converted -/

/-- The blocks of a capture: the section, and a block for each record. -/
def convertedBlocks (link : ℕ) (xs : List Record) : List Bytes :=
  sectionHeader link :: xs.map fun x => (Pcapng.packetBlock x.packet []).bytes

/-- The callbacks that never fail get these blocks, one after another. -/
def Emits (r : Reader σ) (s : σ) (blocks : List Bytes) : Prop :=
  ∀ (τ : Type) (emit : Bytes → τ → Option Error × τ) (t : τ), (∀ b t, (emit b t).1 = none) →
    (readPCAP r emit s t).state = blocks.foldl (fun t b => (emit b t).2) t

theorem fits_packetBlock {x : Record} (h : x.Valid) :
    (Pcapng.packetBlock x.packet []).Fits := by
  have hlen : (Pcapng.packetBlock x.packet []).body.length = 20 + Pcapng.padded x.data.length := by
    simp [Pcapng.packetBlock, Record.packet]
    omega
  have hle := h.length
  refine ⟨show 6 < 256 ^ 4 by decide, ?_, ?_⟩
  · rw [hlen, Pcapng.padded]
    omega
  · rw [hlen, Pcapng.padded]
    omega

/-- The blocks of a capture say what the records say. -/
theorem readCapture_convertedBlocks {link : ℕ} (hlink : link ≤ 65535) {xs : List Record}
    (hxs : ∀ x ∈ xs, x.Valid) :
    Pcapng.readCapture (convertedBlocks link xs).flatten = some ⟨link, xs.map Record.packet⟩ := by
  have hflatten : (convertedBlocks link xs).flatten =
      (headerBlock :: interfaceBlock link ::
        xs.map fun x => Pcapng.packetBlock x.packet []).flatMap Pcapng.Block.bytes := by
    simp only [convertedBlocks, List.flatten_cons, sectionHeader_eq, List.flatMap_cons,
      List.flatMap_map, List.append_assoc]
    rfl
  have hpackets : (xs.map fun x => Pcapng.packetBlock x.packet []).mapM Pcapng.Block.packet =
      some (xs.map fun x => (x.packet, [])) := by
    refine Pcapng.mapM_map fun x hx => ?_
    have hmicros := (hxs x hx).micros
    have hseconds := (hxs x hx).seconds
    have hlength := (hxs x hx).length
    refine Pcapng.packet_packetBlock ?_ ?_ (hxs x hx).original []
    · simp only [Record.packet]
      omega
    · simp only [Record.packet]
      omega
  rw [hflatten, Pcapng.readCapture_eq _ isSection_headerBlock (linkType_interfaceBlock hlink) _
    hpackets]
  · rw [List.map_map]
    rfl
  · refine List.forall_mem_cons.2 ⟨fits_headerBlock, List.forall_mem_cons.2
      ⟨fits_interfaceBlock link, List.forall_mem_map.2 fun x hx => fits_packetBlock (hxs x hx)⟩⟩
  · exact List.forall_mem_map.2 fun x _ => rfl

/-- The header with which a stream starts, if any, decides what `readPCAP` does first. -/
theorem readPCAP_cases (hr : Delivers r e H) {s : σ} {c : Bytes} (h : H s c) :
    ((¬ ∃ header rest, Header.Valid header ∧ c = header.bytes ++ rest) ∧
      ∀ (τ : Type) (emit : Bytes → τ → Option Error × τ) t,
        ∃ e', readPCAP r emit s t = ⟨e', [some e'], t⟩) ∨
    ∃ header rest s', Header.Valid header ∧ c = header.bytes ++ rest ∧ H s' rest ∧
      ∀ (τ : Type) (emit : Bytes → τ → Option Error × τ) t,
        readPCAP r emit s t =
          match emit (sectionHeader header.link) t with
          | (some e, t) => ⟨e, [some e], t⟩
          | (none, t) =>
            let (e, t) := readRecords r header.order emit (r.left s' + 1) s' t
            ⟨e, [none], t⟩ := by
  by_cases hlen : c.length < 24
  · obtain ⟨e', s', hread⟩ := hr.readFull_short h hlen
    refine .inl ⟨?_, fun τ emit t => ⟨e', by rw [readPCAP, hread]⟩⟩
    rintro ⟨header, rest, hv, rfl⟩
    rw [List.length_append, Header.length_bytes hv] at hlen
    omega
  obtain ⟨s', hread, h'⟩ := hr.readFull h (not_lt.1 hlen)
  have hiff := readHeader_iff (List.length_take_of_le (not_lt.1 hlen))
  cases hheader : readHeader (c.take 24) with
  | error e' =>
    refine .inl ⟨?_, fun τ emit t => ⟨e', by simp only [readPCAP, hread, hheader]⟩⟩
    rintro ⟨header, rest, hv, rfl⟩
    have hok := (hiff header.order header.link).2
      ⟨header, hv, rfl, rfl, List.take_left' (Header.length_bytes hv)⟩
    rw [hheader] at hok
    cases hok
  | ok p =>
    obtain ⟨header, hv, horder, hlink, htake⟩ := (hiff p.1 p.2).1 hheader
    refine .inr ⟨header, c.drop 24, s', hv, ?_, h', fun τ emit t => ?_⟩
    · rw [← htake, List.take_append_drop]
    · rw [horder, hlink]
      simp only [readPCAP, hread, hheader]

/-- A stream starts with one header at most. -/
theorem header_append_inj {header header' : Header} {rest rest' : Bytes} (hv : header.Valid)
    (hv' : header'.Valid) (h : header.bytes ++ rest = header'.bytes ++ rest') :
    header.order = header'.order ∧ header.link = header'.link ∧ rest = rest' := by
  obtain ⟨hbytes, hrest⟩ := List.append_inj h
    ((Header.length_bytes hv).trans (Header.length_bytes hv').symm)
  have hread := (readHeader_iff (Header.length_bytes hv) _ _).2 ⟨header, hv, rfl, rfl, rfl⟩
  rw [(readHeader_iff (Header.length_bytes hv) _ _).2 ⟨header', hv', rfl, rfl, hbytes⟩] at hread
  obtain ⟨horder, hlink⟩ := Prod.mk.inj (Except.ok.inj hread)
  exact ⟨horder.symm, hlink.symm, hrest⟩

/-- What a stream with a header is converted to. -/
theorem emits_convertedBlocks (hr : Delivers r e H) {s : σ} {header : Header} {rest : Bytes}
    (hv : header.Valid) (h : H s (header.bytes ++ rest)) :
    ∃ xs, Longest header.order rest xs ∧ Emits r s (convertedBlocks header.link xs) := by
  rcases readPCAP_cases hr h with ⟨hnone, -⟩ | ⟨header', rest', s', hv', heq, h', hrun⟩
  · exact absurd ⟨header, rest, hv, rfl⟩ hnone
  obtain ⟨horder, hlink, rfl⟩ := header_append_inj hv hv' heq
  obtain ⟨xs, hxs, hall⟩ := readRecords_longest hr header'.order (Nat.lt_succ_self (r.left s')) h'
  refine ⟨xs, horder ▸ hxs, fun τ emit t hemit => ?_⟩
  have hfst := hemit (sectionHeader header'.link) t
  rw [hrun, hlink, convertedBlocks, List.foldl_cons, ← hall τ emit _ hemit]
  split
  next heq => rw [heq] at hfst; cases hfst
  next heq => rw [heq]

/-- The conversion preserves packets, whatever the pieces in which the stream is read. A
    valid file is converted to one with its link type and its packets. Of any stream at
    all, the callbacks that never fail get nothing, when it does not start with a valid
    header, and otherwise the packets of the longest row of valid records. Whatever the
    callback, one value is sent to `ready`; it is nil if and only if the header was valid
    and the callback took the section. -/
theorem readPCAP_converts {r : Reader σ} {e : Error} {H : σ → Bytes → Prop} (hr : Delivers r e H)
    {s : σ} {c : Bytes} (h : H s c) :
    (∀ (header : Header) (xs : List Record), header.Valid → (∀ x ∈ xs, x.Valid) →
      c = header.bytes ++ xs.flatMap (Record.bytes header.order) →
      ∃ blocks, Emits r s blocks ∧
        Pcapng.readCapture blocks.flatten = some ⟨header.link, xs.map Record.packet⟩) ∧
    ((¬ ∃ header rest, Header.Valid header ∧ c = header.bytes ++ rest) → Emits r s []) ∧
    (∀ header rest, Header.Valid header → c = header.bytes ++ rest →
      ∃ blocks xs, Emits r s blocks ∧ Longest header.order rest xs ∧
        Pcapng.readCapture blocks.flatten = some ⟨header.link, xs.map Record.packet⟩) ∧
    ∀ (τ : Type) (emit : Bytes → τ → Option Error × τ) t,
      ∃ v, (readPCAP r emit s t).ready = [v] ∧
        (v = none ↔ ∃ header rest, Header.Valid header ∧ c = header.bytes ++ rest ∧
          (emit (sectionHeader header.link) t).1 = none) := by
  refine ⟨?_, ?_, ?_, ?_⟩
  · rintro header xs hv hxs rfl
    obtain ⟨ys, hys, hemits⟩ := emits_convertedBlocks hr hv h
    obtain rfl := hys.unique (longest_flatMap hxs)
    exact ⟨_, hemits, readCapture_convertedBlocks hv.link hxs⟩
  · intro hnone
    rcases readPCAP_cases hr h with ⟨-, hrun⟩ | ⟨header, rest, s', hv, heq, -, -⟩
    · intro τ emit t _
      obtain ⟨e', he'⟩ := hrun τ emit t
      rw [he', List.foldl_nil]
    · exact absurd ⟨header, rest, hv, heq⟩ hnone
  · rintro header rest hv rfl
    obtain ⟨xs, hxs, hemits⟩ := emits_convertedBlocks hr hv h
    exact ⟨_, xs, hemits, hxs, readCapture_convertedBlocks hv.link hxs.valid⟩
  · intro τ emit t
    rcases readPCAP_cases hr h with ⟨hnone, hrun⟩ | ⟨header, rest, s', hv, rfl, -, hrun⟩
    · obtain ⟨e', he'⟩ := hrun τ emit t
      refine ⟨some e', by rw [he'], ⟨(fun hv => by cases hv), ?_⟩⟩
      rintro ⟨header, rest, hv, heq, -⟩
      exact absurd ⟨header, rest, hv, heq⟩ hnone
    · rw [hrun]
      have hiff : (∃ header' rest', Header.Valid header' ∧
          header.bytes ++ rest = header'.bytes ++ rest' ∧
          (emit (sectionHeader header'.link) t).1 = none) ↔
          (emit (sectionHeader header.link) t).1 = none := by
        constructor
        · rintro ⟨header', rest', hv', heq, hnone⟩
          rwa [(header_append_inj hv hv' heq).2.1]
        · exact fun hnone => ⟨header, rest, hv, rfl, hnone⟩
      rw [hiff]
      split
      next e' t' heq => exact ⟨some e', rfl, by rw [heq]⟩
      next t' heq => exact ⟨none, rfl, by rw [heq]⟩

/-- A header of a file in the order of the network. -/
def Sample.header : Header := ⟨.big, List.replicate 12 0, 101⟩

/-- A record of three bytes of a packet of forty. -/
def Sample.record : Record := ⟨1700000000, 999999, 40, [0x45, 0, 0]⟩

/-- A file read in two pieces. -/
theorem readPCAP_converts_pieces :
    ∃ blocks, Emits Pipe.reader ⟨[Sample.header.bytes.take 10, Sample.header.bytes.drop 10 ++
      Sample.record.bytes .big], []⟩ blocks ∧
      Pcapng.readCapture blocks.flatten = some ⟨101, [⟨1700000000999999, 40, [0x45, 0, 0]⟩]⟩ := by
  refine (readPCAP_converts Pipe.source.delivers rfl).1 Sample.header [Sample.record]
    ⟨rfl, by decide⟩ ?_ ?_
  · exact List.forall_mem_singleton.2 ⟨by decide, by decide, by decide, by decide, by decide⟩
  · rfl

end QuicLab.DebugCapture
