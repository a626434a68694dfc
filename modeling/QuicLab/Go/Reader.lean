import QuicLab.Go.Bytes

/-!
# Readers and writers

Go's `io.Reader` and `io.Writer`, as state machines: a read fills a buffer of a
given size, returning the bytes it put there and possibly an error, and moves to
a next state. A `Reader` comes with a bound on what it can still do (`left`),
which every read without an error lowers: a reader that went on returning
nothing would make `io.ReadFull` loop for ever.

`Source r H` says that the states of `r` related by `H` to a byte string give
back this byte string, however they cut it, and then the end of the stream.
`Source.readFull` and `Source.readFull_eof` are what `io.ReadFull` makes of it;
a reader built on another one is a source when the other one is. `Delivers` is
weaker: the stream may end by any error, given with its last bytes or after them.
-/

namespace QuicLab.Go

/-- The errors of package `io`, those made by `errors.New` and `fmt.Errorf`, and
    those of the system: of files, randomness or certificates. -/
inductive Error
  | EOF
  | ErrUnexpectedEOF
  | ErrNoProgress
  | ErrClosedPipe
  | new (text : String)
  | errorf (format : String) (args : List Bytes)
  | sys (text : String)
  deriving DecidableEq, Repr

/-- An `io.Writer` with states `σ`: writing gives the number of bytes written. -/
structure Writer (σ : Type*) where
  write : Bytes → σ → (ℕ × Option Error) × σ

/-- An `io.Reader` with states `σ`. -/
structure Reader (σ : Type*) where
  /-- `Read`, on a buffer of the given size. -/
  read : ℕ → σ → (Bytes × Option Error) × σ
  /-- A bound on what is left to read. -/
  left : σ → ℕ
  length_read : ∀ n s, (read n s).1.1.length ≤ n
  left_read : ∀ n s, left (read n s).2 + (read n s).1.1.length ≤ left s
  left_lt : ∀ n s, 0 < n → (read n s).1.2 = none → left (read n s).2 < left s

namespace Reader

variable {σ : Type*} (r : Reader σ)

/-- The loop of `io.ReadAtLeast`, for `n` more bytes after `acc`. The first
    argument bounds the number of turns, `ErrNoProgress` not being reached
    below. -/
def readLoop : ℕ → ℕ → Bytes → σ → (Bytes × Option Error) × σ
  | _, 0, acc, s => ((acc, none), s)
  | 0, _ + 1, acc, s => ((acc, some .ErrNoProgress), s)
  | k + 1, n + 1, acc, s =>
    match r.read (n + 1) s with
    | ((b, none), s') => readLoop k (n + 1 - b.length) (acc ++ b) s'
    | ((b, some e), s') =>
      if n + 1 ≤ b.length then ((acc ++ b, none), s')
      else if acc ++ b ≠ [] ∧ e = .EOF then ((acc ++ b, some .ErrUnexpectedEOF), s')
      else ((acc ++ b, some e), s')

/-- `io.ReadFull` on a buffer of `n` bytes. -/
def readFull (n : ℕ) (s : σ) : (Bytes × Option Error) × σ := r.readLoop (r.left s + 1) n [] s

theorem left_readLoop (k n : ℕ) (acc : Bytes) (s : σ) :
    r.left (r.readLoop k n acc s).2 + (r.readLoop k n acc s).1.1.length ≤
      r.left s + acc.length := by
  induction k generalizing n acc s with
  | zero => cases n <;> exact le_rfl
  | succ k ih =>
    cases n with
    | zero => exact le_rfl
    | succ n =>
      have hleft := r.left_read (n + 1) s
      rw [readLoop]
      split
      next b s' hr =>
        rw [hr] at hleft
        have := ih (n + 1 - b.length) (acc ++ b) s'
        rw [List.length_append] at this
        simp only at hleft
        omega
      next b e s' hr =>
        rw [hr] at hleft
        simp only at hleft
        split_ifs <;> simp only [List.length_append] <;> omega

theorem left_readFull (n : ℕ) (s : σ) :
    r.left (r.readFull n s).2 + (r.readFull n s).1.1.length ≤ r.left s :=
  r.left_readLoop (r.left s + 1) n [] s

/-- A full buffer was read, when there is no error. -/
theorem length_readLoop {k n : ℕ} {acc b : Bytes} {s s' : σ}
    (h : r.readLoop k n acc s = ((b, none), s')) : b.length = acc.length + n := by
  induction k generalizing n acc s with
  | zero =>
    cases n with
    | zero =>
      cases h
      rfl
    | succ n => cases h
  | succ k ih =>
    cases n with
    | zero =>
      cases h
      rfl
    | succ n =>
      have hle := r.length_read (n + 1) s
      rw [readLoop] at h
      split at h
      next b' s'' hr =>
        rw [hr] at hle
        have := ih h
        rw [List.length_append] at this
        simp only at hle
        omega
      next b' e s'' hr =>
        rw [hr] at hle
        simp only at hle
        split_ifs at h with hn <;> cases h
        rw [List.length_append]
        omega

theorem length_readFull {n : ℕ} {b : Bytes} {s s' : σ} (h : r.readFull n s = ((b, none), s')) :
    b.length = n := (r.length_readLoop h).trans (Nat.zero_add n)

end Reader

/-- The states of `r` related by `H` to a byte string give it back, and then
    the end of the stream: while something is left, a read returns a first part
    of it; afterwards it returns `EOF`, possibly after some empty reads. -/
structure Source {σ : Type*} (r : Reader σ) (H : σ → Bytes → Prop) : Prop where
  data : ∀ {s c n}, H s c → 0 < n → c ≠ [] →
    ∃ b c' s', r.read n s = ((b, none), s') ∧ c = b ++ c' ∧ b.length ≤ n ∧ H s' c'
  eof : ∀ {s n}, H s [] → 0 < n →
    ∃ e s', r.read n s = (([], e), s') ∧ (e = none ∨ e = some .EOF) ∧ H s' []

namespace Source

variable {σ : Type*} {r : Reader σ} {H : σ → Bytes → Prop}

theorem readLoop_eof (hr : Source r H) {k n : ℕ} {s : σ} (hk : r.left s < k) (h : H s [])
    (hn : 0 < n) : ∃ s', r.readLoop k n [] s = (([], some .EOF), s') ∧ H s' [] := by
  induction k generalizing s with
  | zero => exact absurd hk (Nat.not_lt_zero _)
  | succ k ih =>
    cases n with
    | zero => exact absurd hn (Nat.lt_irrefl 0)
    | succ n =>
      obtain ⟨e, s', hread, he, h'⟩ := hr.eof h n.succ_pos
      rw [Reader.readLoop, hread]
      rcases he with rfl | rfl
      · have hlt := r.left_lt (n + 1) s n.succ_pos (by rw [hread])
        rw [hread] at hlt
        exact ih (by simp only at hlt; omega) h'
      · exact ⟨s', by simp, h'⟩

/-- Reading at the end of the stream. -/
theorem readFull_eof (hr : Source r H) {n : ℕ} {s : σ} (h : H s []) (hn : 0 < n) :
    ∃ s', r.readFull n s = (([], some .EOF), s') ∧ H s' [] :=
  hr.readLoop_eof (Nat.lt_succ_self _) h hn

end Source

/-- The states of `r` related by `H` to a byte string give it back in any pieces, and
    then the error `e`, which may also come with the last piece. -/
structure Delivers {σ : Type*} (r : Reader σ) (e : Error) (H : σ → Bytes → Prop) : Prop where
  read : ∀ {s c n}, H s c → 0 < n → ∃ b c' err s', r.read n s = ((b, err), s') ∧ c = b ++ c' ∧
    H s' c' ∧ (err = none ∨ err = some e ∧ c' = [])

namespace Delivers

variable {σ : Type*} {r : Reader σ} {e : Error} {H : σ → Bytes → Prop}

theorem readLoop (hr : Delivers r e H) {k n : ℕ} {acc c : Bytes} {s : σ} (hk : r.left s < k)
    (h : H s c) :
    (n ≤ c.length → ∃ s', r.readLoop k n acc s = ((acc ++ c.take n, none), s') ∧ H s' (c.drop n)) ∧
      (c.length < n → ∃ err s', r.readLoop k n acc s = ((acc ++ c, some err), s')) := by
  induction k generalizing n acc c s with
  | zero => exact absurd hk (Nat.not_lt_zero _)
  | succ k ih =>
    cases n with
    | zero =>
      refine ⟨fun _ => ⟨s, ?_, h⟩, fun hn => absurd hn (Nat.not_lt_zero _)⟩
      rw [Reader.readLoop, List.take_zero, List.append_nil]
    | succ n =>
      obtain ⟨b, c', err, s', hread, rfl, h', herr⟩ := hr.read h n.succ_pos
      have hb : b.length ≤ n + 1 := by
        have hle := r.length_read (n + 1) s
        rwa [hread] at hle
      rw [Reader.readLoop, hread, List.length_append]
      rcases herr with rfl | ⟨rfl, rfl⟩
      · have hlt := r.left_lt (n + 1) s n.succ_pos (by rw [hread])
        rw [hread] at hlt
        simp only at hlt
        have hk' : r.left s' < k := by omega
        obtain ⟨hfull, hshort⟩ := @ih (n + 1 - b.length) (acc ++ b) c' s' hk' h'
        refine ⟨fun hn => ?_, fun hn => ?_⟩
        · obtain ⟨s'', hloop, h''⟩ := hfull (by omega)
          refine ⟨s'', ?_, ?_⟩
          · simp only
            rw [hloop, List.append_assoc, List.take_append, List.take_of_length_le hb]
          · rwa [List.drop_append, List.drop_of_length_le hb]
        · obtain ⟨err, s'', hloop⟩ := hshort (by omega)
          exact ⟨err, s'', by simp only [hloop, List.append_assoc]⟩
      · -- The last piece came with the error, which counts only if it is too short.
        simp only [List.append_nil, List.length_nil, Nat.add_zero]
        refine ⟨fun hn => ⟨s', ?_, ?_⟩, fun hn => ?_⟩
        · rw [if_pos hn, List.take_of_length_le hb]
        · rwa [List.drop_of_length_le hb]
        · rw [if_neg (not_le.2 hn)]
          split_ifs
          · exact ⟨_, _, rfl⟩
          · exact ⟨_, _, rfl⟩

/-- Reading no more than what is left. -/
theorem readFull (hr : Delivers r e H) {n : ℕ} {c : Bytes} {s : σ} (h : H s c)
    (hn : n ≤ c.length) : ∃ s', r.readFull n s = ((c.take n, none), s') ∧ H s' (c.drop n) :=
  (hr.readLoop (Nat.lt_succ_self _) h).1 hn

/-- Reading more than what is left. -/
theorem readFull_short (hr : Delivers r e H) {n : ℕ} {c : Bytes} {s : σ} (h : H s c)
    (hn : c.length < n) : ∃ err s', r.readFull n s = ((c, some err), s') :=
  (hr.readLoop (Nat.lt_succ_self _) h).2 hn

end Delivers

theorem Source.delivers {σ : Type*} {r : Reader σ} {H : σ → Bytes → Prop} (hr : Source r H) :
    Delivers r .EOF H where
  read {s c n} h hn := by
    by_cases hc : c = []
    · subst hc
      obtain ⟨err, s', hread, herr, h'⟩ := hr.eof h hn
      exact ⟨[], [], err, s', hread, rfl, h', herr.imp_right fun heq => ⟨heq, rfl⟩⟩
    · obtain ⟨b, c', s', hread, heq, -, h'⟩ := hr.data h hn hc
      exact ⟨b, c', none, s', hread, heq, h', .inl rfl⟩

/-- Reading no more than what is left. -/
theorem Source.readFull {σ : Type*} {r : Reader σ} {H : σ → Bytes → Prop} (hr : Source r H) {n : ℕ}
    {c : Bytes} {s : σ} (h : H s c) (hn : n ≤ c.length) :
    ∃ s', r.readFull n s = ((c.take n, none), s') ∧ H s' (c.drop n) :=
  hr.delivers.readFull h hn

/-! ## A reliable byte stream -/

/-- One end of a reliable, ordered byte stream: what was written to it, and
    what is left to read, cut as the reads will return it. -/
structure Pipe where
  incoming : List Bytes
  outgoing : Bytes
  deriving DecidableEq

namespace Pipe

/-- Reading returns the next part of the stream, or as much of it as fits. -/
def read (n : ℕ) (s : Pipe) : (Bytes × Option Error) × Pipe :=
  match s.incoming with
  | [] => (([], some .EOF), s)
  | c :: cs =>
    if c.length ≤ n then ((c, none), { s with incoming := cs })
    else ((c.take n, none), { s with incoming := c.drop n :: cs })

/-- The bytes left to read, and the parts they are cut in. -/
def left (s : Pipe) : ℕ := (s.incoming.map fun c => c.length + 1).sum

/-- The reading half of a stream. -/
def reader : Reader Pipe where
  read := read
  left := left
  length_read n s := by
    rw [read]
    split
    · exact Nat.zero_le n
    · split_ifs with hc
      · exact hc
      · exact List.length_take_le _ _
  left_read n s := by
    rw [read]
    split
    · exact le_rfl
    next c cs hs =>
      split_ifs with hc
      · simp only [left, hs, List.map_cons, List.sum_cons]
        omega
      · simp only [left, hs, List.map_cons, List.sum_cons, List.length_drop, List.length_take]
        omega
  left_lt n s hn h := by
    rw [read] at h ⊢
    split at h
    · cases h
    next c cs hs =>
      split_ifs with hc
      · simp only [left, hs, List.map_cons, List.sum_cons]
        omega
      · simp only [left, hs, List.map_cons, List.sum_cons, List.length_drop]
        omega

/-- The writing half of a stream: everything is written. -/
def writer : Writer Pipe where
  write b s := ((b.length, none), { s with outgoing := s.outgoing ++ b })

/-- A stream gives back what its parts join to. -/
theorem source : Source reader fun s c => s.incoming.flatten = c where
  data {s c n} h hn hc := by
    cases hs : s.incoming with
    | nil => exact absurd (h ▸ by rw [hs]; rfl) hc
    | cons p ps =>
      rw [hs, List.flatten_cons] at h
      simp only [reader, read, hs]
      split_ifs with hp
      · exact ⟨p, ps.flatten, _, rfl, h.symm, hp, rfl⟩
      · refine ⟨p.take n, p.drop n ++ ps.flatten, _, rfl, ?_, List.length_take_le _ _, rfl⟩
        rw [← h, ← List.append_assoc, List.take_append_drop]
  eof {s n} h hn := by
    cases hs : s.incoming with
    | nil => exact ⟨_, s, by simp only [reader, read, hs], .inr rfl, h⟩
    | cons p ps =>
      rw [hs, List.flatten_cons, List.append_eq_nil_iff] at h
      refine ⟨none, { s with incoming := ps }, ?_, .inl rfl, h.2⟩
      simp only [reader, read, hs, h.1, List.length_nil, Nat.zero_le, if_true]

end Pipe

end QuicLab.Go
