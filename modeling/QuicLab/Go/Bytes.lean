import Mathlib.Data.List.Induction
import Mathlib.Data.List.TakeWhile
import Mathlib.Tactic.Ring

/-!
# Byte strings

Go strings and byte slices are both lists of bytes: a Go string need not be
valid UTF-8, and `len` counts bytes. A literal of the source is written with
`str`, its UTF-8 encoding.

`putUint` and `uint` are `encoding/binary`'s big-endian `PutUintN` and `UintN`,
for any width; `ByteOrder.put` and `ByteOrder.read` those of either byte order.
-/

namespace QuicLab.Go

/-- A Go string or byte slice. -/
abbrev Bytes := List UInt8

instance : LawfulBEq Bytes := inferInstance

/-- What is said of every byte of a string is decided along the string. -/
instance (priority := 2000) decidableForallMem (p : UInt8 → Prop) [DecidablePred p] (s : Bytes) :
    Decidable (∀ c ∈ s, p c) :=
  List.decidableBAll p s

/-- What is said of some byte of a string is decided along the string. -/
instance (priority := 2000) decidableExistsMem (p : UInt8 → Prop) [DecidablePred p] (s : Bytes) :
    Decidable (∃ c ∈ s, p c) :=
  List.decidableBEx p s

/-- A string literal of the source. -/
def str (s : String) : Bytes := s.toList.flatMap String.utf8EncodeChar

/-! ## Big-endian integers -/

/-- `n` written big-endian on `w` bytes (its low `8 * w` bits). -/
def putUint : ℕ → ℕ → Bytes
  | 0, _ => []
  | w + 1, n => UInt8.ofNat (n / 256 ^ w) :: putUint w n

/-- The big-endian integer written on all the bytes given. -/
def uint (b : Bytes) : ℕ := b.foldl (fun n c => n * 256 + c.toNat) 0

/-- The last byte is the lowest one. -/
theorem putUint_succ (w n : ℕ) :
    putUint (w + 1) n = putUint w (n / 256) ++ [UInt8.ofNat (n % 256)] := by
  induction w with
  | zero => simp [putUint, ← UInt8.toNat_inj]
  | succ w ih =>
    rw [putUint, ih, putUint, Nat.div_div_eq_div_mul, Nat.pow_succ', List.cons_append]

@[simp]
theorem length_putUint (w n : ℕ) : (putUint w n).length = w := by
  induction w with
  | zero => rfl
  | succ w ih => rw [putUint, List.length_cons, ih]

theorem foldl_putUint (w n acc : ℕ) :
    (putUint w n).foldl (fun n c => n * 256 + c.toNat) acc = acc * 256 ^ w + n % 256 ^ w := by
  induction w generalizing acc with
  | zero => simp [putUint, Nat.mod_one]
  | succ w ih =>
    rw [putUint, List.foldl_cons, ih, UInt8.toNat_ofNat']
    -- The leading digit and the rest are the quotient and remainder by `256 ^ w`.
    have hmod : n % 256 ^ (w + 1) = 256 ^ w * (n / 256 ^ w % 256) + n % 256 ^ w := by
      rw [pow_succ, Nat.mod_mul, Nat.add_comm]
    rw [hmod, show 2 ^ 8 = 256 from rfl]
    ring

@[simp]
theorem uint_putUint (w n : ℕ) : uint (putUint w n) = n % 256 ^ w := by
  rw [uint, foldl_putUint, Nat.zero_mul, Nat.zero_add]

/-- A value that fits is read back as it was written. -/
theorem uint_putUint_of_lt {w n : ℕ} (h : n < 256 ^ w) : uint (putUint w n) = n := by
  rw [uint_putUint, Nat.mod_eq_of_lt h]

/-- Reading and writing back as many bytes gives them again. -/
theorem putUint_uint (b : Bytes) : putUint b.length (uint b) = b := by
  induction b using List.reverseRecOn with
  | nil => rfl
  | append_singleton b c ih =>
    have hc := c.toNat_lt
    have hu : uint (b ++ [c]) = uint b * 256 + c.toNat := by simp [uint]
    rw [hu, List.length_append, List.length_singleton, putUint_succ, Nat.mul_comm,
      Nat.mul_add_div (by decide), Nat.div_eq_of_lt hc, Nat.add_zero, ih, Nat.mul_add_mod]
    congr 1
    rw [Nat.mod_eq_of_lt hc, UInt8.ofNat_toNat]

theorem uint_lt (b : Bytes) : uint b < 256 ^ b.length := by
  have h := uint_putUint b.length (uint b)
  rw [putUint_uint] at h
  rw [h]
  exact Nat.mod_lt _ (Nat.pow_pos (by decide))

/-! ## Byte orders -/

/-- A `binary.ByteOrder`. -/
inductive ByteOrder
  | little
  | big
  deriving DecidableEq

namespace ByteOrder

/-- `PutUintN` of `w` bytes. -/
def put : ByteOrder → ℕ → ℕ → Bytes
  | little, w, n => (putUint w n).reverse
  | big, w, n => putUint w n

/-- `UintN` of all the bytes given. -/
def read : ByteOrder → Bytes → ℕ
  | little, b => uint b.reverse
  | big, b => uint b

/-- `UintN` of the `w` bytes from the position `i` on. -/
def field (o : ByteOrder) (i w : ℕ) (b : Bytes) : ℕ := o.read ((b.drop i).take w)

variable (o : ByteOrder)

@[simp]
theorem length_put (w n : ℕ) : (o.put w n).length = w := by
  cases o with
  | little => rw [put, List.length_reverse, length_putUint]
  | big => exact length_putUint w n

@[simp]
theorem read_put (w n : ℕ) : o.read (o.put w n) = n % 256 ^ w := by
  cases o with
  | little => rw [put, read, List.reverse_reverse, uint_putUint]
  | big => exact uint_putUint w n

theorem put_read {w : ℕ} {b : Bytes} (h : b.length = w) : o.put w (o.read b) = b := by
  subst h
  cases o with
  | little => rw [put, read, ← List.length_reverse, putUint_uint, List.reverse_reverse]
  | big => exact putUint_uint b

theorem read_lt {w : ℕ} {b : Bytes} (h : b.length = w) : o.read b < 256 ^ w := by
  subst h
  cases o with
  | little =>
    rw [← List.length_reverse]
    exact uint_lt b.reverse
  | big => exact uint_lt b

/-- The field that stands after `a`. -/
theorem field_append {a c : Bytes} {w n i : ℕ} (hi : a.length = i) :
    o.field i w (a ++ (o.put w n ++ c)) = n % 256 ^ w := by
  rw [field, List.drop_left' hi, List.take_left' (o.length_put w n), read_put]

/-- A field that stands further on. -/
theorem field_skip {a c : Bytes} {w i : ℕ} (hi : a.length ≤ i) :
    o.field i w (a ++ c) = o.field (i - a.length) w c := by
  rw [field, field, List.drop_append, List.drop_of_length_le hi, List.nil_append]

/-- The first field. -/
theorem field_zero_append {c : Bytes} {w n : ℕ} :
    o.field 0 w (o.put w n ++ c) = n % 256 ^ w := o.field_append (a := []) rfl

theorem field_cons {x : UInt8} {c : Bytes} {w i : ℕ} (hi : 0 < i) :
    o.field i w (x :: c) = o.field (i - 1) w c := o.field_skip (a := [x]) hi

theorem big_field_putUint {c : Bytes} {w n : ℕ} : big.field 0 w (putUint w n ++ c) = n % 256 ^ w :=
  big.field_zero_append

/-- A field and what follows it. -/
theorem drop_eq_put_append {i w : ℕ} {b : Bytes} (h : i + w ≤ b.length) :
    b.drop i = o.put w (o.field i w b) ++ b.drop (i + w) := by
  have hw : ((b.drop i).take w).length = w := by
    rw [List.length_take_of_le]
    rw [List.length_drop]
    omega
  rw [field, o.put_read hw, ← List.drop_drop, List.take_append_drop]

theorem field_lt {i w : ℕ} {b : Bytes} (h : i + w ≤ b.length) : o.field i w b < 256 ^ w := by
  refine o.read_lt (List.length_take_of_le ?_)
  rw [List.length_drop]
  omega

end ByteOrder

/-! ## Pieces -/

/-- Cutting a list into pieces of `c` and joining the first `n` of them gives
    its first `n * c` elements. -/
theorem flatMap_range_drop_take {α : Type*} (b : List α) (c n : ℕ) :
    (List.range n).flatMap (fun i => (b.drop (i * c)).take c) = b.take (n * c) := by
  induction n with
  | zero => simp
  | succ n ih =>
    rw [List.range_succ, List.flatMap_append, ih, Nat.succ_mul, List.take_add]
    simp

section

variable {α : Type*} [DecidableEq α] {c : α}

theorem splitOn_append_cons (a b : List α) (c : α) :
    (a ++ c :: b).splitOn c = a.splitOn c ++ b.splitOn c :=
  List.splitOnP_append_cons a b (beq_self_eq_true c)

theorem splitOn_of_notMem {s : List α} (h : c ∉ s) : s.splitOn c = [s] :=
  List.splitOnP_eq_singleton fun _ hx => beq_eq_false_iff_ne.2 fun heq => h (heq ▸ hx)

theorem takeWhile_ne_append {a : List α} (h : c ∉ a) (b : List α) :
    (a ++ c :: b).takeWhile (· ≠ c) = a := by
  have ha : ∀ x ∈ a, decide (x ≠ c) = true := fun x hx => decide_eq_true fun heq => h (heq ▸ hx)
  rw [List.takeWhile_append_of_pos ha, List.takeWhile_cons_of_neg (by simp), List.append_nil]

/-- The first piece is what stands before the first separator. -/
theorem splitOn_head (s : List α) (c : α) : ∃ l, s.splitOn c = s.takeWhile (· ≠ c) :: l := by
  by_cases hmem : c ∈ s
  · obtain ⟨a, b, rfl, ha⟩ := List.eq_append_cons_of_mem hmem
    rw [splitOn_append_cons, takeWhile_ne_append ha, splitOn_of_notMem ha]
    exact ⟨_, rfl⟩
  · have hs : s.takeWhile (· ≠ c) = s :=
      List.takeWhile_eq_self_iff.2 fun x hx => decide_eq_true fun heq => hmem (heq ▸ hx)
    exact ⟨[], by rw [hs, splitOn_of_notMem hmem]⟩

end

end QuicLab.Go
