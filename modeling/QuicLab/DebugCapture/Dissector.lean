import QuicLab.Binary64
import QuicLab.Go.Strconv

/-!
# Numbers of the dissector

The dissector for captures reads the numbers of JSON messages as texts. Lua has no integers of
64 bits, so that `u64` keeps the number read so far in two limbs of 32 bits, and
computes with binary64 numbers.

* `iteration_spec`: a round of its loop computes with natural numbers below `2 ^ 53`, and so
  without rounding;
* `limbs_foldl`: the limbs are those of the number modulo `2 ^ 64`, by induction over the digits.
-/

namespace QuicLab.Dissector

open Go

/-- `4294967296`. -/
def limb : ℚ := 2 ^ 32

/-- `tonumber(d)`, of a digit. -/
def tonumber (d : UInt8) : ℚ := ((d.toNat - 48 : ℕ) : ℚ)

section Lua

variable (r : Rounding)

/-- The values of `a % b`, that is, of `a - math.floor(a / b) * b`. -/
structure Mod where
  quotient : ℚ
  whole : ℚ
  product : ℚ
  rest : ℚ

def mod (a b : ℚ) : Mod :=
  let quotient := r.div a b
  let whole : ℚ := ⌊quotient⌋
  let product := r.mul whole b
  ⟨quotient, whole, product, r.sub a product⟩

/-- The values of a round of the loop of `u64`. -/
structure Iteration where
  loTen : ℚ
  n : ℚ
  quotient : ℚ
  carry : ℚ
  hiTen : ℚ
  sum : ℚ
  hi : Mod
  lo : Mod

/-- The round for the digit `d`. -/
def iteration (lo hi : ℚ) (d : UInt8) : Iteration :=
  let loTen := r.mul lo 10
  let n := r.add loTen (tonumber d)
  let quotient := r.div n limb
  let carry : ℚ := ⌊quotient⌋
  let hiTen := r.mul hi 10
  let sum := r.add hiTen carry
  ⟨loTen, n, quotient, carry, hiTen, sum, mod r sum limb, mod r n limb⟩

/-- The limbs, low and high, after a round. -/
def step (limbs : ℚ × ℚ) (d : UInt8) : ℚ × ℚ :=
  let i := iteration r limbs.1 limbs.2 d
  (i.lo.rest, i.hi.rest)

/-- `u64`: the limbs given to `UInt64.new`. -/
def u64 (s : Bytes) : ℚ × ℚ := (s.filter isDigit).foldl (step r) (0, 0)

def Mod.values (m : Mod) : List ℚ := [m.quotient, m.whole, m.product, m.rest]

def Iteration.values (i : Iteration) : List ℚ :=
  [i.loTen, i.n, i.quotient, i.carry, i.hiTen, i.sum] ++ i.hi.values ++ i.lo.values

/-- All that the loop computes for the digits given. -/
def loopValues : ℚ × ℚ → List UInt8 → List ℚ
  | _, [] => []
  | limbs, d :: ds =>
    (iteration r limbs.1 limbs.2 d).values ++ loopValues (step r limbs d) ds

/-- All that `u64` computes. -/
def values (s : Bytes) : List ℚ := loopValues r (0, 0) (s.filter isDigit)

end Lua

/-- A round on natural numbers, without rounding. -/
def exactStep (limbs : ℕ × ℕ) (d : UInt8) : ℕ × ℕ :=
  let n := limbs.1 * 10 + (d.toNat - 48)
  (n % 2 ^ 32, (limbs.2 * 10 + n / 2 ^ 32) % 2 ^ 32)

/-- Limbs that are natural numbers. -/
def toRat (limbs : ℕ × ℕ) : ℚ × ℚ := ((limbs.1 : ℚ), (limbs.2 : ℚ))

/-- The value of a text of digits. -/
def decimalValue (s : Bytes) : ℕ := s.foldl (fun n c => n * 10 + (c.toNat - 48)) 0

/-! ## Exactness -/

/-- A value that is far from the limit of exact integers. -/
def Small (x : ℚ) : Prop := 0 ≤ x ∧ x < 2 ^ 53

theorem small_natCast {n : ℕ} (h : n < 2 ^ 53) : Small (n : ℚ) :=
  ⟨Nat.cast_nonneg n, by exact_mod_cast h⟩

section Exact

variable {r : Rounding}

theorem small_div {n : ℕ} (h : n < 2 ^ 53) : Small (r.div n limb) := by
  rw [limb, r.div_two_pow h (by decide)]
  refine ⟨by positivity, ?_⟩
  have hn : (n : ℚ) < 2 ^ 53 := by exact_mod_cast h
  exact (div_le_self (Nat.cast_nonneg n) (by norm_num)).trans_lt hn

theorem floor_div_limb {n : ℕ} (h : n < 2 ^ 53) :
    (⌊r.div n limb⌋ : ℚ) = ((n / 2 ^ 32 : ℕ) : ℚ) := r.floor_div_two_pow h (by decide)

theorem mul_ten {n : ℕ} (h : n * 10 < 2 ^ 53) : r.mul n 10 = ((n * 10 : ℕ) : ℚ) := by
  have hmul := r.mul_natCast (n := 10) h
  rwa [Nat.cast_ofNat] at hmul

/-- The rest of a division by `2 ^ 32`. -/
theorem mod_spec {n : ℕ} (h : n < 2 ^ 53) :
    (mod r n limb).rest = ((n % 2 ^ 32 : ℕ) : ℚ) ∧ ∀ x ∈ (mod r n limb).values, Small x := by
  have hproduct : r.mul ((n / 2 ^ 32 : ℕ) : ℚ) limb = ((n / 2 ^ 32 * 2 ^ 32 : ℕ) : ℚ) := by
    have hmul := r.mul_natCast (m := n / 2 ^ 32) (n := 2 ^ 32) (by omega)
    rwa [Nat.cast_pow, Nat.cast_ofNat] at hmul
  have hrest : r.sub n ((n / 2 ^ 32 * 2 ^ 32 : ℕ) : ℚ) = ((n % 2 ^ 32 : ℕ) : ℚ) := by
    rw [r.sub_natCast (by omega) h]
    congr 1
    omega
  have hmod : mod r n limb = ⟨r.div n limb, ((n / 2 ^ 32 : ℕ) : ℚ),
      ((n / 2 ^ 32 * 2 ^ 32 : ℕ) : ℚ), ((n % 2 ^ 32 : ℕ) : ℚ)⟩ := by
    rw [mod, floor_div_limb h, hproduct, hrest]
  rw [hmod]
  refine ⟨rfl, ?_⟩
  simp only [Mod.values, List.forall_mem_cons]
  exact ⟨small_div h, small_natCast (by omega), small_natCast (by omega), small_natCast (by omega),
    List.forall_mem_nil _⟩

/-- A round of the loop computes what is computed without rounding. -/
theorem iteration_spec {limbs : ℕ × ℕ} (hlo : limbs.1 < 2 ^ 32) (hhi : limbs.2 < 2 ^ 32)
    {d : UInt8} (hd : isDigit d = true) :
    step r (toRat limbs) d = toRat (exactStep limbs d) ∧
      ∀ x ∈ (iteration r limbs.1 limbs.2 d).values, Small x := by
  obtain ⟨lo, hi⟩ := limbs
  have hdigit : d.toNat - 48 ≤ 9 := by
    rw [isDigit_iff] at hd
    omega
  have hloTen : r.mul lo 10 = ((lo * 10 : ℕ) : ℚ) := mul_ten (by omega)
  have hn : r.add ((lo * 10 : ℕ) : ℚ) (tonumber d) = ((lo * 10 + (d.toNat - 48) : ℕ) : ℚ) :=
    r.add_natCast (by omega)
  have hhiTen : r.mul hi 10 = ((hi * 10 : ℕ) : ℚ) := mul_ten (by omega)
  generalize hnext : lo * 10 + (d.toNat - 48) = n at hn
  have hlt : n < 2 ^ 53 := by omega
  have hsum : r.add ((hi * 10 : ℕ) : ℚ) ((n / 2 ^ 32 : ℕ) : ℚ) =
      ((hi * 10 + n / 2 ^ 32 : ℕ) : ℚ) := r.add_natCast (by omega)
  have hround : iteration r lo hi d = ⟨((lo * 10 : ℕ) : ℚ), (n : ℚ), r.div n limb,
      ((n / 2 ^ 32 : ℕ) : ℚ), ((hi * 10 : ℕ) : ℚ), ((hi * 10 + n / 2 ^ 32 : ℕ) : ℚ),
      mod r ((hi * 10 + n / 2 ^ 32 : ℕ) : ℚ) limb, mod r n limb⟩ := by
    simp only [iteration, hloTen, hn, floor_div_limb hlt, hhiTen, hsum]
  obtain ⟨hmodHi, hsmallHi⟩ := mod_spec (r := r) (n := hi * 10 + n / 2 ^ 32) (by omega)
  obtain ⟨hmodLo, hsmallLo⟩ := mod_spec (r := r) hlt
  constructor
  · simp only [step, toRat, exactStep, hround, hmodHi, hmodLo, hnext]
  · rw [hround]
    simp only [Iteration.values, List.forall_mem_append, List.forall_mem_cons]
    exact ⟨⟨⟨small_natCast (by omega), small_natCast hlt, small_div hlt, small_natCast (by omega),
      small_natCast (by omega), small_natCast (by omega), List.forall_mem_nil _⟩, hsmallHi⟩,
      hsmallLo⟩

/-- The limbs of a number. -/
structure Limbs (limbs : ℕ × ℕ) (v : ℕ) : Prop where
  lo : limbs.1 < 2 ^ 32
  hi : limbs.2 < 2 ^ 32
  value : limbs.1 + limbs.2 * 2 ^ 32 = v % 2 ^ 64

theorem Limbs.step {limbs : ℕ × ℕ} {v : ℕ} (h : Limbs limbs v) (d : UInt8) :
    Limbs (exactStep limbs d) (v * 10 + (d.toNat - 48)) := by
  obtain ⟨lo, hi⟩ := limbs
  have hvalue := h.value
  refine ⟨Nat.mod_lt _ (by decide), Nat.mod_lt _ (by decide), ?_⟩
  simp only [exactStep] at hvalue ⊢
  generalize d.toNat - 48 = e
  omega

/-- The loop keeps the limbs of the number read so far, and computes with small values. -/
theorem limbs_foldl {ds : List UInt8} (hds : ∀ d ∈ ds, isDigit d = true) {limbs : ℕ × ℕ} {v : ℕ}
    (h : Limbs limbs v) : ∃ limbs' : ℕ × ℕ,
      ds.foldl (Dissector.step r) (toRat limbs) = toRat limbs' ∧
      Limbs limbs' (ds.foldl (fun n c => n * 10 + (c.toNat - 48)) v) ∧
      ∀ x ∈ loopValues r (toRat limbs) ds, Small x := by
  induction ds generalizing limbs v with
  | nil => exact ⟨limbs, rfl, h, List.forall_mem_nil _⟩
  | cons d ds ih =>
    rw [List.forall_mem_cons] at hds
    obtain ⟨hstep, hsmall⟩ := iteration_spec (r := r) h.lo h.hi hds.1
    obtain ⟨limbs', hfold, hlimbs, hvalues⟩ := ih hds.2 (h.step d)
    refine ⟨limbs', ?_, hlimbs, ?_⟩
    · rw [List.foldl_cons, hstep, hfold]
    · rw [loopValues, hstep]
      exact List.forall_mem_append.2 ⟨hsmall, hvalues⟩

end Exact

/-- `u64` gives the limbs of the number that the digits write, modulo `2 ^ 64`; those of the number
    itself if it fits. All that it computes is below `2 ^ 53`. -/
theorem u64_exact (r : Rounding) (s : Bytes) (hs : ∀ c ∈ s, isDigit c = true) :
    (∃ lo hi : ℕ, u64 r s = ((lo : ℚ), (hi : ℚ)) ∧ lo < 2 ^ 32 ∧ hi < 2 ^ 32 ∧
      lo + hi * 2 ^ 32 = decimalValue s % 2 ^ 64 ∧
      (decimalValue s < 2 ^ 64 → lo + hi * 2 ^ 32 = decimalValue s)) ∧
    ∀ x ∈ values r s, 0 ≤ x ∧ x < 2 ^ 53 := by
  have hzero : Limbs (0, 0) 0 := ⟨by decide, by decide, by decide⟩
  have hfilter : s.filter isDigit = s := List.filter_eq_self.2 hs
  obtain ⟨limbs, hfold, hlimbs, hvalues⟩ := limbs_foldl (r := r) hs hzero
  have hstart : toRat (0, 0) = (0, 0) := Prod.ext Nat.cast_zero Nat.cast_zero
  rw [hstart] at hfold hvalues
  rw [values, hfilter]
  simp only [u64, hfilter]
  refine ⟨⟨limbs.1, limbs.2, hfold, hlimbs.lo, hlimbs.hi, hlimbs.value, fun hlt => ?_⟩, hvalues⟩
  exact hlimbs.value.trans (Nat.mod_eq_of_lt hlt)

/-- Rounding that is not needed. -/
def Sample.exact : Rounding := ⟨id, fun _ _ => rfl⟩

theorem u64_exact_largest : ∃ lo hi : ℕ,
    u64 Sample.exact (str "18446744073709551615") = ((lo : ℚ), (hi : ℚ)) ∧
      lo + hi * 2 ^ 32 = 18446744073709551615 := by
  obtain ⟨lo, hi, hu64, _, _, _, hvalue⟩ :=
    (u64_exact Sample.exact (str "18446744073709551615") (by decide)).1
  exact ⟨lo, hi, hu64, hvalue (by decide)⟩

end QuicLab.Dissector
