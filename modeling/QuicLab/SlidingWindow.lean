import Mathlib.Algebra.BigOperators.Fin
import Mathlib.Data.Fintype.BigOperators
import Mathlib.Data.Int.ModEq

/-!
# Sliding windows in a ring

A ring of `n` slots keeps amounts by the second they were added in: a second has
the slot of its remainder modulo `n`, and a slot is cleared when another second
is written to it, not before (`TimeRing.add`). What is in the window of the last
`k` seconds is the sum of the slots whose second is in it (`TimeRing.window`).

The seconds need not come in order. A history is *steady* (`TimeRing.Steady`)
when each second is positive and less than `n` behind the latest one before.
Then the window is the sum of the amounts added in its seconds
(`TimeRing.window_after`): a slot holds all that was added in its second, the
latest one that has the slot (`TimeRing.Inv`).
-/

namespace QuicLab

/-- A slot: a second, and the sum of the amounts added in it. -/
structure Slot (M : Type*) where
  second : ℤ
  sum : M

/-- A ring of `n` slots. -/
abbrev TimeRing (n : ℕ) (M : Type*) := Fin n → Slot M

namespace TimeRing

variable {n : ℕ} [NeZero n] {M : Type*} [AddCommMonoid M]

/-- The slot of a second. -/
def slot (t : ℤ) : Fin n := Fin.ofNat n (t % n).toNat

/-- The empty ring. -/
def empty : TimeRing n M := fun _ => ⟨0, 0⟩

/-- Adds the amount `x` in the second `t`. -/
def add (r : TimeRing n M) (t : ℤ) (x : M) : TimeRing n M :=
  Function.update r (slot t) (if (r (slot t)).second = t then ⟨t, (r (slot t)).sum + x⟩ else ⟨t, x⟩)

/-- The ring after a history of amounts. -/
def after (l : List (ℤ × M)) : TimeRing n M := l.foldl (fun r e => r.add e.1 e.2) empty

/-- The second `t` is one of the last `k` seconds at `now`. -/
def Within (now k t : ℤ) : Prop := now - k < t ∧ t ≤ now

instance (now k t : ℤ) : Decidable (Within now k t) := inferInstanceAs (Decidable (_ ∧ _))

/-- The sum of the slots of the last `k` seconds. -/
def window (r : TimeRing n M) (now k : ℤ) : M :=
  ∑ i, if Within now k (r i).second then (r i).sum else 0

/-- The sum of the amounts of a history that pass a test. -/
def sumOf (p : ℤ → Prop) [DecidablePred p] (l : List (ℤ × M)) : M :=
  ((l.filter fun e => p e.1).map Prod.snd).sum

/-- The seconds of a history are positive, and less than `n` behind the latest
    one before. -/
structure Steady (n : ℕ) (l : List (ℤ × M)) : Prop where
  pos : ∀ e ∈ l, 0 < e.1
  recent : l.Pairwise fun e e' => e.1 - (n : ℤ) < e'.1

/-! ## Sums over a history -/

theorem sumOf_append (p : ℤ → Prop) [DecidablePred p] (l l' : List (ℤ × M)) :
    sumOf p (l ++ l') = sumOf p l + sumOf p l' := by
  rw [sumOf, List.filter_append, List.map_append, List.sum_append]
  rfl

theorem sumOf_singleton (p : ℤ → Prop) [DecidablePred p] (e : ℤ × M) :
    sumOf p [e] = if p e.1 then e.2 else 0 := by
  by_cases h : p e.1 <;> simp [sumOf, h]

variable {l : List (ℤ × M)}

theorem sumOf_eq_zero {p : ℤ → Prop} [DecidablePred p] (h : ∀ e ∈ l, ¬ p e.1) : sumOf p l = 0 := by
  rw [sumOf, List.filter_eq_nil_iff.2 fun e he => by simpa using h e he]
  rfl

theorem sumOf_congr {p q : ℤ → Prop} [DecidablePred p] [DecidablePred q]
    (h : ∀ e ∈ l, (p e.1 ↔ q e.1)) : sumOf p l = sumOf q l := by
  rw [sumOf, List.filter_congr fun e he => decide_eq_decide.2 (h e he)]
  rfl

/-- The amounts that pass a test, slot by slot. -/
theorem sumOf_eq_sum_slot (p : ℤ → Prop) [DecidablePred p] (l : List (ℤ × M)) :
    sumOf p l = ∑ i : Fin n, sumOf (fun t => p t ∧ slot t = i) l := by
  induction l with
  | nil => exact (Finset.sum_const_zero).symm
  | cons e l ih =>
    have hcons : ∀ (q : ℤ → Prop) [DecidablePred q], sumOf q (e :: l) =
        (if q e.1 then e.2 else 0) + sumOf q l := fun q _ => by
      rw [← List.singleton_append, sumOf_append, sumOf_singleton]
    rw [hcons, ih]
    simp only [hcons, Finset.sum_add_distrib]
    congr 1
    by_cases h : p e.1 <;> simp [h]

/-! ## The ring -/

/-- Two seconds with the same slot are equal if they are less than `n` apart. -/
theorem eq_of_slot_eq {s t : ℤ} (h : (slot s : Fin n) = slot t) (hst : s - n < t)
    (hts : t - n < s) : s = t := by
  have hn : (0 : ℤ) < n := by exact_mod_cast Nat.pos_of_ne_zero (NeZero.ne n)
  have hs := Int.emod_nonneg s hn.ne'
  have ht := Int.emod_nonneg t hn.ne'
  have hs' := Int.emod_lt_of_pos s hn
  have ht' := Int.emod_lt_of_pos t hn
  have hval := congrArg Fin.val h
  simp only [slot, Fin.val_ofNat] at hval
  rw [Nat.mod_eq_of_lt (by omega), Nat.mod_eq_of_lt (by omega)] at hval
  have hmod : s % n = t % n := by omega
  have habs : |t - s| < n := abs_lt.2 ⟨by omega, by omega⟩
  have hzero := Int.eq_zero_of_abs_lt_dvd (Int.ModEq.dvd hmod) habs
  omega

variable {t : ℤ}

theorem add_of_ne (r : TimeRing n M) {i : Fin n} (hi : i ≠ slot t) (x : M) :
    r.add t x i = r i := Function.update_of_ne hi _ _

variable {r : TimeRing n M}

theorem add_same (h : (r (slot t)).second = t) (x : M) :
    r.add t x (slot t) = ⟨t, (r (slot t)).sum + x⟩ := by
  rw [add, Function.update_self, if_pos h]

theorem add_new (h : (r (slot t)).second ≠ t) (x : M) :
    r.add t x (slot t) = ⟨t, x⟩ := by
  rw [add, Function.update_self, if_neg h]

theorem second_add (r : TimeRing n M) (t : ℤ) (x : M) : (r.add t x (slot t)).second = t := by
  by_cases h : (r (slot t)).second = t
  · rw [add_same h]
  · rw [add_new h]

/-- A slot holds what was added in its second, the latest one that has the
    slot. -/
structure Inv (l : List (ℤ × M)) (r : TimeRing n M) : Prop where
  sum : ∀ i, (r i).sum = sumOf (· = (r i).second) l
  latest : ∀ e ∈ l, e.1 ≤ (r (slot e.1)).second
  added : ∀ i, (r i).second = 0 ∨ (slot (r i).second = i ∧ ∃ e ∈ l, e.1 = (r i).second)

theorem inv_empty : Inv [] (empty : TimeRing n M) where
  sum _ := rfl
  latest e he := by cases he
  added _ := .inl rfl

/-- Adding an amount in a second that is recent enough. -/
theorem Inv.add (h : Inv l r) (x : M) (ht : 0 < t) (hl : ∀ e ∈ l, e.1 - n < t) :
    Inv (l ++ [(t, x)]) (r.add t x) := by
  -- What the slot holds is not later than the new second.
  have hle : (r (slot t)).second ≤ t := by
    rcases h.added (slot t) with h0 | ⟨hslot, e, he, hsec⟩
    · omega
    · by_contra hlt
      have hrecent := hl e he
      have heq := eq_of_slot_eq hslot (by omega) (by omega)
      omega
  -- No other slot has the second.
  have hother : ∀ i, i ≠ slot t → (r i).second ≠ t := fun i hi heq => by
    rcases h.added i with h0 | ⟨hslot, -⟩
    · omega
    · exact hi (heq ▸ hslot.symm)
  have hsecond := r.second_add t x
  refine ⟨fun i => ?_, fun e he => ?_, fun i => ?_⟩
  · rw [sumOf_append, sumOf_singleton]
    by_cases hi : i = slot t
    · subst hi
      rw [hsecond, if_pos rfl]
      by_cases heq : (r (slot t)).second = t
      · rw [add_same heq, h.sum, heq]
      · rw [add_new heq, sumOf_eq_zero fun e he hsec => ?_, zero_add]
        have hlate := h.latest e he
        rw [hsec] at hlate
        omega
    · rw [r.add_of_ne hi, if_neg (hother i hi).symm, add_zero, h.sum]
  · rcases List.mem_append.1 he with he | he
    · by_cases hi : slot e.1 = (slot t : Fin n)
      · rw [hi, hsecond]
        have hlate := h.latest e he
        rw [hi] at hlate
        omega
      · rw [r.add_of_ne hi]
        exact h.latest e he
    · cases List.mem_singleton.1 he
      exact hsecond.ge
  · by_cases hi : i = slot t
    · subst hi
      rw [hsecond]
      exact .inr ⟨rfl, (t, x), by simp, rfl⟩
    · rw [r.add_of_ne hi]
      refine (h.added i).imp_right fun ⟨hslot, e, he, hsec⟩ => ⟨hslot, e, ?_, hsec⟩
      exact List.mem_append_left _ he

theorem inv_after (h : Steady n l) : Inv l (after l : TimeRing n M) := by
  induction l using List.reverseRecOn with
  | nil => exact inv_empty
  | append_singleton l e ih =>
    have hsteady : Steady n l := ⟨fun e he => h.pos e (List.mem_append_left _ he),
      (List.pairwise_append.1 h.recent).1⟩
    rw [after, List.foldl_append]
    exact (ih hsteady).add e.2 (h.pos e (by simp)) fun e' he' =>
      (List.pairwise_append.1 h.recent).2.2 e' he' e (List.mem_singleton.2 rfl)

/-- The window of a slot holds what was added in it during the last `k`
    seconds. -/
theorem Inv.slot_window (h : Inv l r) (hpos : ∀ e ∈ l, 0 < e.1) {now k : ℤ} (hk : k ≤ n)
    (hnow : ∀ e ∈ l, e.1 ≤ now) (i : Fin n) :
    (if Within now k (r i).second then (r i).sum else 0) =
      sumOf (fun t => Within now k t ∧ slot t = i) l := by
  -- A second of the window that has the slot is the one the slot holds.
  have hsame : ∀ e ∈ l, Within now k e.1 → slot e.1 = i → e.1 = (r i).second := by
    intro e he hwithin hi
    have hlate := h.latest e he
    rw [hi] at hlate
    have hepos := hpos e he
    rcases h.added i with h0 | ⟨hslot, e', he', hsec⟩
    · omega
    · have hle := hnow e' he'
      rw [Within] at hwithin
      exact eq_of_slot_eq (hi.trans hslot.symm) (by omega) (by omega)
  split_ifs with hwithin
  · rw [h.sum]
    refine sumOf_congr fun e he => ⟨fun hsec => ?_, fun hw => hsame e he hw.1 hw.2⟩
    rcases h.added i with h0 | ⟨hslot, -⟩
    · have hepos := hpos e he
      omega
    · rw [hsec]
      exact ⟨hwithin, hslot⟩
  · refine (sumOf_eq_zero fun e he hw => hwithin ?_).symm
    rw [← hsame e he hw.1 hw.2]
    exact hw.1

/-- After a steady history, the window of the last `k` seconds is the sum of
    what was added in them. -/
theorem window_after (h : Steady n l) {now k : ℤ} (hk : k ≤ n) (hnow : ∀ e ∈ l, e.1 ≤ now) :
    (after l : TimeRing n M).window now k = sumOf (Within now k) l := by
  rw [sumOf_eq_sum_slot (n := n)]
  exact Finset.sum_congr rfl fun i _ => (inv_after h).slot_window h.pos hk hnow i

end TimeRing

end QuicLab
