import Mathlib.Tactic.Linarith
import Mathlib.Tactic.Ring

/-!
# Counting in fixed windows

A limiter lets `limit` events through per window. The first event that comes when a window
has lasted for `period` starts the next one, and the count starts anew.

A burst at the end of a window may be followed by one at the start of the next: in less
than `n` periods, `limit * (n + 1)` events may get through. No more do (`Spent.le`),
whenever the events come, and whatever is counted besides those that get through.
-/

namespace QuicLab

/-- A window: its start, and what was counted since. -/
structure FixedWindow where
  start : ℤ
  count : ℕ

namespace FixedWindow

variable (period : ℤ) (limit : ℕ)

/-- An event, which gets through or not: the window is over and a new one starts, or it goes
    on. What gets through is counted, and below the limit before. -/
def Step (now : ℤ) (through : Bool) (w w' : FixedWindow) : Prop :=
  ∃ c : FixedWindow, (c = w ∨ period ≤ now - w.start ∧ c = ⟨now, 0⟩) ∧ w'.start = c.start ∧
    c.count + through.toNat ≤ w'.count ∧ (through = true → c.count < limit)

/-- Since some time, `n` events got through: those of `r` windows at most, and those that are
    counted in the present one, which is the `r`-th to start since then. -/
def Spent (since now : ℤ) (n : ℕ) (w : FixedWindow) : Prop :=
  ∃ r : ℕ, n ≤ limit * r + min w.count limit ∧
    (r = 0 ∨ since + (r - 1) * period ≤ w.start ∧ w.start ≤ now)

variable {period limit} {since now now' : ℤ} {n : ℕ} {w w' : FixedWindow} {through : Bool}

theorem Spent.zero : Spent period limit since now 0 w := ⟨0, Nat.zero_le _, .inl rfl⟩

theorem Spent.later (h : Spent period limit since now n w) (hnow : now ≤ now') :
    Spent period limit since now' n w := by
  obtain ⟨r, hn, hr⟩ := h
  exact ⟨r, hn, hr.imp_right fun hr => ⟨hr.1, hr.2.trans hnow⟩⟩

theorem Spent.step (h : Spent period limit since now n w) (hsince : since ≤ now)
    (hs : Step period limit now through w w') :
    Spent period limit since now (n + through.toNat) w' := by
  obtain ⟨r, hn, hr⟩ := h
  obtain ⟨c, hc, hstart, hcount, hlimit⟩ := hs
  have hthrough : through.toNat ≤ min w'.count limit - min c.count limit := by
    cases through with
    | false => exact Nat.zero_le _
    | true =>
      have hlt := hlimit rfl
      rw [Bool.toNat_true] at hcount ⊢
      omega
  have hmono : min c.count limit ≤ min w'.count limit := by omega
  rcases hc with rfl | ⟨hover, rfl⟩
  · exact ⟨r, by omega, hr.imp_right fun hr => by rwa [hstart]⟩
  · -- what was spent in the window that is over is at most the limit
    refine ⟨r + 1, ?_, .inr ⟨?_, hstart.le⟩⟩
    · rw [Nat.mul_succ]
      omega
    · rw [hstart]
      push_cast
      rcases hr with rfl | ⟨hr, -⟩
      · simpa using hsince
      · linarith

/-- In less than `k` periods, the events of `k + 1` windows get through at most. -/
theorem Spent.le (h : Spent period limit since now n w) (hperiod : 0 < period) {k : ℕ}
    (hnow : now - since < k * period) : n ≤ limit * (k + 1) := by
  obtain ⟨r, hn, hr⟩ := h
  have hrk : r ≤ k := by
    rcases hr with rfl | ⟨hr, hr'⟩
    · exact Nat.zero_le k
    · have hlt : ((r : ℤ) - 1) * period < k * period := by linarith
      have := lt_of_mul_lt_mul_right hlt hperiod.le
      omega
  calc n ≤ limit * r + min w.count limit := hn
    _ ≤ limit * k + limit := Nat.add_le_add (Nat.mul_le_mul_left _ hrk) (Nat.min_le_right _ _)

end FixedWindow

end QuicLab
