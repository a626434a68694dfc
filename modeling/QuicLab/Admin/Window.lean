import Mathlib.Algebra.Order.BigOperators.Group.List
import Mathlib.Data.UInt
import QuicLab.Admin.Store
import QuicLab.SlidingWindow

/-!
# The traffic window

The statistics shown of a user (`Store.snapshot`): the bytes of the last 600
seconds, and the rates over the last 5. The buckets of a user are a ring of
seconds (`UserTraffic.ring`), so that what is shown is what was counted in the
window, exactly (`snapshot_eq_window`), as long as the clock does not step back
by 600 seconds or more.
-/

namespace QuicLab.Admin

open Go

/-- A connection, as it is shown. -/
structure ConnectionStats where
  transport : Bytes
  source : Bytes
  connected : Time

/-- The statistics of a user, as they are shown. -/
structure UserStats where
  rateTX : UInt64
  rateRX : UInt64
  tx : UInt64
  rx : UInt64
  connections : List ConnectionStats

namespace UserStats

/-- The statistics of a user without traffic. -/
def zero : UserStats := ⟨0, 0, 0, 0, []⟩

/-- One turn of the loop of `snapshot`: a bucket is counted if its second is
    one of the last 600, and for the rates if it is one of the last 5. -/
def count (now : Time) (out : UserStats) (b : TrafficBucket) : UserStats :=
  if now.unix - 600 < b.second ∧ b.second ≤ now.unix then
    let out := { out with tx := out.tx + b.tx, rx := out.rx + b.rx }
    if now.unix - 5 < b.second then
      { out with rateTX := out.rateTX + b.tx, rateRX := out.rateRX + b.rx }
    else out
  else out

end UserStats

/-- `snapshot`; `live` are the live connections in the order the map is
    iterated, and `peer` gives the address a connection comes from now. -/
def Store.snapshot (id : Bytes) (now : Time) (live : List (Bytes × LiveConnection))
    (peer : Bytes → Bytes) (s : Store) : UserStats :=
  match s.stats.lookup id with
  | none => .zero
  | some u =>
    let out := (List.ofFn u.buckets).foldl (UserStats.count now) .zero
    let connections : List ConnectionStats :=
      live.map fun c => ⟨c.2.transport, sourceIP (peer c.1), c.2.connected⟩
    { out with
      rateTX := out.rateTX / 5
      rateRX := out.rateRX / 5
      connections := connections.mergeSort fun c c' => c.connected ≤ c'.connected }

namespace UserTraffic

/-- A call of `add`. -/
structure Call where
  now : Time
  tx : ℤ
  rx : ℤ

/-- The statistics after calls of `add`. -/
def after (calls : List Call) : UserTraffic := calls.foldl (fun u c => u.add c.now c.tx c.rx) new

/-- The bytes counted in the last `k` seconds, in one direction. -/
def counted (direction : Call → ℤ) (now : Time) (k : ℤ) (calls : List Call) : ℕ :=
  ((calls.filter fun c => now.unix - k < c.now.unix ∧ c.now.unix ≤ now.unix).map
    fun c => (direction c).toNat).sum

/-- The seconds of the calls are positive, and less than 600 behind the latest
    one before. -/
structure Steady (calls : List Call) : Prop where
  pos : ∀ c ∈ calls, 0 < c.now.unix
  recent : calls.Pairwise fun c c' => c.now.unix - 600 < c'.now.unix

/-! ## The buckets as a ring -/

/-- The buckets, as a ring with the bytes of both directions. -/
def ring (u : UserTraffic) : TimeRing 600 (UInt64 × UInt64) :=
  fun i => ⟨(u.buckets i).second, (u.buckets i).tx, (u.buckets i).rx⟩

/-- What a call adds. -/
def Call.entry (c : Call) : ℤ × UInt64 × UInt64 :=
  (c.now.unix, UInt64.ofNat c.tx.toNat, UInt64.ofNat c.rx.toNat)

theorem ofNat_toNat_of_nonpos {x : ℤ} (h : ¬ 0 < x) : UInt64.ofNat x.toNat = 0 := by
  rw [Int.toNat_eq_zero.2 (not_lt.1 h)]
  rfl

/-- The bytes of a call are added to a bucket if their numbers are positive. -/
theorem count_bytes (b : TrafficBucket) (tx rx : ℤ) :
    (let b := if 0 < tx then { b with tx := b.tx + UInt64.ofNat tx.toNat } else b
      if 0 < rx then { b with rx := b.rx + UInt64.ofNat rx.toNat } else b) =
    ⟨b.second, b.tx + UInt64.ofNat tx.toNat, b.rx + UInt64.ofNat rx.toNat⟩ := by
  by_cases htx : 0 < tx <;> by_cases hrx : 0 < rx <;>
    simp [htx, hrx, ofNat_toNat_of_nonpos]

/-- `add` is the addition of the ring. -/
theorem ring_add (u : UserTraffic) (c : Call) :
    (u.add c.now c.tx c.rx).ring = u.ring.add c.entry.1 c.entry.2 := by
  have hslot : Fin.ofNat 600 (c.now.unix % 600).toNat = TimeRing.slot c.now.unix := rfl
  funext i
  by_cases hi : i = TimeRing.slot c.now.unix
  · subst hi
    by_cases hsec : (u.buckets (TimeRing.slot c.now.unix)).second = c.now.unix
    · refine Eq.trans ?_ (TimeRing.add_same hsec _).symm
      simp only [ring, add, count_bytes, hslot, Function.update_self]
      rw [if_neg (not_not.2 hsec), hsec]
      rfl
    · refine Eq.trans ?_ (TimeRing.add_new hsec _).symm
      simp only [ring, add, count_bytes, hslot, Function.update_self]
      rw [if_pos hsec, zero_add, zero_add]
      rfl
  · refine Eq.trans ?_ (u.ring.add_of_ne hi _).symm
    simp only [ring, add, hslot, Function.update_of_ne hi]

theorem ring_after (calls : List Call) :
    (after calls).ring = TimeRing.after (calls.map Call.entry) := by
  induction calls using List.reverseRecOn with
  | nil => rfl
  | append_singleton calls c ih =>
    rw [after, List.foldl_append, List.foldl_cons, List.foldl_nil, ring_add, ← after, ih,
      TimeRing.after, TimeRing.after, List.map_append, List.foldl_append]
    rfl

theorem Steady.entries {calls : List Call} (h : Steady calls) :
    TimeRing.Steady 600 (calls.map Call.entry) where
  pos e he := by
    obtain ⟨c, hc, rfl⟩ := List.mem_map.1 he
    exact h.pos c hc
  recent := List.pairwise_map.2 h.recent

/-! ## What is shown -/

/-- The sum of 64-bit numbers is the sum of the numbers, modulo `2 ^ 64`. -/
theorem sum_ofNat (l : List ℕ) : (l.map UInt64.ofNat).sum = UInt64.ofNat l.sum := by
  induction l with
  | nil => rfl
  | cons x l ih => rw [List.map_cons, List.sum_cons, ih, List.sum_cons, UInt64.ofNat_add]

theorem sumOf_entry (calls : List Call) (now : Time) (k : ℤ) :
    TimeRing.sumOf (TimeRing.Within now.unix k) (calls.map Call.entry) =
      (UInt64.ofNat (counted Call.tx now k calls), UInt64.ofNat (counted Call.rx now k calls)) := by
  rw [counted, counted, ← sum_ofNat, ← sum_ofNat, TimeRing.sumOf, List.filter_map, List.map_map,
    List.map_map, List.map_map]
  refine Prod.ext ?_ ?_
  · refine (map_list_sum (AddMonoidHom.fst UInt64 UInt64) _).trans ?_
    rw [List.map_map]
    rfl
  · refine (map_list_sum (AddMonoidHom.snd UInt64 UInt64) _).trans ?_
    rw [List.map_map]
    rfl

end UserTraffic

namespace UserStats

open TimeRing (Within)

/-- The bytes shown of both directions. -/
def total (out : UserStats) : UInt64 × UInt64 := (out.tx, out.rx)

/-- The bytes of both directions the rates are computed from. -/
def rate (out : UserStats) : UInt64 × UInt64 := (out.rateTX, out.rateRX)

theorem count_eq (now : Time) (out : UserStats) (b : TrafficBucket) :
    (count now out b).total =
        out.total + (if Within now.unix 600 b.second then (b.tx, b.rx) else 0) ∧
      (count now out b).rate =
        out.rate + (if Within now.unix 5 b.second then (b.tx, b.rx) else 0) := by
  have hdef : Within now.unix 600 b.second ↔ now.unix - 600 < b.second ∧ b.second ≤ now.unix :=
    Iff.rfl
  by_cases h600 : Within now.unix 600 b.second
  · by_cases h5 : now.unix - 5 < b.second
    · have hrate : Within now.unix 5 b.second := ⟨h5, h600.2⟩
      rw [count, if_pos (hdef.1 h600), if_pos h5, if_pos h600, if_pos hrate]
      exact ⟨rfl, rfl⟩
    · have hrate : ¬ Within now.unix 5 b.second := fun h => h5 h.1
      rw [count, if_pos (hdef.1 h600), if_neg h5, if_pos h600, if_neg hrate, add_zero]
      exact ⟨rfl, rfl⟩
  · have hrate : ¬ Within now.unix 5 b.second := fun h => h600 ⟨by have := h.1; omega, h.2⟩
    rw [count, if_neg (mt hdef.2 h600), if_neg h600, if_neg hrate, add_zero, add_zero]
    exact ⟨rfl, rfl⟩

/-- What the loop over the buckets adds up. -/
theorem foldl_count (now : Time) (l : List TrafficBucket) (out : UserStats) :
    (l.foldl (count now) out).total = out.total +
        (l.map fun b => if Within now.unix 600 b.second then (b.tx, b.rx) else 0).sum ∧
      (l.foldl (count now) out).rate = out.rate +
        (l.map fun b => if Within now.unix 5 b.second then (b.tx, b.rx) else 0).sum := by
  induction l generalizing out with
  | nil => exact ⟨(add_zero _).symm, (add_zero _).symm⟩
  | cons b l ih =>
    obtain ⟨htotal, hrate⟩ := count_eq now out b
    rw [List.foldl_cons, (ih _).1, (ih _).2, htotal, hrate, add_assoc, add_assoc, List.map_cons,
      List.map_cons, List.sum_cons, List.sum_cons]
    exact ⟨rfl, rfl⟩

end UserStats

/-- The bytes shown of a user are the windows of the ring. -/
theorem Store.snapshot_eq_ring {s : Store} {id : Bytes} {u : UserTraffic}
    (h : s.stats.lookup id = some u) (now : Time) (live : List (Bytes × LiveConnection))
    (peer : Bytes → Bytes) :
    ((s.snapshot id now live peer).tx, (s.snapshot id now live peer).rx) =
        u.ring.window now.unix 600 ∧
      ((s.snapshot id now live peer).rateTX, (s.snapshot id now live peer).rateRX) =
        ((u.ring.window now.unix 5).1 / 5, (u.ring.window now.unix 5).2 / 5) := by
  obtain ⟨htotal, hrate⟩ := UserStats.foldl_count now (List.ofFn u.buckets) .zero
  have hwindow : ∀ k, u.ring.window now.unix k = ((List.ofFn u.buckets).map fun b =>
      if TimeRing.Within now.unix k b.second then (b.tx, b.rx) else 0).sum := fun k => by
    rw [List.map_ofFn, List.sum_ofFn]
    rfl
  have hzero : UserStats.zero.total = 0 ∧ UserStats.zero.rate = 0 := ⟨rfl, rfl⟩
  rw [hzero.1, zero_add, ← hwindow] at htotal
  rw [hzero.2, zero_add, ← hwindow] at hrate
  simp only [snapshot, h]
  generalize (List.ofFn u.buckets).foldl (UserStats.count now) .zero = out at htotal hrate ⊢
  rw [← htotal, ← hrate]
  exact ⟨rfl, rfl⟩

theorem toNat_ofNat_div {a b : ℕ} (hab : a ≤ b) (hb : b < 2 ^ 64) :
    (UInt64.ofNat a / 5).toNat = a / 5 := by
  rw [UInt64.toNat_div, UInt64.toNat_ofNat_of_lt' (hab.trans_lt hb)]
  rfl

namespace UserTraffic

/-- What was counted in fewer seconds is not more. -/
theorem counted_mono (direction : Call → ℤ) (now : Time) {k k' : ℤ} (hk : k ≤ k')
    (calls : List Call) : counted direction now k calls ≤ counted direction now k' calls := by
  refine (List.Sublist.map _ ?_).sum_le_sum fun _ _ => Nat.zero_le _
  refine List.monotone_filter_right calls fun c hc => ?_
  simp only [decide_eq_true_eq] at hc ⊢
  omega

end UserTraffic

namespace UserTraffic.Sample

/-- The time at a Unix second. -/
def time (n : ℤ) : Time := (62135596800 + n) * second

/-- Calls with a clock that steps back by 599 seconds. -/
def calls : List Call := [⟨time 1800000000, 30, 40⟩, ⟨time 1799999401, 10, -20⟩]

/-- A store with the statistics of one user. -/
def store : Store :=
  { Store.opened none ⟨none, 1, [], [], ∅⟩ 0 with
    stats := (∅ : Map Bytes UserTraffic).insert (str "u") (after calls) }

end UserTraffic.Sample

open UserTraffic in
/-- The bytes shown of a user are exactly those counted in the last 600 seconds,
    and the rates a fifth of those counted in the last 5, rounded down. -/
theorem snapshot_eq_window {calls : List Call} (h : Steady calls) {now : Time}
    (hnow : ∀ c ∈ calls, c.now.unix ≤ now.unix) {s : Store} {id : Bytes} {u : UserTraffic}
    (hs : s.stats.lookup id = some u) (hu : u.buckets = (after calls).buckets)
    (htx : counted Call.tx now 600 calls < 2 ^ 64) (hrx : counted Call.rx now 600 calls < 2 ^ 64)
    (live : List (Bytes × LiveConnection)) (peer : Bytes → Bytes) :
    (s.snapshot id now live peer).tx.toNat = counted Call.tx now 600 calls ∧
      (s.snapshot id now live peer).rx.toNat = counted Call.rx now 600 calls ∧
      (s.snapshot id now live peer).rateTX.toNat = counted Call.tx now 5 calls / 5 ∧
      (s.snapshot id now live peer).rateRX.toNat = counted Call.rx now 5 calls / 5 := by
  obtain ⟨htotal, hrate⟩ := Store.snapshot_eq_ring hs now live peer
  have hring : u.ring = TimeRing.after (calls.map Call.entry) := by
    rw [← ring_after]
    funext i
    rw [ring, ring, hu]
  have hlate : ∀ e ∈ calls.map Call.entry, e.1 ≤ now.unix := fun e he => by
    obtain ⟨c, hc, rfl⟩ := List.mem_map.1 he
    exact hnow c hc
  rw [hring, TimeRing.window_after h.entries (by decide) hlate, sumOf_entry] at htotal hrate
  obtain ⟨htotal₁, htotal₂⟩ := Prod.mk.inj htotal
  obtain ⟨hrate₁, hrate₂⟩ := Prod.mk.inj hrate
  rw [htotal₁, htotal₂, hrate₁, hrate₂]
  exact ⟨UInt64.toNat_ofNat_of_lt' htx, UInt64.toNat_ofNat_of_lt' hrx,
    toNat_ofNat_div (counted_mono Call.tx now (by decide) calls) htx,
    toNat_ofNat_div (counted_mono Call.rx now (by decide) calls) hrx⟩

open UserTraffic Sample in
theorem snapshot_eq_window_sample :
    (store.snapshot (str "u") (time 1800000000) [] id).tx.toNat = 40 ∧
      (store.snapshot (str "u") (time 1800000001) [] id).tx.toNat = 30 ∧
      (store.snapshot (str "u") (time 1800000001) [] id).rateTX.toNat = 6 := by
  have hsteady : Steady calls := ⟨by decide, by decide⟩
  have hs : store.stats.lookup (str "u") = some (after calls) := Finmap.lookup_insert _
  exact ⟨(snapshot_eq_window hsteady (by decide) hs rfl (by decide) (by decide) [] id).1,
    (snapshot_eq_window hsteady (by decide) hs rfl (by decide) (by decide) [] id).1,
    (snapshot_eq_window hsteady (by decide) hs rfl (by decide) (by decide) [] id).2.2.1⟩

end QuicLab.Admin
