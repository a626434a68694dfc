import QuicLab.EchoAwg.Server
import QuicLab.FixedWindow

/-!
# Admissions to the public AWG echo

Besides the 64 leases there may be at a time, the echo limits how many it gives out: 32 per
minute are admitted, whether they are provided with a lease or not. Requests that are refused
are not counted.
-/

namespace QuicLab.EchoAwg

open Go AwgServer

variable {D : Type*} (dev : Device D)

/-- A request got a lease. -/
def Response.isEnrolled : Response → Bool
  | .enrolled _ => true
  | _ => false

/-- What the requests among the events are answered. -/
def Server.responses : Server D → List Event → List Response
  | _, [] => []
  | s, .request r :: as => (s.serveHTTP dev r).1 :: responses (s.serveHTTP dev r).2 as
  | s, .tick now order :: as => responses (s.prune dev now order) as

/-- The window of the admissions. -/
def Server.admissionWindow (s : Server D) : FixedWindow := ⟨s.window, s.admissions⟩

theorem prune_window (now : Time) (order : List (ℕ × Lease)) (s : Server D) :
    (s.prune dev now order).admissionWindow = s.admissionWindow := by
  induction order generalizing s with
  | nil => rfl
  | cons e order ih =>
    obtain ⟨id, l⟩ := e
    rw [Server.prune]
    split_ifs
    · split <;> rw [ih] <;> rfl
    · exact ih s

theorem provision_window (r : Request) (id : ℕ) (s : Server D) :
    (s.provision dev r id).2.admissionWindow = s.admissionWindow := by
  rw [Server.provision]
  split
  · rfl
  · dsimp only
    split <;> rfl

/-- A request is a step of the limiter. -/
theorem serveHTTP_step (r : Request) (s : Server D) :
    FixedWindow.Step (60 * second) 32 r.now (s.serveHTTP dev r).1.isEnrolled s.admissionWindow
      (s.serveHTTP dev r).2.admissionWindow := by
  have hsame : FixedWindow.Step (60 * second) 32 r.now false s.admissionWindow s.admissionWindow :=
    ⟨_, .inl rfl, rfl, le_rfl, fun h => by cases h⟩
  rw [Server.serveHTTP]
  split_ifs
  · exact hsame
  · exact hsame
  have hrefresh : (s.refresh dev r).admissionWindow = s.admissionWindow ∨
      60 * second ≤ r.now - s.admissionWindow.start ∧
        (s.refresh dev r).admissionWindow = ⟨r.now, 0⟩ := by
    have hprune := prune_window dev r.now r.order s
    rw [Server.refresh]
    split_ifs with hover
    · exact .inr ⟨hprune ▸ hover, rfl⟩
    · exact .inl hprune
  refine ⟨_, hrefresh, ?_⟩
  rw [Server.admission]
  split_ifs with hbusy
  · exact ⟨rfl, le_rfl, fun h => by cases h⟩
  · have hlt : (s.refresh dev r).admissions < 32 := not_le.1 (not_or.1 hbusy).1
    rw [provision_window]
    exact ⟨rfl, Nat.add_le_add_left (Bool.toNat_le _) _, fun _ => hlt⟩

theorem spent_of_responses {since now : ℤ} {s : Server D} {n : ℕ} {as : List Event}
    (h : FixedWindow.Spent (60 * second) 32 since now n s.admissionWindow) (hsince : since ≤ now)
    (hsorted : (now :: as.map Event.now).Pairwise (· ≤ ·)) :
    ∃ w, FixedWindow.Spent (60 * second) 32 since ((as.map Event.now).getLastD now)
      (n + (s.responses dev as).countP Response.isEnrolled) w := by
  induction as generalizing s n now with
  | nil => exact ⟨_, h⟩
  | cons a as ih =>
    obtain ⟨hle, hrest⟩ := List.pairwise_cons.1 hsorted
    have hnow : now ≤ a.now := hle _ List.mem_cons_self
    rw [List.map_cons, List.getLastD_cons]
    cases a with
    | tick t order =>
      exact ih (prune_window dev t order s ▸ h.later hnow) (hsince.trans hnow) hrest
    | request r =>
      obtain ⟨w, hw⟩ := ih ((h.later hnow).step (hsince.trans hnow) (serveHTTP_step dev r s))
        (hsince.trans hnow) hrest
      refine ⟨w, ?_⟩
      have hcount : n + (s.serveHTTP dev r).1.isEnrolled.toNat +
          ((s.serveHTTP dev r).2.responses dev as).countP Response.isEnrolled =
          n + (s.responses dev (.request r :: as)).countP Response.isEnrolled := by
        rw [Server.responses, List.countP_cons]
        cases (s.serveHTTP dev r).1.isEnrolled <;> simp [Nat.add_assoc, Nat.add_comm]
      rwa [← hcount]

variable {dev}

/-- From any state on, at most `32 * (n + 1)` leases are given out in less than `n` minutes,
    whatever is requested, and whatever the device does. -/
theorem enrollments_limited (s : Server D) {as : List Event} {since : Time} {n : ℕ}
    (hsorted : (since :: as.map Event.now).Pairwise (· ≤ ·))
    (htime : ∀ a ∈ as, a.now - since < n * (60 * second)) :
    (s.responses dev as).countP Response.isEnrolled ≤ 32 * (n + 1) := by
  obtain ⟨w, hw⟩ := spent_of_responses dev (s := s) .zero le_rfl hsorted
  rcases List.eq_nil_or_concat as with rfl | ⟨as', a, rfl⟩
  · exact Nat.zero_le _
  · have hlast := htime a (by simp)
    rw [List.concat_eq_append] at hw ⊢
    rw [List.map_append, List.map_singleton, List.getLastD_concat, Nat.zero_add] at hw
    exact hw.le (by decide) hlast

theorem enrollments_limited_sample :
    (Sample.initial.responses Sample.device [.request Sample.request]).countP
      Response.isEnrolled = 1 ∧
    (Sample.initial.responses Sample.device [.request Sample.request]).countP
      Response.isEnrolled ≤ 32 * (1 + 1) :=
  ⟨rfl, enrollments_limited Sample.initial (List.pairwise_pair.2 (le_refl (1 : ℤ)))
    (List.forall_mem_singleton.2 (by decide))⟩

end QuicLab.EchoAwg
