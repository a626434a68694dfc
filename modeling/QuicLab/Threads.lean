import QuicLab.System
import Mathlib.Data.Nat.Notation
import Mathlib.Logic.Function.Basic

/-!
# Threads over a shared state

A server handles any number of requests at once: each is a thread that runs a
program of *atomic operations* on the shared state, and the operations of all
the threads interleave.

* `Prog`: a program, the operations it takes and what it does with their results;
* `Machine`: the shared state, what an operation does to it, the programs of the
  requests, and what the environment may do in between;
* `Machine.system`: the transition system of the shared state and the threads.

What holds under every interleaving is proved by an `Outline`. It keeps, for
each thread, a *stage* that says how far the thread has come, an assertion for
each stage, and an invariant of the shared state. `Prog.Follows` checks each
program once against the stages; after that, the program counters play no role:
what is left to prove is that an operation allowed at a stage establishes the
assertion of the next stage and keeps the invariant, and that it does not
disturb the assertions of the other threads (`Outline.Valid`). Then the
invariant and all the assertions hold after every run (`Outline.Valid.run`).

Invariants and assertions may speak of the history, the labels of the steps
taken so far.
-/

namespace QuicLab

/-! ### Programs -/

/-- A program of the operations `E`: it has returned, or it takes an operation
    `e` and goes on with its result, of type `R e`. -/
inductive Prog (E : Type) (R : E → Type) (α : Type) : Type
  | ret (a : α)
  | op (e : E) (k : R e → Prog E R α)

namespace Prog

variable {E : Type} {R : E → Type} {α β : Type}

/-- One program after the other. -/
def bind : Prog E R α → (α → Prog E R β) → Prog E R β
  | .ret a, f => f a
  | .op e k, f => .op e fun r => (k r).bind f

instance : Monad (Prog E R) where
  pure := .ret
  bind := .bind

/-- The program of one operation. -/
def call (e : E) : Prog E R (R e) := .op e .ret

end Prog

/-! ### Stages -/

/-- The stages of a thread: which operations it may take at a stage, and to
    which stage the result leads. -/
structure Stages (E : Type) (R : E → Type) (L : Type) where
  allowed : L → E → Prop
  next : L → (e : E) → R e → L

namespace Prog

variable {E : Type} {R : E → Type} {α β L : Type} (d : Stages E R L)

/-- Started at a stage, the program takes only operations that are allowed, and
    if it returns, it does so with a value and at a stage that satisfy `Q`. -/
def Follows : Prog E R α → L → (α → L → Prop) → Prop
  | .ret a, l, Q => Q a l
  | .op e k, l, Q => d.allowed l e ∧ ∀ r, (k r).Follows (d.next l e r) Q

@[simp]
theorem follows_pure (a : α) (l : L) (Q : α → L → Prop) :
    Follows d (pure a : Prog E R α) l Q ↔ Q a l := Iff.rfl

@[simp]
theorem follows_call (e : E) (l : L) (Q : R e → L → Prop) :
    Follows d (call e : Prog E R (R e)) l Q ↔ d.allowed l e ∧ ∀ r, Q r (d.next l e r) := Iff.rfl

@[simp]
theorem follows_bind (p : Prog E R α) (f : α → Prog E R β) (l : L) (Q : β → L → Prop) :
    Follows d (p >>= f) l Q ↔ Follows d p l fun a l => Follows d (f a) l Q := by
  induction p generalizing l with
  | ret a => rfl
  | op e k ih => exact and_congr_right fun _ => forall_congr' fun r => ih r _

@[simp]
theorem follows_ite (c : Prop) [Decidable c] (p q : Prog E R α) (l : L) (Q : α → L → Prop) :
    Follows d (if c then p else q) l Q ↔ (c → Follows d p l Q) ∧ (¬ c → Follows d q l Q) := by
  by_cases h : c <;> simp [h]

end Prog

/-! ### Machines -/

/-- A shared state `S` with the operations `E`. Threads are numbered. -/
structure Machine (S E : Type) (R : E → Type) (Q C : Type) where
  /-- The shared state at the start. -/
  init : S → Prop
  /-- The program of a request. -/
  program : Q → Prog E R Unit
  /-- What an operation of a thread may do, with which result. -/
  exec : ℕ → (e : E) → S → R e → S → Prop
  /-- What the environment may do to the shared state. -/
  env : S → C → S → Prop
  /-- What is left of the shared state when the threads are lost. -/
  crash : S → C → S → Prop

/-- The label of a step: a request `q` is accepted as the thread `i`, the thread
    `i` takes an operation, the environment acts, or the threads are lost. -/
inductive Label (E : Type) (R : E → Type) (Q C : Type)
  | spawn (i : ℕ) (q : Q)
  | op (i : ℕ) (e : E) (r : R e)
  | env (c : C)
  | crash (c : C)

/-- The shared state, and what the threads have left to do. -/
structure Pool (S E : Type) (R : E → Type) where
  shared : S
  threads : ℕ → Option (Prog E R Unit)

namespace Machine

variable {S E : Type} {R : E → Type} {Q C : Type} (M : Machine S E R Q C)

/-- The steps of the threads and of the environment. -/
inductive Step : Pool S E R → Label E R Q C → Pool S E R → Prop
  | spawn {x : Pool S E R} {i : ℕ} {q : Q} :
    x.threads i = none →
      Step x (.spawn i q) ⟨x.shared, Function.update x.threads i (some (M.program q))⟩
  | op {x : Pool S E R} {i : ℕ} {e : E} {k : R e → Prog E R Unit} {r : R e} {s' : S} :
    x.threads i = some (.op e k) → M.exec i e x.shared r s' →
      Step x (.op i e r) ⟨s', Function.update x.threads i (some (k r))⟩
  | env {x : Pool S E R} {c : C} {s' : S} :
    M.env x.shared c s' → Step x (.env c) ⟨s', x.threads⟩
  | crash {x : Pool S E R} {c : C} {s' : S} :
    M.crash x.shared c s' →
      Step x (.crash c) ⟨s', fun i => (x.threads i).map fun _ => .ret ()⟩

/-- The transition system: there are no threads at the start. -/
def system : System (Pool S E R) (Label E R Q C) where
  init x := M.init x.shared ∧ x.threads = fun _ => none
  step := M.Step

variable {M}

variable {as : List (Label E R Q C)} {x : Pool S E R}

/-- A thread that has taken an operation does not go away. -/
theorem threads_ne_none (h : M.system.Run as x) {i : ℕ} {e : E} {r : R e} (hop : .op i e r ∈ as) :
    x.threads i ≠ none := by
  induction h with
  | init _ => cases hop
  | step hrun hs ih =>
    have hupdate : ∀ {f : ℕ → Option (Prog E R Unit)} {j : ℕ} {p : Prog E R Unit},
        f i ≠ none → Function.update f j (some p) i ≠ none := by
      intro f j p hf
      rcases eq_or_ne i j with rfl | hne
      · simp
      · rwa [Function.update_of_ne hne]
    rcases List.mem_append.1 hop with hold | hnew
    · cases hs with
      | spawn _ => exact hupdate (ih hold)
      | op _ _ => exact hupdate (ih hold)
      | env _ => exact ih hold
      | crash _ => exact fun hnone => ih hold (Option.map_eq_none_iff.1 hnone)
    · rw [List.mem_singleton] at hnew
      subst hnew
      cases hs with
      | op _ _ => simp

/-- The operations of a thread come after its start. -/
theorem spawn_before_op (h : M.system.Run as x) {i : ℕ} {q : Q} {e : E} {r : R e}
    {A B C' D : List (Label E R Q C)} (hs : as = A ++ .spawn i q :: B)
    (ho : as = C' ++ .op i e r :: D) : ∃ B', C' = A ++ .spawn i q :: B' := by
  rcases List.append_eq_append_iff.1 (hs.symm.trans ho) with ⟨m, rfl, hm⟩ | ⟨m, rfl, hm⟩
  · cases m with
    | nil => cases hm
    | cons a m =>
      cases hm
      exact ⟨m, rfl⟩
  · cases m with
    | nil => cases hm
    | cons a m =>
      cases hm
      subst hs
      obtain ⟨t, _, hrun, hstep, _⟩ := h.split
      cases hstep with
      | spawn hnone => exact absurd hnone (threads_ne_none (e := e) (r := r) hrun (by simp))

/-- The machine in which an operation is taken only in a state that suits it. -/
def guard (M : Machine S E R Q C) (suits : E → S → Prop) : Machine S E R Q C where
  init := M.init
  program := M.program
  exec i e s r s' := suits e s ∧ M.exec i e s r s'
  env := M.env
  crash := M.crash

/-- Such a machine runs as the machine does. -/
theorem run_of_guard {suits : E → S → Prop} (h : (M.guard suits).system.Run as x) :
    M.system.Run as x := by
  induction h with
  | init h => exact .init h
  | step _ hs ih =>
    refine ih.step ?_
    cases hs with
    | spawn hi => exact .spawn hi
    | op hi hexec => exact .op hi hexec.2
    | env henv => exact .env henv
    | crash hcrash => exact .crash hcrash

end Machine

/-! ### Outlines -/

/-- The annotations of a machine: stages, an assertion for each stage, and an
    invariant. `lost` is the stage of the threads that are lost. -/
structure Outline {S E : Type} {R : E → Type} {Q C : Type} (M : Machine S E R Q C) (L : Type)
    extends Stages E R L where
  start : Q → L
  lost : L
  inv : List (Label E R Q C) → S → Prop
  holds : ℕ → L → List (Label E R Q C) → S → Prop

namespace Outline

variable {S E : Type} {R : E → Type} {Q C L : Type} {M : Machine S E R Q C}

/-- The outline proves its invariant and its assertions. -/
structure Valid (o : Outline M L) : Prop where
  follows : ∀ q, (M.program q).Follows o.toStages (o.start q) fun _ _ => True
  init : ∀ {s}, M.init s → o.inv [] s
  spawn : ∀ {as s i q}, o.inv as s →
    o.inv (as ++ [.spawn i q]) s ∧ o.holds i (o.start q) (as ++ [.spawn i q]) s
  spawn_frame : ∀ {as s i q j l}, o.inv as s → o.holds j l as s →
    o.holds j l (as ++ [.spawn i q]) s
  op : ∀ {as x i l e r s'}, M.system.Run as x → o.inv as x.shared → o.holds i l as x.shared →
    o.allowed l e → M.exec i e x.shared r s' →
      o.inv (as ++ [.op i e r]) s' ∧ o.holds i (o.next l e r) (as ++ [.op i e r]) s'
  op_frame : ∀ {as x i l e r s' j l'}, M.system.Run as x → o.inv as x.shared →
    o.holds i l as x.shared → o.allowed l e → M.exec i e x.shared r s' → j ≠ i →
      o.holds j l' as x.shared → o.holds j l' (as ++ [.op i e r]) s'
  env : ∀ {as s c s'}, o.inv as s → M.env s c s' → o.inv (as ++ [.env c]) s'
  env_frame : ∀ {as s c s' j l}, o.inv as s → M.env s c s' → o.holds j l as s →
    o.holds j l (as ++ [.env c]) s'
  crash : ∀ {as s c s'}, o.inv as s → M.crash s c s' →
    o.inv (as ++ [.crash c]) s' ∧ ∀ i, o.holds i o.lost (as ++ [.crash c]) s'

/-- The invariant holds, and each thread has something to do that fits a stage
    whose assertion holds. -/
def Sound (o : Outline M L) (as : List (Label E R Q C)) (x : Pool S E R) : Prop :=
  o.inv as x.shared ∧ ∀ i p, x.threads i = some p →
    ∃ l, p.Follows o.toStages l (fun _ _ => True) ∧ o.holds i l as x.shared

theorem eq_or_of_update {f : ℕ → Option (Prog E R Unit)} {i j : ℕ} {p q : Prog E R Unit}
    (h : Function.update f i (some p) j = some q) : (j = i ∧ q = p) ∨ (j ≠ i ∧ f j = some q) := by
  rcases eq_or_ne j i with rfl | hne
  · rw [Function.update_self] at h
    exact .inl ⟨rfl, (Option.some.inj h).symm⟩
  · rw [Function.update_of_ne hne] at h
    exact .inr ⟨hne, h⟩

variable {as : List (Label E R Q C)} {o : Outline M L}

/-- A step keeps the invariant, and each thread at a stage whose assertion holds. -/
theorem Valid.step (ho : o.Valid) {x x' : Pool S E R} {a : Label E R Q C} (hrun : M.system.Run as x)
    (hx : o.Sound as x) (h : M.Step x a x') :
    o.Sound (as ++ [a]) x' := by
  obtain ⟨hinv, hthreads⟩ := hx
  cases h with
  | @spawn i q hi =>
    refine ⟨(ho.spawn hinv).1, fun j p hj => ?_⟩
    rcases eq_or_of_update hj with ⟨rfl, rfl⟩ | ⟨-, hj⟩
    · exact ⟨o.start q, ho.follows q, (ho.spawn hinv).2⟩
    · obtain ⟨l, hp, hl⟩ := hthreads j p hj
      exact ⟨l, hp, ho.spawn_frame hinv hl⟩
  | @op i e k r s' hi hexec =>
    obtain ⟨l, ⟨hallowed, hk⟩, hl⟩ := hthreads i _ hi
    obtain ⟨hinv', hl'⟩ := ho.op hrun hinv hl hallowed hexec
    refine ⟨hinv', fun j p hj => ?_⟩
    rcases eq_or_of_update hj with ⟨rfl, rfl⟩ | ⟨hne, hj⟩
    · exact ⟨o.next l e r, hk r, hl'⟩
    · obtain ⟨l', hp, hj'⟩ := hthreads j p hj
      exact ⟨l', hp, ho.op_frame hrun hinv hl hallowed hexec hne hj'⟩
  | @env c s' henv =>
    refine ⟨ho.env hinv henv, fun j p hj => ?_⟩
    obtain ⟨l, hp, hl⟩ := hthreads j p hj
    exact ⟨l, hp, ho.env_frame hinv henv hl⟩
  | @crash c s' hcrash =>
    refine ⟨(ho.crash hinv hcrash).1, fun j p hj => ?_⟩
    obtain ⟨_, -, rfl⟩ := Option.map_eq_some_iff.1 hj
    exact ⟨o.lost, trivial, (ho.crash hinv hcrash).2 j⟩

/-- The invariant and the assertions of a valid outline hold after every run. -/
theorem Valid.run (ho : o.Valid) {x : Pool S E R} (h : M.system.Run as x) : o.Sound as x := by
  induction h with
  | init h => exact ⟨ho.init h.1, fun i p hi => by simp [h.2] at hi⟩
  | step hrun hs ih => exact ho.step hrun ih hs

/-- In a run, an operation is taken at a stage that allows it and whose assertion holds. -/
theorem Valid.run_op (ho : o.Valid) {x x' : Pool S E R} {i : ℕ} {e : E} {r : R e}
    (h : M.system.Run as x) (hs : M.Step x (.op i e r) x') :
    ∃ l, o.allowed l e ∧ o.holds i l as x.shared ∧ M.exec i e x.shared r x'.shared := by
  cases hs with
  | op hi hexec =>
    obtain ⟨l, ⟨hallowed, -⟩, hl⟩ := (ho.run h).2 i _ hi
    exact ⟨l, hallowed, hl, hexec⟩

end Outline

end QuicLab
