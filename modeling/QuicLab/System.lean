import Mathlib.Logic.Relation

/-!
# Transition systems

A component of the program is a transition system: its initial states and the
labelled steps between states, a label saying which operation was called, or
which party moved, with which arguments. Interleavings of several parties are
sequences of steps, so what holds in every *reachable* state holds under every
interleaving.

* `System.Reachable`: the states some sequence of steps leads to;
* `System.Run`: the same with the history, the labels taken so far;
* `System.Leads`: some sequence of steps leads from one state to another;
* `latest`: the latest label of some kind in a history;
* `System.Happened`: some step along a history was taken under given circumstances;
* `Reachable.invariant`, `Run.invariant`: a property that holds initially and
  is preserved by every step holds in every reachable state, resp. after every
  run. All safety proofs go through one of the two.
-/

namespace QuicLab

variable {S A : Type*}

/-- The latest of the labels that pass the test `p` in a history. -/
def latest (p : A → Bool) (as : List A) : Option A := as.reverse.find? p

theorem mem_snoc {a b : A} {as : List A} : a ∈ as ++ [b] ↔ a ∈ as ∨ a = b := by simp

theorem latest_snoc (p : A → Bool) (as : List A) (a : A) :
    latest p (as ++ [a]) = if p a then some a else latest p as := by
  rw [latest, List.reverse_append, List.reverse_singleton, List.singleton_append, List.find?_cons,
    latest]
  cases p a <;> rfl

/-- The latest label of a kind is not before another one of the kind. -/
theorem mem_of_latest_append {p : A → Bool} {as bs : List A} {a b : A} (ha : p a = true)
    (h : latest p (as ++ a :: bs) = some b) : b = a ∨ b ∈ bs := by
  rw [latest, List.reverse_append, List.reverse_cons, List.append_assoc, List.find?_append,
    List.find?_append, List.find?_cons, ha] at h
  cases hb : bs.reverse.find? p with
  | none =>
    rw [hb] at h
    exact .inl (Option.some.inj h).symm
  | some c =>
    rw [hb] at h
    cases h
    exact .inr (List.mem_reverse.1 (List.mem_of_find?_eq_some hb))

theorem mem_filterMap_snoc {B : Type*} {f : A → Option B} {as : List A} {a : A} {b : B} :
    b ∈ (as ++ [a]).filterMap f ↔ b ∈ as.filterMap f ∨ f a = some b := by
  rw [List.filterMap_append, List.mem_append]
  simp

/-- What is read off a history is distinct if each step adds something new. -/
theorem nodup_filterMap_snoc {B : Type*} {f : A → Option B} {as : List A} {a : A}
    (h : (as.filterMap f).Nodup) (ha : ∀ b, f a = some b → b ∉ as.filterMap f) :
    ((as ++ [a]).filterMap f).Nodup := by
  rw [List.filterMap_append]
  refine List.nodup_append.2 ⟨h, ?_, fun b hb b' hb' heq => ?_⟩
  · cases hfa : f a <;> simp [hfa]
  · have hfa : f a = some b' := by simpa using hb'
    exact ha b' hfa (heq ▸ hb)

/-- A transition system on the states `S`, with steps labelled by `A`. -/
structure System (S A : Type*) where
  /-- The initial states. -/
  init : S → Prop
  /-- The steps: from a state, under a label, to a next state. -/
  step : S → A → S → Prop

namespace System

variable (m : System S A)

/-- The states reachable from an initial state. -/
inductive Reachable : S → Prop
  | init {s : S} : m.init s → Reachable s
  | step {s s' : S} {a : A} : Reachable s → m.step s a s' → Reachable s'

/-- A run to `s` with the history `as`, the labels of its steps, oldest first. -/
inductive Run : List A → S → Prop
  | init {s : S} : m.init s → Run [] s
  | step {as : List A} {s s' : S} {a : A} : Run as s → m.step s a s' → Run (as ++ [a]) s'

/-- Some sequence of steps leads from one state to the other. -/
def Leads : S → S → Prop := Relation.ReflTransGen fun s s' => ∃ a, m.step s a s'

/-- The system started in the state `s`. -/
def start (s : S) : System S A where
  init := (· = s)
  step := m.step

/-- Along the history, a step was taken with a label, from a state and after a
    history that satisfy `P`. -/
def Happened (P : List A → S → A → Prop) (as : List A) : Prop :=
  ∃ pre s a post, as = pre ++ a :: post ∧ m.Run pre s ∧ P pre s a

/-- The system with the steps that satisfy `P` only. -/
def restrict (P : S → A → Prop) : System S A where
  init := m.init
  step s a s' := P s a ∧ m.step s a s'

variable {m}

/-- The invariant rule: what holds initially and is preserved by every step
    holds in every reachable state. -/
theorem Reachable.invariant {P : S → Prop} (hinit : ∀ s, m.init s → P s)
    (hstep : ∀ s a s', P s → m.step s a s' → P s') {s : S} (h : m.Reachable s) : P s := by
  induction h with
  | init h => exact hinit _ h
  | step _ hs ih => exact hstep _ _ _ ih hs

/-- The invariant rule for properties of the history and the state reached. -/
theorem Run.invariant {P : List A → S → Prop} (hinit : ∀ s, m.init s → P [] s)
    (hstep : ∀ as s a s', P as s → m.step s a s' → P (as ++ [a]) s') {as : List A} {s : S}
    (h : m.Run as s) : P as s := by
  induction h with
  | init h => exact hinit _ h
  | step _ hs ih => exact hstep _ _ _ _ ih hs

/-- What holds in a state and is preserved by every step holds in every later state. -/
theorem Leads.invariant {P : S → Prop} (hstep : ∀ s a s', P s → m.step s a s' → P s') {s s' : S}
    (h : m.Leads s s') (hs : P s) : P s' := by
  induction h with
  | refl => exact hs
  | tail _ hstep' ih =>
    obtain ⟨a, ha⟩ := hstep'
    exact hstep _ a _ ih ha

theorem Happened.append {P : List A → S → A → Prop} {as : List A} (h : m.Happened P as)
    (bs : List A) : m.Happened P (as ++ bs) := by
  obtain ⟨pre, s, a, post, rfl, hrun, hP⟩ := h
  exact ⟨pre, s, a, post ++ bs, by simp, hrun, hP⟩

theorem Happened.mono {P P' : List A → S → A → Prop} {as : List A} (h : m.Happened P as)
    (hP : ∀ pre s a, P pre s a → P' pre s a) : m.Happened P' as := by
  obtain ⟨pre, s, a, post, has, hrun, hpre⟩ := h
  exact ⟨pre, s, a, post, has, hrun, hP pre s a hpre⟩

theorem Run.happened {P : List A → S → A → Prop} {as : List A} {s : S} (h : m.Run as s) {a : A}
    (hP : P as s a) : m.Happened P (as ++ [a]) := ⟨as, s, a, [], rfl, h, hP⟩

/-- The step of a run that took a label of its history. -/
theorem Run.split {pre post : List A} {a : A} {s : S} (h : m.Run (pre ++ a :: post) s) :
    ∃ t t', m.Run pre t ∧ m.step t a t' ∧ m.Run (pre ++ [a]) t' := by
  generalize has : pre ++ a :: post = as at h
  induction h generalizing post with
  | init _ => simp at has
  | @step as s s' b hrun hs ih =>
    rcases List.eq_nil_or_concat post with rfl | ⟨post, c, rfl⟩
    · obtain ⟨rfl, hab⟩ := List.append_inj' has rfl
      cases hab
      exact ⟨s, s', hrun, hs, hrun.step hs⟩
    · rw [List.concat_eq_append, ← List.cons_append, ← List.append_assoc] at has
      exact ih (List.append_inj' has rfl).1

/-- A run with some of the steps only is a run. -/
theorem Run.of_restrict {P : S → A → Prop} {as : List A} {s : S} (h : (m.restrict P).Run as s) :
    m.Run as s := by
  induction h with
  | init h => exact .init h
  | step _ hs ih => exact ih.step hs.2

/-- A run goes on, where the next state is computed. -/
theorem Run.foldlM {f : S → A → Option S} (hf : ∀ s a s', f s a = some s' → m.step s a s')
    {as bs : List A} {s s' : S} (h : m.Run as s) (hb : bs.foldlM f s = some s') :
    m.Run (as ++ bs) s' := by
  induction bs generalizing as s with
  | nil =>
    cases hb
    rwa [List.append_nil]
  | cons a bs ih =>
    rw [List.foldlM_cons, Option.bind_eq_bind, Option.bind_eq_some_iff] at hb
    obtain ⟨s₁, h₁, hb⟩ := hb
    rw [List.append_cons]
    exact ih (h.step (hf s a s₁ h₁)) hb

/-- A run leads to a reachable state. -/
theorem Run.reachable {as : List A} {s : S} (h : m.Run as s) : m.Reachable s := by
  induction h with
  | init h => exact .init h
  | step _ hs ih => exact .step ih hs

end System

end QuicLab
