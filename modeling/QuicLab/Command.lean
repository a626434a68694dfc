import Mathlib.Logic.Basic

/-!
# Commands

A program with a state, some of whose steps may fail, is a `Command`: it takes the state
to a result, or to an error, and to the state it leaves. What was done before a failure
stays done, and may be seen by whoever catches the error (`Command.orElse`).

A command on `Traced` states keeps the states it went through: those in which it may be
interrupted.

`Triple P m Q E` says that from the states with `P` the command `m` ends in one with `Q`,
or fails in one with `E`. There is one rule per way to build commands, and `Keeps` is the
case of an invariant.
-/

namespace QuicLab

/-- A command on the states `σ`, with errors `ε` and results `α`. -/
def Command (σ ε α : Type) : Type := σ → Except ε α × σ

namespace Command

variable {σ ε α β : Type}

instance : Monad (Command σ ε) where
  pure a := fun s => (.ok a, s)
  bind m f := fun s =>
    match m s with
    | (.ok a, s') => f a s'
    | (.error e, s') => (.error e, s')

theorem bind_ok {m : Command σ ε α} {s s' : σ} {a : α} (h : m s = (.ok a, s'))
    (f : α → Command σ ε β) : (m >>= f) s = f a s' := by
  show (match m s with | (.ok a, s') => f a s' | (.error e, s') => (.error e, s')) = _
  rw [h]

theorem bind_error {m : Command σ ε α} {s s' : σ} {e : ε} (h : m s = (.error e, s'))
    (f : α → Command σ ε β) : (m >>= f) s = (.error e, s') := by
  show (match m s with | (.ok a, s') => f a s' | (.error e, s') => (.error e, s')) = _
  rw [h]

/-- The state. -/
def get : Command σ ε σ := fun s => (.ok s, s)

/-- Changes the state. -/
def modify (f : σ → σ) : Command σ ε Unit := fun s => (.ok (), f s)

/-- Fails. -/
def fail (e : ε) : Command σ ε α := fun s => (.error e, s)

/-- `try … catch …` -/
def orElse (m : Command σ ε α) (handler : ε → Command σ ε α) : Command σ ε α := fun s =>
  match m s with
  | (.ok a, s') => (.ok a, s')
  | (.error e, s') => handler e s'

/-- What was computed without the state. -/
def lift : Except ε α → Command σ ε α
  | .ok a => pure a
  | .error e => fail e

/-- The condition `Q` or `E` on what a command ends with. -/
def Post (Q : α → σ → Prop) (E : ε → σ → Prop) : Except ε α × σ → Prop
  | (.ok a, s) => Q a s
  | (.error e, s) => E e s

/-- From a state with `P`, the command ends with `Q` or fails with `E`. -/
def Triple (P : σ → Prop) (m : Command σ ε α) (Q : α → σ → Prop) (E : ε → σ → Prop) : Prop :=
  ∀ s, P s → Post Q E (m s)

namespace Triple

variable {P P' : σ → Prop} {Q Q' : α → σ → Prop} {R : β → σ → Prop} {E E' : ε → σ → Prop}
  {m : Command σ ε α} {f : α → Command σ ε β}

theorem pure {a : α} (h : ∀ s, P s → Q a s) : Triple P (Pure.pure a) Q E := h

theorem modify {g : σ → σ} {Q : Unit → σ → Prop} (h : ∀ s, P s → Q () (g s)) :
    Triple P (modify g) Q E := h

theorem get {Q : σ → σ → Prop} (h : ∀ s, P s → Q s s) : Triple P get Q E := h

theorem fail {e : ε} (h : ∀ s, P s → E e s) : Triple P (fail e : Command σ ε α) Q E := h

theorem bind (hm : Triple P m Q E) (hf : ∀ a, Triple (Q a) (f a) R E) :
    Triple P (m >>= f) R E := by
  intro s hs
  have hpost := hm s hs
  show Post R E (match m s with | (.ok a, s') => f a s' | (.error e, s') => (.error e, s'))
  revert hpost
  rcases m s with ⟨_ | a, s'⟩
  · exact id
  · exact hf a s'

theorem ite {p : Prop} [Decidable p] {m' : Command σ ε α} (hm : p → Triple P m Q E)
    (hm' : ¬ p → Triple P m' Q E) : Triple P (if p then m else m') Q E := by
  by_cases hp : p
  · rw [if_pos hp]
    exact hm hp
  · rw [if_neg hp]
    exact hm' hp

theorem orElse {handler : ε → Command σ ε α} (hm : Triple P m Q E)
    (hh : ∀ e, Triple (E e) (handler e) Q E') : Triple P (m.orElse handler) Q E' := by
  intro s hs
  have hpost := hm s hs
  show Post Q E' (match m s with | (.ok a, s') => (.ok a, s') | (.error e, s') => handler e s')
  revert hpost
  rcases m s with ⟨e | a, s'⟩
  · exact hh e s'
  · exact id

/-- A command that goes on with what was computed. -/
theorem lift_bind {r : Except ε α} (hok : ∀ a, r = .ok a → Triple P (f a) R E)
    (herror : ∀ e s, P s → E e s) : Triple P (lift r >>= f) R E := by
  cases r with
  | ok a => exact hok a rfl
  | error e => exact herror e

/-- A stronger precondition and weaker postconditions. -/
theorem conseq (h : Triple P m Q E) (hP : ∀ s, P' s → P s) (hQ : ∀ a s, Q a s → Q' a s)
    (hE : ∀ e s, E e s → E' e s) : Triple P' m Q' E' := by
  intro s hs
  have hpost := h s (hP s hs)
  revert hpost
  rcases m s with ⟨e | a, s'⟩
  · exact hE e s'
  · exact hQ a s'

/-- A stronger precondition. -/
theorem of_imp (hP : ∀ s, P' s → P s) (h : Triple P m Q E) : Triple P' m Q E :=
  h.conseq hP (fun _ _ h => h) fun _ _ h => h

/-- What a command leaves that ends in the same way whether it fails or not. -/
theorem snd {R : σ → Prop} (h : Triple P m (fun _ => R) fun _ => R) {s : σ} (hs : P s) :
    R (m s).2 := by
  have hpost := h s hs
  revert hpost
  rcases m s with ⟨_ | _, _⟩
  · exact id
  · exact id

/-- What a command leaves that does not fail. -/
theorem of_ok (h : Triple P m Q E) {s : σ} (hs : P s) {a : α} (hok : (m s).1 = .ok a) :
    Q a (m s).2 := by
  have hpost := h s hs
  revert hpost hok
  rcases m s with ⟨_ | _, _⟩
  · intro hok
    cases hok
  · intro hok hpost
    cases hok
    exact hpost

/-- What a command leaves that fails. -/
theorem of_error (h : Triple P m Q E) {s : σ} (hs : P s) {e : ε} (herror : (m s).1 = .error e) :
    E e (m s).2 := by
  have hpost := h s hs
  revert hpost herror
  rcases m s with ⟨_ | _, _⟩
  · intro herror hpost
    cases herror
    exact hpost
  · intro herror
    cases herror

end Triple

/-- The command keeps the invariant, whether it fails or not. -/
def Keeps (I : σ → Prop) (m : Command σ ε α) : Prop := Triple I m (fun _ => I) fun _ => I

namespace Keeps

variable {I : σ → Prop} {m : Command σ ε α} {f : α → Command σ ε β}

theorem pure (a : α) : Keeps I (Pure.pure a : Command σ ε α) := fun _ h => h

theorem get : Keeps I (Command.get : Command σ ε σ) := fun _ h => h

theorem bind (hm : Keeps I m) (hf : ∀ a, Keeps I (f a)) : Keeps I (m >>= f) := Triple.bind hm hf

theorem snd (h : Keeps I m) {s : σ} (hs : I s) : I (m s).2 := Triple.snd h hs

end Keeps

/-! ## Traces -/

/-- A state with those there were before it, itself included, the latest first. -/
structure Traced (σ : Type) where
  now : σ
  seen : List σ

namespace Traced

/-- A trace that begins. -/
def start (s : σ) : Traced σ := ⟨s, [s]⟩

/-- A trace that goes on. -/
def next (t : Traced σ) (s : σ) : Traced σ := ⟨s, s :: t.seen⟩

/-- The property holds now, and held in every state before. -/
def Always (I : σ → Prop) (t : Traced σ) : Prop := I t.now ∧ ∀ s ∈ t.seen, I s

theorem Always.next {I : σ → Prop} {t : Traced σ} (h : Always I t) {s : σ} (hs : I s) :
    Always I (t.next s) := ⟨hs, List.forall_mem_cons.2 ⟨hs, h.2⟩⟩

end Traced

/-- The state there is now. -/
def now : Command (Traced σ) ε σ := fun t => (.ok t.now, t)

/-- A step, or the error `e` where it cannot be taken. -/
def run (f : σ → Option σ) (e : ε) : Command (Traced σ) ε Unit := fun t =>
  match f t.now with
  | some s => (.ok (), t.next s)
  | none => (.error e, t)

/-- A step where it can be taken. -/
def attempt (f : σ → Option σ) : Command (Traced σ) ε Unit := fun t =>
  match f t.now with
  | some s => (.ok (), t.next s)
  | none => (.ok (), t)

section Traces

variable {I P Q : σ → Prop} {f : σ → Option σ} {e : ε}

theorem Triple.run (h : ∀ s s', I s → P s → f s = some s' → I s' ∧ Q s') :
    Triple (fun t => t.Always I ∧ P t.now) (run f e) (fun _ t => t.Always I ∧ Q t.now)
      fun _ => Traced.Always I := by
  rintro t ⟨hI, hP⟩
  rw [Command.run]
  cases hf : f t.now with
  | none => exact hI
  | some s =>
    obtain ⟨hI', hQ⟩ := h _ _ hI.1 hP hf
    exact ⟨hI.next hI', hQ⟩

variable {s s' : σ}

variable {E : ε → Traced σ → Prop}

/-- A step that is taken from a known state. -/
theorem Triple.run_some (h : f s = some s') :
    Triple (fun t => t.now = s) (Command.run f e) (fun _ t => t.now = s') E := by
  rintro t rfl
  rw [Command.run, h]
  exact rfl

/-- A step that cannot be taken from a known state. -/
theorem Triple.run_none {R : Unit → Traced σ → Prop} (h : f s = none) :
    Triple (fun t => t.now = s) (Command.run f e) R fun _ t => t.now = s := by
  rintro t rfl
  rw [Command.run, h]
  exact rfl

theorem Triple.attempt_some (h : f s = some s') :
    Triple (fun t => t.now = s) (attempt f) (fun _ t => t.now = s') E := by
  rintro t rfl
  rw [Command.attempt, h]
  exact rfl

theorem Triple.attempt_none (h : f s = none) :
    Triple (fun t => t.now = s) (attempt f) (fun _ t => t.now = s) E := by
  rintro t rfl
  rw [Command.attempt, h]
  exact rfl

/-- A command that reads a known state. -/
theorem Triple.now_bind {g : σ → Command (Traced σ) ε α} {R : α → Traced σ → Prop}
    (h : Triple (fun t => t.now = s) (g s) R E) :
    Triple (fun t => t.now = s) (now >>= g) R E := by
  rintro t rfl
  exact h t rfl

theorem Keeps.run (h : ∀ s s', I s → f s = some s' → I s') :
    Keeps (Traced.Always I) (Command.run f e) :=
  (Triple.run (P := fun _ => True) (Q := fun _ => True) fun s s' hI _ hf => ⟨h s s' hI hf, trivial⟩).conseq
    (fun _ h => ⟨h, trivial⟩) (fun _ _ h => h.1) fun _ _ h => h

theorem Keeps.attempt (h : ∀ s s', I s → f s = some s' → I s') :
    Keeps (Traced.Always I) (attempt f : Command (Traced σ) ε Unit) := by
  intro t hI
  rw [Command.attempt]
  cases hf : f t.now with
  | none => exact hI
  | some s => exact hI.next (h _ _ hI.1 hf)

end Traces

end Command

end QuicLab
