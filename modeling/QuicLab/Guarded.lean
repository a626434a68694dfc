import Mathlib.Data.List.Forall2

/-!
# Guarded results

A check that fails or goes on has a result that depends on a condition only:
`Guarded ok a r` says that `r` is the value `a` when `ok` holds, and an error
otherwise. Checks in sequence are guarded by the conjunction of their conditions
(`Guarded.bind`).
-/

namespace QuicLab

universe u v

variable {ε : Type v} {α β : Type u}

theorem ok_bind (a : α) (f : α → Except ε β) : Except.ok a >>= f = f a := rfl

theorem error_bind (e : ε) (f : α → Except ε β) : Except.error e >>= f = .error e := rfl

/-- A computation that goes on to a value. -/
theorem bind_eq_ok_iff {r : Except ε α} {f : α → Except ε β} {b : β} :
    (r >>= f) = .ok b ↔ ∃ a, r = .ok a ∧ f a = .ok b := by
  cases r with
  | ok a =>
    rw [ok_bind]
    exact ⟨fun h => ⟨a, rfl, h⟩, fun ⟨a', ha, h⟩ => by cases ha; exact h⟩
  | error e => exact ⟨(fun h => by cases h), fun ⟨a, ha, _⟩ => by cases ha⟩

/-- The result is `a` when `ok`, and an error otherwise. -/
structure Guarded (ok : Prop) (a : α) (r : Except ε α) : Prop where
  accepts : ok → r = .ok a
  rejects : ¬ ok → ∃ e, r = .error e

namespace Guarded

variable {ok ok' : Prop} {a : α} {b : β} {r : Except ε α}

theorem pure (a : α) : Guarded True a (.ok a : Except ε α) := ⟨fun _ => rfl, fun h => absurd trivial h⟩

theorem of_eq (h : r = .ok a) : Guarded True a r := h ▸ pure a

/-- A test that ends in an error. -/
theorem ite {bad : Prop} [Decidable bad] (e : ε) (h : Guarded ok a r) :
    Guarded (¬ bad ∧ ok) a (if bad then .error e else r) := by
  by_cases hbad : bad
  · rw [if_pos hbad]
    exact ⟨fun hand => absurd hbad hand.1, fun _ => ⟨e, rfl⟩⟩
  · rw [if_neg hbad]
    exact ⟨fun hand => h.accepts hand.2, fun hand => h.rejects fun hok => hand ⟨hbad, hok⟩⟩

theorem congr (h : Guarded ok a r) (hiff : ok ↔ ok') : Guarded ok' a r :=
  ⟨fun h' => h.accepts (hiff.2 h'), fun h' => h.rejects fun hok => h' (hiff.1 hok)⟩

/-- A check, then another one. -/
theorem bind {f : α → Except ε β} (h : Guarded ok a r) (h' : ok → Guarded ok' b (f a)) :
    Guarded (ok ∧ ok') b (r >>= f) := by
  by_cases hok : ok
  · rw [h.accepts hok]
    exact ⟨fun hand => (h' hok).accepts hand.2,
      fun hand => (h' hok).rejects fun hok' => hand ⟨hok, hok'⟩⟩
  · obtain ⟨e, he⟩ := h.rejects hok
    rw [he]
    exact ⟨fun hand => absurd hand.1 hok, fun _ => ⟨e, rfl⟩⟩

/-- A result whose value is not known, then a check. -/
theorem bind_of {f : α → Except ε β} (h : ∀ x, r = .ok x → Guarded ok' b (f x)) :
    Guarded ((∃ x, r = .ok x) ∧ ok') b (r >>= f) := by
  cases hr : r with
  | ok x =>
    rw [ok_bind]
    exact (h x hr).congr ⟨fun hok => ⟨⟨x, rfl⟩, hok⟩, fun hand => hand.2⟩
  | error e =>
    refine ⟨fun hand => ?_, fun _ => ⟨e, rfl⟩⟩
    obtain ⟨⟨x, hx⟩, _⟩ := hand
    cases hx

theorem map {f : α → β} (h : Guarded ok a r) : Guarded ok (f a) (f <$> r) := by
  by_cases hok : ok
  · rw [h.accepts hok]
    exact ⟨fun _ => rfl, fun hn => absurd hok hn⟩
  · obtain ⟨e, he⟩ := h.rejects hok
    rw [he]
    exact ⟨fun hok' => absurd hok' hok, fun _ => ⟨e, rfl⟩⟩

/-- The only value accepted. -/
theorem eq_ok_iff (h : Guarded ok a r) {x : α} : r = .ok x ↔ ok ∧ x = a := by
  constructor
  · rintro rfl
    by_cases hok : ok
    · exact ⟨hok, Except.ok.inj (h.accepts hok)⟩
    · obtain ⟨e, he⟩ := h.rejects hok
      cases he
  · rintro ⟨hok, rfl⟩
    exact h.accepts hok

/-- A loop of checks, one per element. -/
theorem foldlM_cons {γ : Type*} {f : α → γ → Except ε α} {s s' s'' : α} {x : γ} {l : List γ}
    (h : Guarded ok s' (f s x)) (h' : Guarded ok' s'' (l.foldlM f s')) :
    Guarded (ok ∧ ok') s'' ((x :: l).foldlM f s) := by
  rw [List.foldlM_cons]
  exact h.bind fun _ => h'

end Guarded

variable {γ : Type*}

/-- A loop whose first check succeeds. -/
theorem foldlM_cons_of_ok {f : α → γ → Except ε α} {s t : α} {x : γ} (h : f s x = .ok t)
    (l : List γ) : (x :: l).foldlM f s = l.foldlM f t := by
  rw [List.foldlM_cons, h]
  rfl

theorem toOption_map (f : α → β) (r : Except ε α) : (f <$> r).toOption = r.toOption.map f := by
  cases r <;> rfl

theorem toOption_bind (r : Except ε α) (f : α → Except ε β) :
    (r >>= f).toOption = r.toOption.bind fun a => (f a).toOption := by
  cases r <;> rfl

/-- A loop goes on as it would before an embedding, if each turn does. -/
theorem foldlM_map {f : α → γ → Except ε α} {g : β → γ → Except ε β} (e : α → β)
    (h : ∀ a x, g (e a) x = e <$> f a x) (a : α) (l : List γ) :
    l.foldlM g (e a) = e <$> l.foldlM f a := by
  induction l generalizing a with
  | nil => rfl
  | cons x l ih =>
    rw [List.foldlM_cons, List.foldlM_cons, h]
    cases f a x with
    | error _ => rfl
    | ok a' => exact ih a'

/-- A loop that fails does so at some element. -/
theorem foldlM_eq_error {f : α → γ → Except ε α} {l : List γ} {a : α} {e : ε}
    (h : l.foldlM f a = .error e) :
    ∃ l₁ x l₂ b, l = l₁ ++ x :: l₂ ∧ l₁.foldlM f a = .ok b ∧ f b x = .error e := by
  induction l generalizing a with
  | nil => cases h
  | cons x l ih =>
    cases hx : f a x with
    | error e' =>
      rw [List.foldlM_cons, hx] at h
      exact ⟨[], x, l, a, rfl, rfl, hx.trans h⟩
    | ok b =>
      rw [foldlM_cons_of_ok hx] at h
      obtain ⟨l₁, y, l₂, c, rfl, hl, hy⟩ := ih h
      exact ⟨x :: l₁, y, l₂, c, rfl, (foldlM_cons_of_ok hx l₁).trans hl, hy⟩

theorem foldlM_append_error {f : α → γ → Except ε α} {l₁ : List γ} {a b : α} {x : γ} {e : ε}
    (h : l₁.foldlM f a = .ok b) (hx : f b x = .error e) (l₂ : List γ) :
    (l₁ ++ x :: l₂).foldlM f a = .error e := by
  rw [List.foldlM_append, h, ok_bind, List.foldlM_cons, hx]
  rfl

/-- A function that succeeds at every element of a list. -/
theorem mapM_eq_ok_iff {f : γ → Except ε α} {l : List γ} {l' : List α} :
    l.mapM f = .ok l' ↔ List.Forall₂ (fun x y => f x = .ok y) l l' := by
  induction l generalizing l' with
  | nil =>
    rw [List.mapM_nil, List.forall₂_nil_left_iff]
    exact ⟨fun h => (Except.ok.inj h).symm, fun h => congrArg Except.ok h.symm⟩
  | cons x l ih =>
    rw [List.mapM_cons, List.forall₂_cons_left_iff]
    constructor
    · intro h
      cases hx : f x with
      | error e =>
        rw [hx] at h
        cases h
      | ok y =>
        rw [hx, ok_bind] at h
        cases hl : l.mapM f with
        | error e =>
          rw [hl] at h
          cases h
        | ok ys =>
          rw [hl] at h
          exact ⟨y, ys, rfl, ih.1 hl, (Except.ok.inj h).symm⟩
    · rintro ⟨y, ys, hx, hl, rfl⟩
      rw [hx, ok_bind, ih.2 hl]
      rfl

theorem mem_of_mapM {f : γ → Except ε α} {l : List γ} {l' : List α} (h : l.mapM f = .ok l') {y : α} :
    y ∈ l' ↔ ∃ x ∈ l, f x = .ok y := by
  have hall := mapM_eq_ok_iff.1 h
  clear h
  induction hall with
  | nil => simp
  | @cons x y' l l' hx _ ih =>
    rw [List.mem_cons, List.exists_mem_cons_iff, hx, Except.ok.injEq, eq_comm]
    exact or_congr_right ih

/-! ## Two computations -/

/-- The same error, or values that are related. -/
inductive Agree {α β : Type u} {ε : Type v} (R : α → β → Prop) : Except ε α → Except ε β → Prop
  | error (e : ε) : Agree R (.error e) (.error e)
  | ok {a : α} {b : β} (h : R a b) : Agree R (.ok a) (.ok b)

namespace Agree

variable {α' β' : Type u} {R : α → β → Prop} {S : α' → β' → Prop} {r : Except ε α}
  {r' : Except ε β}

theorem eq_or_eq (h : Agree R r r') : (∃ e, r = .error e ∧ r' = .error e) ∨
    ∃ a b, r = .ok a ∧ r' = .ok b ∧ R a b := by
  cases h with
  | error e => exact .inl ⟨e, rfl, rfl⟩
  | ok hR => exact .inr ⟨_, _, rfl, rfl, hR⟩

/-- Both computations go on. -/
theorem bind (h : Agree R r r') {f : α → Except ε α'} {f' : β → Except ε β'}
    (hf : ∀ a b, R a b → Agree S (f a) (f' b)) : Agree S (r >>= f) (r' >>= f') := by
  cases h with
  | error e => exact .error e
  | ok hR => exact hf _ _ hR

theorem map (h : Agree R r r') {f : α → α'} {f' : β → β'} (hf : ∀ a b, R a b → S (f a) (f' b)) :
    Agree S (f <$> r) (f' <$> r') := by
  cases h with
  | error e => exact .error e
  | ok hR => exact .ok (hf _ _ hR)

/-- Loops over related lists that keep a relation of their states. -/
theorem foldlM {γ δ : Type*} {T : γ → δ → Prop} {f : α → γ → Except ε α} {f' : β → δ → Except ε β}
    (hf : ∀ a b x y, R a b → T x y → Agree R (f a x) (f' b y)) {l : List γ} {l' : List δ}
    (hl : List.Forall₂ T l l') {a : α} {b : β} (h : R a b) :
    Agree R (l.foldlM f a) (l'.foldlM f' b) := by
  induction hl generalizing a b with
  | nil => exact .ok h
  | cons hT _ ih =>
    rw [List.foldlM_cons, List.foldlM_cons]
    exact (hf _ _ _ _ h hT).bind fun _ _ h' => ih h'

end Agree

end QuicLab
