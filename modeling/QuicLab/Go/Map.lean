import Mathlib.Data.Finmap
import Mathlib.Data.Multiset.Basic

/-!
# Go maps

A Go map is a finite map, Mathlib's `Finmap`: equality is extensional, so that
"the map is what it was before the call" is an equality, and no iteration order
is built in. What Go code does with a map beyond reading, writing and deleting
an entry is added here:

* `Map.len`: the number of entries;
* `Map.filter`: a `range` loop that deletes the entries failing a test;
* `Map.mapVals`: the same map read at another type (a JSON object decoded twice);
* `Map.Any`: a `range` loop looking for an entry;
* `Map.IsRange`: the iteration orders of a `range` loop. Go leaves the order
  open, so a loop whose result may depend on it takes the order as a list.
-/

namespace QuicLab.Go

/-- A Go map with keys `K` and values `V`. -/
abbrev Map (K V : Type*) := Finmap fun _ : K => V

namespace Map

variable {K V W : Type*}

section Lookup

variable [DecidableEq K]

theorem lookup_insert' (m : Map K V) (k k' : K) (v : V) :
    (m.insert k v).lookup k' = if k' = k then some v else m.lookup k' := by
  split_ifs with h
  · rw [h, Finmap.lookup_insert]
  · exact Finmap.lookup_insert_of_ne m h

theorem lookup_erase' (m : Map K V) (k k' : K) :
    (m.erase k).lookup k' = if k' = k then none else m.lookup k' := by
  split_ifs with h
  · rw [h, Finmap.lookup_erase]
  · exact Finmap.lookup_erase_ne h

variable {k : K}

/-- Writing back what a key already holds changes nothing: an undone write
    leaves the map as it was. -/
theorem insert_insert_of_lookup {m : Map K V} {v : V} (h : m.lookup k = some v) (v' : V) :
    (m.insert k v').insert k v = m := by
  refine Finmap.ext_lookup fun k' => ?_
  rw [lookup_insert', lookup_insert']
  split_ifs with hk
  · rw [hk, h]
  · rfl

theorem lookup_foldl_insert_of_notMem {l : List (K × V)} (h : k ∉ l.map Prod.fst) (m : Map K V) :
    (l.foldl (fun m e => m.insert e.1 e.2) m).lookup k = m.lookup k := by
  induction l generalizing m with
  | nil => rfl
  | cons e l ih =>
    rw [List.map_cons, List.mem_cons, not_or] at h
    rw [List.foldl_cons, ih h.2, lookup_insert', if_neg h.1]

/-- Entries with distinct keys are found as they were added. -/
theorem lookup_foldl_insert_of_mem {l : List (K × V)} (hl : (l.map Prod.fst).Nodup) {v : V}
    (h : (k, v) ∈ l) (m : Map K V) :
    (l.foldl (fun m e => m.insert e.1 e.2) m).lookup k = some v := by
  induction l generalizing m with
  | nil => cases h
  | cons e l ih =>
    rw [List.map_cons, List.nodup_cons] at hl
    rw [List.foldl_cons]
    rcases List.mem_cons.1 h with rfl | h
    · rw [lookup_foldl_insert_of_notMem hl.1, lookup_insert', if_pos rfl]
    · exact ih hl.2 h _

/-- Deleting a key that has just been added gives the map back. -/
theorem erase_insert_of_lookup_none {m : Map K V} (h : m.lookup k = none) (v : V) :
    (m.insert k v).erase k = m := by
  refine Finmap.ext_lookup fun k' => ?_
  rw [lookup_erase', lookup_insert']
  split_ifs with hk
  · rw [hk, h]
  · rfl

/-- Adding a deleted entry again gives the map back. -/
theorem insert_erase_of_lookup {m : Map K V} {v : V} (h : m.lookup k = some v) :
    (m.erase k).insert k v = m := by
  refine Finmap.ext_lookup fun k' => ?_
  rw [lookup_insert', lookup_erase']
  split_ifs with hk
  · rw [hk, h]
  · rfl

end Lookup

/-! ## Length -/

/-- The number of entries, Go's `len`. -/
def len (m : Map K V) : ℕ := m.entries.card

variable {m : Map K V}

theorem len_eq_zero (h : len m = 0) : m = ∅ := Finmap.ext (Multiset.card_eq_zero.1 h)

variable {k : K}

theorem len_insert_of_lookup_none [DecidableEq K] (h : m.lookup k = none) (v : V) :
    len (m.insert k v) = len m + 1 := by
  rw [len, Finmap.entries_insert_of_notMem (Finmap.lookup_eq_none.1 h), Multiset.card_cons, len]

theorem keys_card (m : Map K V) : m.keys.card = len m := Multiset.card_map _ _

theorem len_insert_of_lookup [DecidableEq K] {v : V} (h : m.lookup k = some v) (v' : V) :
    len (m.insert k v') = len m := by
  rw [← keys_card, ← keys_card]
  congr 1
  ext k'
  rw [Finmap.mem_keys, Finmap.mem_keys, Finmap.mem_insert]
  constructor
  · rintro (rfl | hk)
    · exact Finmap.mem_of_lookup_eq_some h
    · exact hk
  · exact .inr

theorem len_erase_le [DecidableEq K] (m : Map K V) (k : K) : len (m.erase k) ≤ len m := by
  rw [← keys_card, ← keys_card, Finmap.keys_erase]
  exact Finset.card_erase_le

/-! ## Loops over a map -/

/-- The entries passing the test `p`: a loop deleting all others. -/
def filter (p : K → V → Prop) [∀ k v, Decidable (p k v)] (m : Map K V) : Map K V where
  entries := m.entries.filter fun e => p e.1 e.2
  nodupKeys := Multiset.nodup_keys.1 <|
    Multiset.nodup_of_le (Multiset.map_le_map (Multiset.filter_le _ _))
      (Multiset.nodup_keys.2 m.nodupKeys)

theorem lookup_filter [DecidableEq K] (p : K → V → Prop) [∀ k v, Decidable (p k v)] (m : Map K V)
    (k : K) : (filter p m).lookup k = (m.lookup k).filter fun v => p k v := by
  ext v
  rw [Finmap.lookup_eq_some_iff, filter, Multiset.mem_filter, Option.filter_eq_some_iff,
    Finmap.lookup_eq_some_iff]
  simp

theorem len_filter_le (p : K → V → Prop) [∀ k v, Decidable (p k v)] (m : Map K V) :
    len (filter p m) ≤ len m := Multiset.card_le_card (Multiset.filter_le _ _)

theorem lookup_of_lookup_filter [DecidableEq K] {p : K → V → Prop} [∀ k v, Decidable (p k v)]
    {v : V} (h : (filter p m).lookup k = some v) : m.lookup k = some v := by
  rw [lookup_filter, Option.filter_eq_some_iff] at h
  exact h.1

/-- The map with every value translated by `f`. -/
def mapVals (f : V → W) (m : Map K V) : Map K W where
  entries := m.entries.map fun e => ⟨e.1, f e.2⟩
  nodupKeys := Multiset.nodup_keys.1 <| by
    rw [Multiset.keys, Multiset.map_map]
    exact Multiset.nodup_keys.2 m.nodupKeys

theorem lookup_mapVals [DecidableEq K] (f : V → W) (m : Map K V) (k : K) :
    (mapVals f m).lookup k = (m.lookup k).map f := by
  ext w
  rw [Finmap.lookup_eq_some_iff, mapVals, Multiset.mem_map, Option.map_eq_some_iff]
  constructor
  · rintro ⟨⟨k', v⟩, hv, he⟩
    cases he
    exact ⟨v, Finmap.lookup_eq_some_iff.2 hv, rfl⟩
  · rintro ⟨v, hv, rfl⟩
    exact ⟨⟨k, v⟩, Finmap.lookup_eq_some_iff.1 hv, rfl⟩

theorem len_mapVals (f : V → W) (m : Map K V) : len (mapVals f m) = len m :=
  Multiset.card_map _ _

/-- The map with every value changed by `f`, which may look at the key. -/
def update (f : K → V → V) (m : Map K V) : Map K V where
  entries := m.entries.map fun e => ⟨e.1, f e.1 e.2⟩
  nodupKeys := Multiset.nodup_keys.1 <| by
    rw [Multiset.keys, Multiset.map_map]
    exact Multiset.nodup_keys.2 m.nodupKeys

theorem lookup_update [DecidableEq K] (f : K → V → V) (m : Map K V) (k : K) :
    (update f m).lookup k = (m.lookup k).map (f k) := by
  ext w
  rw [Finmap.lookup_eq_some_iff, update, Multiset.mem_map, Option.map_eq_some_iff]
  constructor
  · rintro ⟨⟨k', v⟩, hv, he⟩
    cases he
    exact ⟨v, Finmap.lookup_eq_some_iff.2 hv, rfl⟩
  · rintro ⟨v, hv, rfl⟩
    exact ⟨⟨k, v⟩, Finmap.lookup_eq_some_iff.1 hv, rfl⟩

/-- The number of entries whose value passes the test `p`. -/
def count (p : V → Prop) [DecidablePred p] (m : Map K V) : ℕ := m.entries.countP fun e => p e.2

theorem count_update_le {p : V → Prop} [DecidablePred p] {f : K → V → V}
    (h : ∀ k v, p (f k v) → p v) (m : Map K V) : count p (update f m) ≤ count p m := by
  rw [count, count, update, Multiset.countP_map, Multiset.countP_eq_card_filter]
  exact Multiset.card_le_card (Multiset.monotone_filter_right _ fun e => h e.1 e.2)

theorem count_insert_of_lookup_none [DecidableEq K] {p : V → Prop} [DecidablePred p]
    (h : m.lookup k = none) (v : V) :
    count p (m.insert k v) = count p m + if p v then 1 else 0 := by
  rw [count, Finmap.entries_insert_of_notMem (Finmap.lookup_eq_none.1 h), Multiset.countP_cons,
    count]

/-- Some entry passes the test `p`. -/
def Any (p : K → V → Prop) (m : Map K V) : Prop := ∃ e ∈ m.entries, p e.1 e.2

instance (p : K → V → Prop) [∀ k v, Decidable (p k v)] (m : Map K V) : Decidable (Any p m) :=
  Multiset.decidableExistsMultiset

theorem any_iff [DecidableEq K] {p : K → V → Prop} :
    Any p m ↔ ∃ k v, m.lookup k = some v ∧ p k v :=
  ⟨fun ⟨⟨k, v⟩, h, hp⟩ => ⟨k, v, Finmap.lookup_eq_some_iff.2 h, hp⟩,
    fun ⟨k, v, h, hp⟩ => ⟨⟨k, v⟩, Finmap.lookup_eq_some_iff.1 h, hp⟩⟩

/-! ## Distinct entries -/

/-- No two entries agree in `f`, where it is defined. -/
def Distinct {T : Type*} [DecidableEq K] (f : V → Option T) (m : Map K V) : Prop :=
  ∀ k k' v v' t, m.lookup k = some v → m.lookup k' = some v' → f v = some t → f v' = some t → k = k'

theorem Distinct.insert {T : Type*} [DecidableEq K] {f : V → Option T} (h : Distinct f m) {v : V}
    (hnew : ∀ k' v' t, m.lookup k' = some v' → k' ≠ k → f v = some t → f v' ≠ some t) :
    Distinct f (m.insert k v) := by
  intro k₁ k₂ v₁ v₂ t h₁ h₂ ht₁ ht₂
  rw [lookup_insert'] at h₁ h₂
  split_ifs at h₁ h₂ with hk₁ hk₂ hk₂
  · rw [hk₁, hk₂]
  · cases h₁
    exact absurd ht₂ (hnew k₂ v₂ t h₂ hk₂ ht₁)
  · cases h₂
    exact absurd ht₁ (hnew k₁ v₁ t h₁ hk₁ ht₂)
  · exact h k₁ k₂ v₁ v₂ t h₁ h₂ ht₁ ht₂

theorem Distinct.erase {T : Type*} [DecidableEq K] {f : V → Option T} (h : Distinct f m) (k : K) :
    Distinct f (m.erase k) := by
  intro k₁ k₂ v₁ v₂ t h₁ h₂
  rw [lookup_erase'] at h₁ h₂
  split_ifs at h₁ h₂
  exact h k₁ k₂ v₁ v₂ t h₁ h₂

/-! ## Iteration orders -/

/-- `l` is an iteration order of `m`: a `range` loop may visit the entries of
    `m` in the order of `l`. -/
def IsRange (l : List (K × V)) (m : Map K V) : Prop :=
  m.entries = (l.map fun e => (⟨e.1, e.2⟩ : (_ : K) × V) : List _)

theorem IsRange.mem_iff [DecidableEq K] {l : List (K × V)} (h : IsRange l m) {v : V} :
    (k, v) ∈ l ↔ m.lookup k = some v := by
  rw [Finmap.lookup_eq_some_iff, show m.entries = _ from h, Multiset.mem_coe, List.mem_map]
  constructor
  · exact fun hm => ⟨_, hm, rfl⟩
  · rintro ⟨⟨k', v'⟩, hm, he⟩
    cases he
    exact hm

theorem IsRange.nodup_keys {l : List (K × V)} (h : IsRange l m) :
    (l.map Prod.fst).Nodup := by
  have hk : m.entries.keys.Nodup := Multiset.nodup_keys.2 m.nodupKeys
  rw [show m.entries = _ from h, Multiset.coe_keys, Multiset.coe_nodup, List.keys,
    List.map_map] at hk
  exact hk

end Map

end QuicLab.Go
