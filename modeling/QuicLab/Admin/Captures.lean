import QuicLab.Admin.Schedule

/-!
# The captures of the web interface

What the handlers do to the table of captures.

* `Captures.running_of_moves`, `Captures.running_of_makes`: where the running captures
  come from;
* `Captures.Within`: the table is within the bounds of the configuration.
-/

namespace QuicLab.Admin.Web

open Go

namespace Captures

open DebugCapture (Manager)

/-! ### Running captures -/

/-- A session of the table that is running. -/
def Running (m : Manager) (id : Bytes) (c : DebugCapture.Session) : Prop :=
  m.find id = some c ∧ c.state = .running

variable {m m' : Manager} {t : Option Bytes} {c' : DebugCapture.Session} {id : Bytes}

theorem running_of_moves (h : m.Moves t m') (hc' : Running m' id c') :
    ∃ c, Running m id c ∧ c.Later c' := by
  obtain ⟨hlook, hretained⟩ := Option.filter_eq_some_iff.1 hc'.1
  obtain ⟨c, hc, hlater, -⟩ := h.old id c' hlook
  exact ⟨c, ⟨Option.filter_eq_some_iff.2 ⟨hc, hlater.retained hretained⟩, hlater.running hc'.2⟩,
    hlater⟩

variable {c : DebugCapture.Session}

/-- The running sessions after one is made: that one, and some of those before. -/
theorem running_of_makes (h : m.Makes id c m') {id' : Bytes} (hc' : Running m' id' c') :
    (id' = id ∧ c' = c) ∨ id' ≠ id ∧ ∃ c₀, Running m id' c₀ ∧ c₀.Later c' := by
  obtain ⟨rest, hmoves, -, -, rfl⟩ := h
  obtain ⟨hlook, hretained⟩ := Option.filter_eq_some_iff.1 hc'.1
  rw [Map.lookup_insert'] at hlook
  split_ifs at hlook with heq
  · cases hlook
    exact .inl ⟨heq, rfl⟩
  · exact .inr ⟨heq,
      running_of_moves hmoves ⟨Option.filter_eq_some_iff.2 ⟨hlook, hretained⟩, hc'.2⟩⟩

/-- The sessions of a user do not run after `StopUser`. -/
theorem running_stopUser {user : Bytes} {m : Manager} (h : Running (m.stopUser user) id c) :
    Running m id c ∧ c.user ≠ user := by
  obtain ⟨hlook, hretained⟩ := Option.filter_eq_some_iff.1 h.1
  rw [Manager.stopUser, Manager.lookup_update, Option.map_eq_some_iff] at hlook
  obtain ⟨c₀, hc₀, hc⟩ := hlook
  split_ifs at hc with hstop
  · rw [← hc] at h
    exact absurd h.2 (DebugCapture.Session.stop_state_ne _ _)
  · subst hc
    exact ⟨⟨Option.filter_eq_some_iff.2 ⟨hc₀, hretained⟩, h.2⟩, fun hu => hstop ⟨hretained, hu⟩⟩

theorem sessions_of_new {m : Manager} (h : NewCapture w m) : m.sessions = ∅ := by
  unfold NewCapture at h
  split at h
  · exact h
  · simp only [Manager.new] at h
    split at h
    · cases h
    · cases h
      rfl

variable {w : Setup} {i : ℕ} {s s' : Web}

/-! ### The bounds of the manager -/

/-- The manager retains at most eight sessions, and runs no more than it has slots. -/
def Bounded (m : Manager) : Prop := m.len ≤ 8 ∧ m.active ≤ m.config.slots

theorem bounded_of_moves (h : m.Moves t m') (hm : Bounded m) :
    Bounded m' := by
  refine ⟨h.len_le.trans hm.1, ?_⟩
  rw [h.config]
  exact le_trans (Int.ofNat_le.2 h.active_le) hm.2

theorem bounded_of_makes (h : m.Makes id c m') (hid : m.sessions.lookup id = none)
    (hport : m.config.firstPort = 0) :
    Bounded m' := by
  obtain ⟨rest, hmoves, hlen, hactive, rfl⟩ := h
  have hnew : rest.sessions.lookup id = none := by
    refine Option.eq_none_iff_forall_ne_some.2 fun c' hc' => ?_
    obtain ⟨c₀, hc₀, -⟩ := hmoves.old id c' hc'
    rw [hid] at hc₀
    cases hc₀
  have hslots := hactive hport
  rw [← hmoves.config] at hslots
  unfold Manager.len at hlen
  unfold Manager.active at hslots
  constructor
  · rw [Manager.len, Map.count_insert_of_lookup_none hnew]
    split_ifs <;> omega
  · rw [Manager.active, Map.count_insert_of_lookup_none hnew]
    split_ifs
    · push_cast
      omega
    · push_cast
      omega

theorem keys_of_moves (h : m.Moves t m') (hc' : m'.sessions.lookup id = some c') :
    ∃ c, m.sessions.lookup id = some c := by
  obtain ⟨c, hc, -⟩ := h.old id c' hc'
  exact ⟨c, hc⟩

/-- The keys of the sessions were drawn, the configuration is the one given, and the
    sessions are bounded. -/
structure Within (w : Setup) (s : Web) : Prop where
  drawn : ∀ id c, s.capture.sessions.lookup id = some c → id ∈ s.drawn
  unused : w.config.capture = none → s.capture.sessions = ∅
  config : ∀ c, w.config.capture = some c → s.capture.config = c
  bounded : ∀ c, w.config.capture = some c → c.firstPort = 0 → Bounded s.capture

theorem Within.moves (h : Within w s) {m' : Manager} (hm : s.capture.Moves t m')
    (hcapture : s'.capture = m') (hdrawn : s.drawn ⊆ s'.drawn) : Within w s' where
  drawn id c hc := by
    rw [hcapture] at hc
    obtain ⟨c₀, hc₀⟩ := keys_of_moves hm hc
    exact hdrawn (h.drawn id c₀ hc₀)
  unused hnone := by
    rw [hcapture]
    refine Finmap.ext_lookup fun id => ?_
    rw [Finmap.lookup_empty]
    refine Option.eq_none_iff_forall_ne_some.2 fun c' hc' => ?_
    obtain ⟨c, hc⟩ := keys_of_moves hm hc'
    rw [h.unused hnone, Finmap.lookup_empty] at hc
    cases hc
  config c hc := by rw [hcapture, hm.config, h.config c hc]
  bounded c hc hport := by
    rw [hcapture]
    exact bounded_of_moves hm (h.bounded c hc hport)

theorem Within.capture (h : Within w s) {c : DebugCapture.Call} {r : Except Error Bytes}
    (hconfigured : w.config.capture ≠ none) (hexec : exec w i (.capture c) s r s') : Within w s' := by
  obtain ⟨random, hfresh, -, rfl⟩ := hexec
  rcases Manager.apply_cases c s.now random s.capture with
    hmoves | ⟨_, _, _, c₀, -, -, hmakes, -⟩
  · exact h.moves hmoves rfl (by simp)
  · have hnew : s.capture.sessions.lookup random = none :=
      Option.eq_none_iff_forall_ne_some.2 fun c hc => hfresh.2 (h.drawn random c hc)
    refine ⟨fun id c hc => ?_, fun hnone => absurd hnone hconfigured, fun c hc => ?_,
      fun c hc hport => ?_⟩
    · obtain ⟨rest, hmoves, -, -, hm⟩ := hmakes
      simp only [hm] at hc
      rw [Map.lookup_insert'] at hc
      split_ifs at hc with heq
      · exact heq ▸ List.mem_cons_self
      · obtain ⟨c₁, hc₁⟩ := keys_of_moves hmoves hc
        exact List.mem_cons_of_mem _ (h.drawn id c₁ hc₁)
    · obtain ⟨rest, hmoves, -, -, hm⟩ := hmakes
      simp only [hm]
      rw [hmoves.config, h.config c hc]
    · exact bounded_of_makes hmakes hnew (by rw [h.config c hc, hport])

theorem Within.new {m : Manager} (h : NewCapture w m) (hcapture : s.capture = m) : Within w s := by
  unfold NewCapture at h
  cases hc : w.config.capture with
  | none =>
    rw [hc] at h
    refine ⟨fun id c hl => ?_, fun _ => ?_, fun c hc' => ?_, fun c hc' => ?_⟩
    · rw [hcapture, show m.sessions = ∅ from h, Finmap.lookup_empty] at hl
      cases hl
    · rw [hcapture]
      exact h
    · rw [hc] at hc'
      cases hc'
    · rw [hc] at hc'
      cases hc'
  | some c₀ =>
    rw [hc] at h
    simp only [Manager.new] at h
    split at h
    · cases h
    · rename_i hvalid
      cases h
      refine ⟨fun id c hl => ?_, fun hn => ?_, fun c hc' => ?_, fun c hc' _ => ?_⟩
      · rw [hcapture, Finmap.lookup_empty] at hl
        cases hl
      · rw [hc] at hn
        cases hn
      · rw [hcapture]
        exact Option.some.inj (hc.symm.trans hc')
      · rw [hcapture]
        refine ⟨Nat.zero_le _, ?_⟩
        have hslots : 1 ≤ c₀.slots := by
          unfold DebugCapture.Config.validate at hvalid
          split_ifs at hvalid with hbad
          simp only [not_or, not_lt] at hbad
          exact hbad.2.2.1
        change ((0 : ℕ) : ℤ) ≤ c₀.slots
        push_cast
        exact le_trans zero_le_one hslots

end Captures

end QuicLab.Admin.Web
