import QuicLab.DebugCapture.WellFormed

/-!
# TLS secrets reach the captures of their own listener only

Two runs are compared, as far as a session `id` can see them (`Recordings.Alike`). They
take the same calls, with the same results, the same packets and the same writes of
secrets, except for the bytes of those writes that the session does not hear: it is not
running, or it listens on another port, or it belongs to a user. Steps that concern
other sessions only may be taken by either run alone.

* `Recordings.Same`: what the two runs have in common, the session, its viewer, and the
  bytes of the writes that are on their way to it;
* `same_of_alike`: it is kept by every step;
* `Recordings.Private`: no secrets are on their way to the session of a user.

`keys_isolated` puts both together.
-/

namespace QuicLab.DebugCapture

open Go

/-- The write is on its way to the session. -/
def KeyWrite.Reaches (id : Bytes) (t : KeyWrite) : Prop :=
  id ∈ t.targets ∨ t.emitting = some id

namespace Recordings

variable {id : Bytes} {w w' v v' : Recordings}

/-! ### Two runs -/

/-- The step concerns another session only. -/
def Label.Elsewhere (id : Bytes) : Label → Prop
  | .call (.record id' _) _ _ _ _ => id ≠ id'
  | .call (.ticket id') _ _ _ _ => id ≠ id'
  | .call (.redeem id' _) _ _ _ _ => id ≠ id'
  | .call (.attach id' _) _ _ _ _ => id ≠ id'
  | .call (.drop id') _ _ _ _ => id ≠ id'
  | .packetAt id' _ _ _ _ => id ≠ id'
  | .keyWrite _ id' _ => id ≠ id'
  | .keyEmit _ id' _ => id ≠ id'
  | .view id' _ => id ≠ id'
  | _ => False

/-- The session `id` hears the listener. -/
def Hears (id : Bytes) (port : ℤ) (udp : Bool) (w : Recordings) : Prop :=
  ∃ s, w.session id = some s ∧ s.Hears port udp

/-- Two runs that differ, for the session `id`, in the bytes of writes that it does not hear
    only. -/
inductive Alike (id : Bytes) : Recordings → Recordings → Prop
  | new (c : Config) : Alike id (new c) (new c)
  /-- Both take the same step. -/
  | both {w w' v v' : Recordings} {a : Label} : Alike id w v → w.step a = some w' →
      v.step a = some v' → Alike id w' v'
  /-- The same listener writes secrets. -/
  | keyLog {w w' v v' : Recordings} {port : ℤ} {udp : Bool} {p q : Bytes}
      {selected selected' : List Bytes} : Alike id w v →
      w.step (.keyLog port udp p selected) = some w' →
      v.step (.keyLog port udp q selected') = some v' → (w.Hears id port udp → p = q) →
      Alike id w' v'
  /-- The same write goes on to the session. -/
  | keyWrite {w w' v v' : Recordings} {i : ℕ} {p q : Bytes} : Alike id w v →
      w.step (.keyWrite i id p) = some w' → v.step (.keyWrite i id q) = some v' → Alike id w' v'
  /-- One of them takes a step elsewhere. -/
  | first {w w' v : Recordings} {a : Label} : Alike id w v → a.Elsewhere id →
      w.step a = some w' → Alike id w' v
  | second {w v v' : Recordings} {a : Label} : Alike id w v → a.Elsewhere id →
      v.step a = some v' → Alike id w v'

/-! ### What they have in common -/

/-- What the runs have in common. -/
structure Same (id : Bytes) (w v : Recordings) : Prop where
  session : w.session id = v.session id
  closing : w.manager.closing = v.manager.closing
  viewer : w.viewers id = v.viewers id
  length : w.writes.length = v.writes.length
  bytes : ∀ (i : ℕ) (t u : KeyWrite), w.writes[i]? = some t → v.writes[i]? = some u →
    t.Reaches id → t.p = u.p

/-- A step that does not concern the session: no write comes nearer to it. -/
structure Untouched (id : Bytes) (w w' : Recordings) : Prop where
  session : w'.session id = w.session id
  closing : w'.manager.closing = w.manager.closing
  viewer : w'.viewers id = w.viewers id
  length : w'.writes.length = w.writes.length
  writes : ∀ (i : ℕ) (t' : KeyWrite), w'.writes[i]? = some t' →
    ∃ t, w.writes[i]? = some t ∧ t'.p = t.p ∧ (t'.Reaches id → t.Reaches id)

theorem Same.first (h : Same id w v) (hw : Untouched id w w') : Same id w' v where
  session := hw.session.trans h.session
  closing := hw.closing.trans h.closing
  viewer := hw.viewer.trans h.viewer
  length := hw.length.trans h.length
  bytes i t' u ht' hu hreach := by
    obtain ⟨t, ht, hp, hr⟩ := hw.writes i t' ht'
    rw [hp]
    exact h.bytes i t u ht hu (hr hreach)

theorem Same.second (h : Same id w v) (hv : Untouched id v v') : Same id w v' where
  session := h.session.trans hv.session.symm
  closing := h.closing.trans hv.closing.symm
  viewer := h.viewer.trans hv.viewer.symm
  length := h.length.trans hv.length.symm
  bytes i t u' ht hu' hreach := by
    obtain ⟨u, hu, hp, -⟩ := hv.writes i u' hu'
    rw [hp]
    exact h.bytes i t u ht hu hreach

/-- One write is replaced. -/
theorem getElem?_set_cases {l : List KeyWrite} {i j : ℕ} {t t' : KeyWrite}
    (h : (l.set j t)[i]? = some t') : i = j ∧ t' = t ∨ l[i]? = some t' := by
  rw [List.getElem?_set] at h
  split_ifs at h with hij hlt
  · exact .inl ⟨hij.symm, (Option.some.inj h).symm⟩
  · exact .inr h

/-- Only the end of the server's context closes the manager. -/
theorem closing_apply {c : Call} (hc : c ≠ .close) (now : Time) (random : Bytes) (m : Manager) :
    (m.apply c now random).2.closing = m.closing := by
  cases c with
  | start owner kind user startup =>
    rw [Manager.apply, Manager.start]
    split_ifs
    · rfl
    · rfl
    · rfl
    · dsimp only
      split_ifs
      · rfl
      · split
        · rfl
        · cases startup <;> rfl
  | startUser owner user iface ip visited =>
    rw [Manager.apply, Manager.startUser]
    split_ifs
    · rfl
    · rfl
    · rfl
    · dsimp only
      split_ifs <;> rfl
  | ticket id' =>
    rw [Manager.apply, Manager.ticket]
    split <;> rfl
  | redeem id' t =>
    rw [Manager.apply, Manager.redeem]
    split <;> rfl
  | attach id' token =>
    rw [Manager.apply, Manager.attach]
    split <;> rfl
  | close => exact absurd rfl hc
  | _ => rfl

theorem Label.Elsewhere.not_close {c : Call} {now : Time} {random : Bytes}
    {result : Except Error Bytes} {ports : ℤ × ℤ}
    (h : Label.Elsewhere id (.call c now random result ports)) : c ≠ .close := by
  rintro rfl
  exact h

/-- A call that concerns another session has no effect on this one. -/
theorem Label.Elsewhere.effect {c : Call} {now : Time} {random : Bytes}
    {result : Except Error Bytes} {ports : ℤ × ℤ}
    (h : Label.Elsewhere id (.call c now random result ports)) (result' : Except Error Bytes)
    (ports' : ℤ × ℤ) (closing : Bool) (o : Option Session) :
    c.effect now random result' ports' closing id o = o := by
  have elsewhere : ∀ {id' : Bytes} {f : Session → Session} {q : Session → Prop}
      [DecidablePred q], id ≠ id' →
      (o.map fun s => if id = id' ∧ q s then f s else s) = o := by
    intro id' f q _ hne
    simp [hne]
  have elsewhere' : ∀ {id' : Bytes} {f : Session → Session}, id ≠ id' →
      (o.map fun s => if id = id' then f s else s) = o := by
    intro id' f hne
    simp [hne]
  cases c with
  | record id' e => exact elsewhere' h
  | ticket id' => exact elsewhere' h
  | redeem id' t => exact elsewhere h
  | attach id' token => exact elsewhere h
  | drop id' => exact elsewhere' h
  | _ => exact h.elim

theorem untouched_of_elsewhere {a : Label} (ha : a.Elsewhere id) (h : w.step a = some w') :
    Untouched id w w' := by
  have kept : ∀ {m : Manager}, m.sessions.lookup id = w.manager.sessions.lookup id →
      m.closing = w.manager.closing → Untouched id w { w with manager := m } :=
    fun hs hc => ⟨hs, hc, rfl, rfl, fun i t ht => ⟨t, ht, rfl, fun h => h⟩⟩
  have modified : ∀ {id' : Bytes} (f : Session → Session), id ≠ id' →
      (w.manager.modify id' f).sessions.lookup id = w.manager.sessions.lookup id := by
    intro id' f hne
    rw [Manager.lookup_modify]
    simp [hne]
  cases a with
  | call c now random result ports =>
    obtain ⟨-, -, -, rfl⟩ := step_call h
    refine kept ?_ (closing_apply ha.not_close now random _)
    rw [Manager.lookup_apply]
    exact ha.effect _ _ _ _
  | packetAt id' p comment us now =>
    cases h
    exact kept (modified _ ha) rfl
  | keyLog port udp p selected => exact ha.elim
  | write id' p => exact ha.elim
  | keyWrite i id' p =>
    obtain ⟨targets, s, hw, -, rfl⟩ := step_keyWrite h
    refine ⟨modified _ ha, rfl, rfl, List.length_set, fun j t ht => ?_⟩
    rcases getElem?_set_cases ht with ⟨rfl, rfl⟩ | ht
    · refine ⟨_, hw, rfl, fun hreach => .inl (List.mem_cons_of_mem _ ?_)⟩
      rcases hreach with hmem | hemit
      · exact hmem
      · dsimp only at hemit
        split_ifs at hemit
        exact absurd (Option.some.inj hemit).symm ha
    · exact ⟨t, ht, rfl, fun h => h⟩
  | keyEmit i id' now =>
    obtain ⟨p, targets, hw, rfl⟩ := step_keyEmit h
    refine ⟨modified _ ha, rfl, rfl, List.length_set, fun j t ht => ?_⟩
    rcases getElem?_set_cases ht with ⟨rfl, rfl⟩ | ht
    · refine ⟨_, hw, rfl, fun hreach => .inl ?_⟩
      rcases hreach with hmem | hemit
      · exact hmem
      · cases hemit
    · exact ⟨t, ht, rfl, fun h => h⟩
  | view id' b =>
    obtain ⟨s, t, -, -, -, -, rfl⟩ := step_view h
    exact ⟨rfl, rfl, Function.update_of_ne ha _ _, rfl, fun i t ht => ⟨t, ht, rfl, fun h => h⟩⟩

/-! ### Steps of both -/

/-- The sessions that a listener selects hear it. -/
theorem hears_of_mem_listening {port : ℤ} {udp : Bool}
    (h : id ∈ w.manager.listening port udp) : w.Hears id port udp := by
  rw [Manager.listening, Multiset.mem_map] at h
  obtain ⟨⟨id', s⟩, hs, rfl⟩ := h
  obtain ⟨hs, hheard⟩ := Multiset.mem_filter.1 hs
  exact ⟨s, Finmap.lookup_eq_some_iff.2 hs, hheard.2⟩

/-- A write is begun in both. -/
theorem Same.begun (h : Same id w v) {t u : KeyWrite} (htu : t.Reaches id → t.p = u.p) :
    Same id { w with writes := w.writes ++ [t] } { v with writes := v.writes ++ [u] } := by
  refine ⟨h.session, h.closing, h.viewer, by simp [h.length], ?_⟩
  intro i t' u' ht' hu' hreach
  rcases Nat.lt_or_ge i w.writes.length with hi | hi
  · rw [List.getElem?_append_left hi] at ht'
    rw [List.getElem?_append_left (h.length ▸ hi)] at hu'
    exact h.bytes i t' u' ht' hu' hreach
  · rw [List.getElem?_append_right hi] at ht'
    rw [List.getElem?_append_right (h.length ▸ hi)] at hu'
    obtain rfl := List.mem_singleton.1 (List.mem_of_getElem? ht')
    obtain rfl := List.mem_singleton.1 (List.mem_of_getElem? hu')
    exact htu hreach

/-- A write goes on in both. -/
theorem Same.went_on (h : Same id w v) {m n : Manager} {i : ℕ} {t u : KeyWrite}
    (hs : m.sessions.lookup id = n.sessions.lookup id) (hc : m.closing = n.closing)
    (htu : t.Reaches id → t.p = u.p) :
    Same id { w with manager := m, writes := w.writes.set i t }
      { v with manager := n, writes := v.writes.set i u } := by
  refine ⟨hs, hc, h.viewer, by simp [h.length], ?_⟩
  intro j t' u' ht' hu' hreach
  simp only [List.getElem?_set] at ht' hu'
  split_ifs at ht' hu' with hij hlt hlt'
  · cases ht'
    cases hu'
    exact htu hreach
  · exact h.bytes j t' u' ht' hu' hreach

/-- The same change to a session in both. -/
theorem Same.modify (h : Same id w v) (id' : Bytes) (f : Session → Session) :
    (w.manager.modify id' f).sessions.lookup id = (v.manager.modify id' f).sessions.lookup id := by
  rw [Manager.lookup_modify, Manager.lookup_modify]
  exact congrArg (Option.map _) h.session

theorem Same.both {a : Label} (h : Same id w v) (hw : w.step a = some w')
    (hv : v.step a = some v') : Same id w' v' := by
  cases a with
  | call c now random result ports =>
    obtain ⟨-, hresult, hports, rfl⟩ := step_call hw
    obtain ⟨-, hresult', hports', rfl⟩ := step_call hv
    refine ⟨?_, ?_, h.viewer, h.length, h.bytes⟩
    · -- The call returns the same in both, so it has the same effect.
      simp only [Recordings.session, Manager.lookup_apply]
      rw [hresult, hresult', hports, hports', h.closing]
      exact congrArg _ h.session
    · by_cases hc : c = .close
      · subst hc
        rfl
      · exact (closing_apply hc now random _).trans
          (h.closing.trans (closing_apply hc now random _).symm)
  | packetAt id' p comment us now =>
    cases hw
    cases hv
    exact ⟨h.modify id' _, h.closing, h.viewer, h.length, h.bytes⟩
  | keyLog port udp p selected =>
    obtain ⟨-, rfl⟩ := step_keyLog hw
    obtain ⟨-, rfl⟩ := step_keyLog hv
    exact h.begun fun _ => rfl
  | write id' p =>
    cases hw
    cases hv
    exact h.begun fun _ => rfl
  | keyWrite i id' p =>
    obtain ⟨targets, s, -, -, rfl⟩ := step_keyWrite hw
    obtain ⟨targets', s', -, -, rfl⟩ := step_keyWrite hv
    exact h.went_on (h.modify id' _) h.closing fun _ => rfl
  | keyEmit i id' now =>
    obtain ⟨p, targets, hp, rfl⟩ := step_keyEmit hw
    obtain ⟨q, targets', hq, rfl⟩ := step_keyEmit hv
    refine h.went_on ?_ h.closing fun hreach => ?_
    · by_cases hid : id' = id
      · obtain rfl : p = q := h.bytes i _ _ hp hq (.inr (congrArg some hid))
        exact h.modify id' _
      · rw [Manager.lookup_modify, Manager.lookup_modify]
        simp only [Ne.symm hid, if_false]
        exact congrArg (Option.map _) h.session
    · rcases hreach with hmem | hemit
      · have hpq := h.bytes i _ _ hp hq (.inl hmem)
        exact hpq
      · cases hemit
  | view id' b =>
    obtain ⟨s, t, hs, -, -, hact, rfl⟩ := step_view hw
    obtain ⟨s', t', hs', -, -, hact', rfl⟩ := step_view hv
    refine ⟨h.session, h.closing, ?_, h.length, h.bytes⟩
    by_cases hid : id = id'
    · subst hid
      obtain rfl := Option.some.inj (hs.symm.trans (h.session.trans hs'))
      rw [stream, h.viewer] at hact
      cases hact.symm.trans hact'
      simp only [Function.update_self]
    · simp only [Function.update_of_ne hid]
      exact h.viewer

theorem same_of_alike (h : Alike id w v) : Same id w v := by
  induction h with
  | new c =>
    exact ⟨rfl, rfl, rfl, rfl, fun i t u ht => absurd (List.mem_of_getElem? ht) List.not_mem_nil⟩
  | both _ hw hv ih => exact ih.both hw hv
  | keyLog _ hw hv hp ih =>
    obtain ⟨hselected, rfl⟩ := step_keyLog hw
    obtain ⟨-, rfl⟩ := step_keyLog hv
    refine ih.begun fun hreach => hp (hears_of_mem_listening ?_)
    rw [← hselected]
    rcases hreach with hmem | hemit
    · exact hmem
    · cases hemit
  | keyWrite _ hw hv ih =>
    -- The write was on its way to the session, so the bytes are the same.
    obtain ⟨targets, _, hp, -, -⟩ := step_keyWrite hw
    obtain ⟨targets', _, hq, -, -⟩ := step_keyWrite hv
    obtain rfl := ih.bytes _ _ _ hp hq (.inl List.mem_cons_self)
    exact ih.both hw hv
  | first _ ha hw ih => exact ih.first (untouched_of_elsewhere ha hw)
  | second _ ha hv ih => exact ih.second (untouched_of_elsewhere ha hv)

/-! ### The captures of users -/

/-- Secrets are written by the listeners only. -/
def Label.FromListeners : Label → Prop
  | .write _ _ => False
  | _ => True

/-- No secrets are on their way to the session of a user, nor have any been recorded. -/
structure Private (w : Recordings) : Prop where
  reaches : ∀ t ∈ w.writes, ∀ id, t.Reaches id → ∃ s, w.session id = some s ∧ s.user = []
  recorded : ∀ id s, w.session id = some s → s.user ≠ [] →
    s.keyLines = [] ∧ s.Formed PacketBlock
  viewer : ∀ id s, w.session id = some s → s.user ≠ [] →
    Stream.withSecrets (w.viewers id).1 = false ∧ ∀ b, .secret b ∉ (w.viewers id).2

/-- A session keeps its user. -/
theorem user_step {a : Label} (h : w.step a = some w') {s s' : Session}
    (hs : w.session id = some s) (hs' : w'.session id = some s') : s'.user = s.user := by
  rcases step_session h hs' with ⟨hnone, -⟩ | ⟨t, ht, hstill | ⟨e, -, rfl⟩⟩
  · rw [hnone] at hs
    cases hs
  · cases hs.symm.trans ht
    exact hstill.user
  · cases hs.symm.trans ht
    exact (s.quiet_after e).user

/-- The writes of a step are those that were under way, gone on, and what a listener
    begins to write to the sessions that hear it. -/
theorem reaches_step {a : Label} (ha : a.FromListeners) (h : w.step a = some w') {t' : KeyWrite}
    (ht' : t' ∈ w'.writes) (hreach : t'.Reaches id) :
    (∃ t ∈ w.writes, t.Reaches id) ∨ ∃ port udp, w.Hears id port udp := by
  cases a with
  | call c now random result ports =>
    obtain ⟨-, -, -, rfl⟩ := step_call h
    exact .inl ⟨t', ht', hreach⟩
  | packetAt id' p comment us now =>
    cases h
    exact .inl ⟨t', ht', hreach⟩
  | keyLog port udp p selected =>
    obtain ⟨hselected, rfl⟩ := step_keyLog h
    rcases List.mem_append.1 ht' with ht' | ht'
    · exact .inl ⟨t', ht', hreach⟩
    · obtain rfl := List.mem_singleton.1 ht'
      refine .inr ⟨port, udp, hears_of_mem_listening ?_⟩
      rw [← hselected]
      rcases hreach with hmem | hemit
      · exact hmem
      · cases hemit
  | write id' p => exact ha.elim
  | keyWrite i id' p =>
    obtain ⟨targets, s, hw, -, rfl⟩ := step_keyWrite h
    rcases List.mem_or_eq_of_mem_set ht' with ht' | rfl
    · exact .inl ⟨t', ht', hreach⟩
    · refine .inl ⟨_, List.mem_of_getElem? hw, .inl ?_⟩
      rcases hreach with hmem | hemit
      · exact List.mem_cons_of_mem _ hmem
      · dsimp only at hemit
        split_ifs at hemit
        exact List.mem_cons.2 (.inl (Option.some.inj hemit).symm)
  | keyEmit i id' now =>
    obtain ⟨p, targets, hw, rfl⟩ := step_keyEmit h
    rcases List.mem_or_eq_of_mem_set ht' with ht' | rfl
    · exact .inl ⟨t', ht', hreach⟩
    · refine .inl ⟨_, List.mem_of_getElem? hw, .inl ?_⟩
      rcases hreach with hmem | hemit
      · exact hmem
      · cases hemit
  | view id' b =>
    obtain ⟨s, t, -, -, -, -, rfl⟩ := step_view h
    exact .inl ⟨t', ht', hreach⟩

/-- What the session of a user is fed are packets. -/
theorem Private.fed (h : w.Private) {a : Label} (hg : a.Genuine) {s : Session}
    (hs : w.session id = some s) (huser : s.user ≠ []) {e : Session.Event} (he : w.Feeds id a e) :
    e.isWrite = false ∧ e.Formed PacketBlock := by
  have unreached : ∀ {t : KeyWrite}, t ∈ w.writes → ¬ t.Reaches id := by
    intro t ht hreach
    obtain ⟨s', hs', huser'⟩ := h.reaches t ht id hreach
    cases hs.symm.trans hs'
    exact huser huser'
  cases he with
  | record he => exact ⟨he, hg.formed⟩
  | packetAt _ hp =>
    exact ⟨rfl, _, ⟨fits_commentBlock hp hg.1 _, rfl⟩, commentedBlock_eq _ _ _⟩
  | keyWrite hw => exact absurd (.inl List.mem_cons_self) (unreached (List.mem_of_getElem? hw))
  | keyEmit hw => exact absurd (.inr rfl) (unreached (List.mem_of_getElem? hw))

theorem Private.step (h : w.Private) (hviewed : w.Viewed) {a : Label} (hg : a.Genuine)
    (ha : a.FromListeners) (hstep : w.step a = some w') : w'.Private := by
  refine ⟨fun t' ht' id hreach => ?_, fun id s' hs' huser => ?_, fun id s' hs' huser => ?_⟩
  · obtain ⟨s, hs, huser⟩ : ∃ s, w.session id = some s ∧ s.user = [] := by
      rcases reaches_step ha hstep ht' hreach with ⟨t, ht, hr⟩ | ⟨port, udp, s, hs, hheard⟩
      · exact h.reaches t ht id hr
      · exact ⟨s, hs, hheard.1⟩
    obtain ⟨s', hs'⟩ := step_kept hstep hs
    exact ⟨s', hs', (user_step hstep hs hs').trans huser⟩
  · rcases step_session hstep hs' with
      ⟨-, c, now, random, result, ports, events, rfl, hc, hmade, hw⟩ | ⟨s, hs, hs''⟩
    · exact ⟨hmade.keyLines hw, hmade.formed fun e he => (hg.startup hc e he).formed⟩
    · rw [user_step hstep hs hs'] at huser
      obtain ⟨hkeys, hformed⟩ := h.recorded id s hs huser
      rcases hs'' with hstill | ⟨e, he, rfl⟩
      · exact ⟨hstill.keyLines.trans hkeys, hformed.of_blocks hstill.blocks⟩
      · obtain ⟨hw, hpacket⟩ := h.fed hg hs huser he
        exact ⟨(Session.keyLines_after_of_not_write hw s).trans hkeys, hformed.after hpacket⟩
  · cases hs : w.session id with
    | none =>
      -- The session was made in this step, and it has no viewer yet.
      have hview : ∀ id' b, a ≠ .view id' b := by
        rintro id' b rfl
        obtain ⟨-, -, -, -, -, -, -, hsession⟩ := step_view_cases hstep
        rw [hsession, hs] at hs'
        cases hs'
      rw [step_viewers hstep hview, hviewed.idle id hs]
      exact ⟨rfl, fun b => List.not_mem_nil⟩
    | some s =>
      rw [user_step hstep hs hs'] at huser
      obtain ⟨hquiet, hsent⟩ := h.viewer id s hs huser
      by_cases hview : ∀ id' b, a ≠ .view id' b
      · rw [step_viewers hstep hview]
        exact ⟨hquiet, hsent⟩
      · push Not at hview
        obtain ⟨id', b, rfl⟩ := hview
        obtain ⟨s₁, t, hs₁, hsecret, -, hself, hother, -⟩ := step_view_cases hstep
        by_cases hid : id = id'
        · subst hid
          cases hs.symm.trans hs₁
          rw [hself]
          exact hsecret.quiet (h.recorded id s hs huser).1 hquiet hsent
        · rw [hother id hid]
          exact ⟨hquiet, hsent⟩

theorem private_of_run {as : List Label} (h : system.Run as w)
    (hg : ∀ a ∈ as, a.Genuine ∧ a.FromListeners) : w.Private := by
  induction h with
  | init h =>
    obtain ⟨c, rfl⟩ := h
    exact ⟨List.forall_mem_nil _, (fun id s hs => by cases hs),
      fun id s hs => by cases hs⟩
  | @step as w w' a hrun hstep ih =>
    have ha := hg a (by simp)
    exact (ih fun b hb => hg b (List.mem_append_left [a] hb)).step (viewed_of_run hrun) ha.1 ha.2
      hstep

/-- The messages to the viewer of a user's session hold no secrets. -/
theorem Private.messages (h : w.Private) (hviewed : w.Viewed) {s : Session}
    (hs : w.session id = some s) (huser : s.user ≠ []) {m : Message} (hm : m ∈ (w.viewers id).2) :
    ∃ bs, Pcapng.split m.bytes = some bs ∧ ∀ b ∈ bs, b.kind ≠ 10 := by
  obtain ⟨_, hinv⟩ := hviewed.known id s hs
  obtain ⟨link, bs, hblocks, hbs⟩ := (h.recorded id s hs huser).2
  cases m with
  | secret b => exact absurd hm ((h.viewer id s hs huser).2 b)
  | block b =>
    have hsent : b ∈ s.blocks :=
      hinv.ok.sentBlocks_isPrefix.subset (List.mem_filterMap.2 ⟨.block b, hm, rfl⟩)
    rw [hblocks, List.mem_cons, List.mem_map] at hsent
    rcases hsent with rfl | ⟨x, hx, rfl⟩
    · have hfits : ∀ b ∈ [headerBlock, interfaceBlock link], b.Fits := by
        simp only [List.forall_mem_cons]
        exact ⟨fits_headerBlock, fits_interfaceBlock link, List.forall_mem_nil _⟩
      refine ⟨[headerBlock, interfaceBlock link], ?_, ?_⟩
      · rw [← Pcapng.split_flatMap hfits, Message.bytes, sectionHeader_eq]
        simp only [List.flatMap_cons, List.flatMap_nil, List.append_nil]
      · simp [headerBlock, interfaceBlock]
    · obtain ⟨hfits, hkind⟩ := hbs x hx
      refine ⟨[x], ?_, ?_⟩
      · have hall : ∀ b ∈ [x], b.Fits := by simpa using hfits
        rw [← Pcapng.split_flatMap hall, Message.bytes]
        simp only [List.flatMap_cons, List.flatMap_nil, List.append_nil]
      · simp [hkind]

/-- TLS secrets reach the captures of their own listener only. In two runs that differ in
    the bytes of writes that the session `id` does not hear only, the session, with its
    blocks and its keys, and what its viewer gets are the same, and so is every download,
    of the blocks at one moment and the keys at another. The session of a user hears no
    listener at all: it has no keys, and no block of secrets but the empty one of its
    download. -/
theorem keys_isolated (id : Bytes) :
    (∀ w v, Alike id w v → w.session id = v.session id ∧ w.viewers id = v.viewers id) ∧
    (∀ w v w₁ v₁ s s₁, Alike id w v → Alike id w₁ v₁ → w.session id = some s →
      w₁.session id = some s₁ → ∃ t t₁, v.session id = some t ∧ v₁.session id = some t₁ ∧
        download t.blocks t₁.keyLines = download s.blocks s₁.keyLines) ∧
    ∀ as w s, system.Run as w → (∀ a ∈ as, a.Genuine ∧ a.FromListeners) →
      w.session id = some s → s.user ≠ [] →
      (∀ port udp, ¬ w.Hears id port udp) ∧ s.keyLines = [] ∧
      (∃ link bs, Pcapng.split (download s.blocks s.keyLines) =
        some (headerBlock :: interfaceBlock link :: secretsBlock [] :: bs) ∧
        ∀ b ∈ bs, b.kind ≠ 10) ∧
      ∀ m ∈ (w.viewers id).2, ∃ bs, Pcapng.split m.bytes = some bs ∧ ∀ b ∈ bs, b.kind ≠ 10 := by
  refine ⟨fun w v h => ?_, fun w v w₁ v₁ s s₁ h h₁ hs hs₁ => ?_, fun as w s h hg hs huser => ?_⟩
  · exact ⟨(same_of_alike h).session, (same_of_alike h).viewer⟩
  · rw [(same_of_alike h).session] at hs
    rw [(same_of_alike h₁).session] at hs₁
    exact ⟨s, s₁, hs, hs₁, rfl⟩
  · have hprivate := private_of_run h hg
    obtain ⟨hkeys, hformed⟩ := hprivate.recorded id s hs huser
    refine ⟨?_, hkeys, ?_, fun m hm => hprivate.messages (viewed_of_run h) hs huser hm⟩
    · rintro port udp ⟨s', hs', hheard⟩
      obtain rfl := Option.some.inj (hs.symm.trans hs')
      exact huser hheard.1
    · have hshort : s.keyLines.length ≤ 2 ^ 20 := by simp [hkeys]
      obtain ⟨link, bs, -, hbs, -, hsplit⟩ := split_download (fun _ hb => hb.1) hformed hshort
      rw [hkeys] at hsplit ⊢
      refine ⟨link, bs, hsplit, fun b hb => ?_⟩
      rw [(hbs b hb).2]
      decide

/-- A capture of the listeners on the port 4000 is started. -/
def sampleStart : Label :=
  .call (.start [7] (str "vpn") [] (.ready 1 0 [])) 0 [1] (.ok [1]) (4000, 4000)

/-- Then a listener on another port writes secrets. -/
theorem sampleStart_alike : ∃ w v : Recordings, Alike [1] w v ∧ (∃ s, w.session [1] = some s) ∧
    w.writes.map (·.p) = [[7]] ∧ v.writes.map (·.p) = [[8, 9]] := by
  have h : Alike [1] _ _ := .new ⟨str "eth0", 4000, ∅, 2, str "/usr/sbin/tcpdump"⟩
  have h₁ := h.both (a := sampleStart) rfl rfl
  have h₂ := h₁.keyLog (show step _ (.keyLog 5000 true [7] []) = some _ from rfl)
    (show step _ (.keyLog 5000 true [8, 9] []) = some _ from rfl) ?_
  · exact ⟨_, _, h₂, ⟨_, rfl⟩, rfl, rfl⟩
  · rintro ⟨s, hs, -, -, ⟨-, hport⟩ | ⟨hudp, -⟩⟩
    · cases hs
      exact absurd hport (by decide)
    · cases hudp

/-- The session of the sample does not depend on what the other listener writes, and the
    session of a user has no keys. -/
theorem keys_isolated_sample :
    (∃ w v : Recordings, w.writes.map (·.p) ≠ v.writes.map (·.p) ∧
      (∃ s, w.session [1] = some s) ∧ w.session [1] = v.session [1]) ∧
    ∃ (w : Recordings) (s : Session), w.session [1] = some s ∧ s.keyLines = [] := by
  obtain ⟨hsame, -, huser⟩ := keys_isolated [1]
  obtain ⟨w, v, halike, hs, hp, hq⟩ := sampleStart_alike
  refine ⟨⟨w, v, ?_, hs, (hsame w v halike).1⟩, ?_⟩
  · rw [hp, hq]
    decide
  · obtain ⟨w, s, hrun, hs, huser', -, -⟩ := sampleView_run
    have hlisteners : ∀ a ∈ sampleView, a.FromListeners := by simp [sampleView, Label.FromListeners]
    refine ⟨w, s, hs, (huser sampleView w s hrun ?_ hs (by rw [huser']; simp)).2.1⟩
    exact fun a ha => ⟨sampleView_genuine a ha, hlisteners a ha⟩

end Recordings

end QuicLab.DebugCapture
