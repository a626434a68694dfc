import QuicLab.DebugCapture.Capture
import QuicLab.System

/-!
# Opening a capture

The viewer of a capture holds two secrets in turn, each good for once: a ticket,
redeemed for a token, and the token, with which it attaches. Calls to the manager
and to its sessions come in any order and at any times; the random values are
distinct.

* `Linked`: the secrets a session holds are those last given out, and a session
  has a viewer if one has attached;
* `opened_once`: a capture is opened by one viewer at most, with the latest token,
  which was given for the latest ticket, within a minute and once. Once the
  session has ended there are no more tickets, tokens or viewers.
-/

namespace QuicLab.DebugCapture

open Go

/-! ### Tickets, tokens and viewers -/

namespace Manager

variable {id : Bytes} {now : Time} {random v : Bytes} {e : Error} {m m' : Manager}

theorem lookup_modify_self (id : Bytes) (f : Session → Session) (m : Manager) :
    (m.modify id f).sessions.lookup id = (m.sessions.lookup id).map f := by
  rw [modify, lookup_update]
  simp

theorem ticket_ok (h : m.ticket id now random = (.ok v, m')) :
    v = random ∧ ∃ s, m.sessions.lookup id = some s ∧ s.state = .running ∧ s.connected = false ∧
      m'.sessions.lookup id =
        some { s with ticket := random, ticketUntil := now + ticketLifetime } := by
  unfold ticket at h
  cases hs : m.sessions.lookup id with
  | none => simp [hs] at h
  | some s =>
    simp only [hs, Prod.mk.injEq] at h
    obtain ⟨hv, rfl⟩ := h
    rw [lookup_modify_self, hs, Option.map_some]
    unfold Session.makeTicket at hv ⊢
    split_ifs at hv ⊢ with hc
    rw [not_or, not_not, Bool.not_eq_true] at hc
    exact ⟨(Except.ok.inj hv).symm, s, rfl, hc.1, hc.2, rfl⟩

theorem ticket_error (h : m.ticket id now random = (.error e, m')) :
    m'.sessions.lookup id = m.sessions.lookup id := by
  unfold ticket at h
  cases hs : m.sessions.lookup id with
  | none =>
    simp only [hs, Prod.mk.injEq] at h
    rw [← h.2, hs]
  | some s =>
    simp only [hs, Prod.mk.injEq] at h
    obtain ⟨hv, rfl⟩ := h
    rw [lookup_modify_self, hs, Option.map_some]
    unfold Session.makeTicket at hv ⊢
    split_ifs at hv ⊢
    rfl

variable {ticket token : Bytes}

theorem redeem_ok (h : m.redeem id ticket now random = (.ok v, m')) :
    v = random ∧ ticket ≠ [] ∧ ∃ s, m.sessions.lookup id = some s ∧ s.ticket = ticket ∧
      now ≤ s.ticketUntil ∧ s.state = .running ∧
      m'.sessions.lookup id = some { s with ticket := [], token := random } := by
  unfold redeem at h
  cases hs : m.find id with
  | none => simp [hs] at h
  | some s =>
    have hl := (Option.filter_eq_some_iff.1 hs).1
    simp only [hs, Prod.mk.injEq] at h
    obtain ⟨hv, rfl⟩ := h
    rw [lookup_modify_self, hl, Option.map_some]
    unfold Session.redeem at hv ⊢
    split_ifs at hv ⊢ with hc
    simp only [not_or, not_not, not_lt] at hc
    exact ⟨(Except.ok.inj hv).symm, hc.1, s, rfl, hc.2.1, hc.2.2.1, hc.2.2.2, rfl⟩

theorem redeem_error (h : m.redeem id ticket now random = (.error e, m')) :
    m'.sessions.lookup id = m.sessions.lookup id := by
  unfold redeem at h
  cases hs : m.find id with
  | none =>
    simp only [hs, Prod.mk.injEq] at h
    rw [← h.2]
  | some s =>
    have hl := (Option.filter_eq_some_iff.1 hs).1
    simp only [hs, Prod.mk.injEq] at h
    obtain ⟨hv, rfl⟩ := h
    rw [lookup_modify_self, hl, Option.map_some]
    unfold Session.redeem at hv ⊢
    split_ifs at hv ⊢
    rfl

theorem attach_true (h : m.attach id token = (true, m')) :
    token ≠ [] ∧ ∃ s, m.sessions.lookup id = some s ∧ s.token = token ∧ s.connected = false ∧
      s.state = .running ∧
      m'.sessions.lookup id = some { s with token := [], connected := true } := by
  unfold attach at h
  cases hs : m.find id with
  | none => simp [hs] at h
  | some s =>
    have hl := (Option.filter_eq_some_iff.1 hs).1
    simp only [hs, Prod.mk.injEq] at h
    obtain ⟨hv, rfl⟩ := h
    rw [lookup_modify_self, hl, Option.map_some]
    unfold Session.attach at hv ⊢
    split_ifs at hv ⊢ with hc
    simp only [not_or, not_not, Bool.not_eq_true] at hc
    exact ⟨hc.1, s, rfl, hc.2.1, hc.2.2.1, hc.2.2.2, rfl⟩

theorem attach_false (h : m.attach id token = (false, m')) :
    m'.sessions.lookup id = m.sessions.lookup id := by
  unfold attach at h
  cases hs : m.find id with
  | none =>
    simp only [hs, Prod.mk.injEq] at h
    rw [← h.2]
  | some s =>
    have hl := (Option.filter_eq_some_iff.1 hs).1
    simp only [hs, Prod.mk.injEq] at h
    obtain ⟨hv, rfl⟩ := h
    rw [lookup_modify_self, hl, Option.map_some]
    unfold Session.attach at hv ⊢
    split_ifs at hv ⊢
    rfl

end Manager

/-! ### Histories of calls -/

/-- A call that was made: when, and what it returned. -/
structure Made where
  call : Call
  now : Time
  result : Except Error Bytes

namespace Made

/-- A ticket was given for the session. -/
def tickets (id : Bytes) : Made → Bool
  | ⟨.ticket id', _, .ok _⟩ => id' = id
  | _ => false

/-- A ticket of the session was redeemed. -/
def redeems (id : Bytes) : Made → Bool
  | ⟨.redeem id' _, _, .ok _⟩ => id' = id
  | _ => false

/-- A viewer has attached to the session. -/
def attaches (id : Bytes) : Made → Bool
  | ⟨.attach id' _, _, .ok _⟩ => id' = id
  | _ => false

/-- A call that does not touch the session gives it nothing. -/
theorem tests_of_touched_ne {a : Made} {id : Bytes} (h : a.call.touched ≠ some id) :
    a.tickets id = false ∧ a.redeems id = false ∧ a.attaches id = false := by
  obtain ⟨call, now, result⟩ := a
  cases call <;> cases result <;> simp_all [tickets, redeems, attaches, Call.touched]

end Made

/-- A manager, and the random values drawn so far. -/
structure World where
  manager : Manager
  drawn : List Bytes

/-- Calls to a new manager. The random values are distinct, and not empty. -/
def system : System World Made where
  init s := (∃ c, Manager.new c = .ok s.manager) ∧ s.drawn = []
  step s a s' := ∃ random, random ≠ [] ∧ random ∉ s.drawn ∧ s'.drawn = random :: s.drawn ∧
    s.manager.apply a.call a.now random = (a.result, s'.manager)

theorem init_sessions {s : World} (h : system.init s) : s.manager.sessions = ∅ := by
  obtain ⟨⟨c, hc⟩, -⟩ := h
  unfold Manager.new at hc
  cases hv : c.validate with
  | some e => simp [hv] at hc
  | none =>
    simp only [hv, Except.ok.injEq] at hc
    rw [← hc]

/-- The identifiers of the sessions were drawn. -/
def Known (s : World) : Prop := ∀ id σ, s.manager.sessions.lookup id = some σ → id ∈ s.drawn

variable {s s' : World} {a : Made} {id : Bytes}

/-- What a step does to the session `id`: it is a later one, and gets nothing
    unless the call touches it; or it is new. -/
theorem step_session (hs : system.step s a s') {σ' : Session}
    (h : s'.manager.sessions.lookup id = some σ') :
    (∃ σ, s.manager.sessions.lookup id = some σ ∧ σ.Later σ' ∧
      (a.call.touched ≠ some id → σ.Quiet σ')) ∨
    (id ∉ s.drawn ∧ id ∈ s'.drawn ∧ σ'.ticket = [] ∧ σ'.token = [] ∧ a.call.touched ≠ some id) := by
  obtain ⟨random, -, hfresh, hdrawn, happly⟩ := hs
  have hm : s'.manager = (s.manager.apply a.call a.now random).2 := by rw [happly]
  rw [hm] at h
  rcases s.manager.apply_cases a.call a.now random with
    hmoves | ⟨owner, kind, user, σ, hσ, -, ⟨rest, hmoves, -, -, hrest⟩, hcall⟩
  · exact .inl (hmoves.old id σ' h)
  · rw [hrest, Map.lookup_insert'] at h
    split_ifs at h with hid
    · cases h
      refine .inr ⟨hid ▸ hfresh, by simp [hdrawn, hid], hσ.ticket, hσ.token, ?_⟩
      rcases hcall with ⟨_, hc⟩ | ⟨_, _, _, hc, -⟩ <;> simp [hc, Call.touched]
    · obtain ⟨σ₀, h₀, hlater, hquiet⟩ := hmoves.old id σ' h
      exact .inl ⟨σ₀, h₀, hlater, fun _ => hquiet (by simp)⟩

/-- What a step does to a session that exists: it stays, as a later one. -/
theorem step_kept (hk : Known s) (hs : system.step s a s') {σ : Session}
    (h : s.manager.sessions.lookup id = some σ) :
    ∃ σ', s'.manager.sessions.lookup id = some σ' ∧ σ.Later σ' := by
  obtain ⟨random, -, hfresh, -, happly⟩ := hs
  have hm : s'.manager = (s.manager.apply a.call a.now random).2 := by rw [happly]
  rw [hm]
  rcases s.manager.apply_cases a.call a.now random with
    hmoves | ⟨_, _, _, _, _, -, ⟨rest, hmoves, -, -, hrest⟩, -⟩
  · exact hmoves.kept id σ h
  · have hne : id ≠ random := fun heq => hfresh (heq ▸ hk id σ h)
    rw [hrest, Map.lookup_insert', if_neg hne]
    exact hmoves.kept id σ h

theorem mem_drawn_of_step (hs : system.step s a s') {v : Bytes} (h : v ∈ s.drawn) :
    v ∈ s'.drawn := by
  obtain ⟨random, -, -, hdrawn, -⟩ := hs
  exact hdrawn ▸ List.mem_cons_of_mem random h

theorem known_of_reachable {s : World} (h : system.Reachable s) : Known s := by
  refine h.invariant (P := Known) (fun s hs id σ hσ => ?_) fun s a s' hk hs id σ' hσ' => ?_
  · simp [init_sessions hs] at hσ
  · rcases step_session hs hσ' with ⟨σ, hσ, -⟩ | ⟨-, hid, -⟩
    · exact mem_drawn_of_step hs (hk id σ hσ)
    · exact hid

/-- What a step has for the session `id`: nothing, a ticket, a token or a viewer. -/
inductive Turn (s : World) (a : Made) (s' : World) (id : Bytes) : Prop
  | nothing (ht : a.tickets id = false) (hr : a.redeems id = false) (ha : a.attaches id = false)
    (h : ∀ σ', s'.manager.sessions.lookup id = some σ' →
      (∃ σ, s.manager.sessions.lookup id = some σ ∧ σ.Quiet σ') ∨ σ'.ticket = [] ∧ σ'.token = [])
  | ticket (r : Bytes) (σ : Session) (ha : a = ⟨.ticket id, a.now, .ok r⟩) (hr : r ∉ s.drawn)
    (hr' : r ∈ s'.drawn) (hσ : s.manager.sessions.lookup id = some σ) (hrun : σ.state = .running)
    (hc : σ.connected = false)
    (h : s'.manager.sessions.lookup id =
      some { σ with ticket := r, ticketUntil := a.now + ticketLifetime })
  | redeem (r : Bytes) (σ : Session) (ha : a = ⟨.redeem id σ.ticket, a.now, .ok r⟩)
    (ht : σ.ticket ≠ []) (hσ : s.manager.sessions.lookup id = some σ)
    (hnow : a.now ≤ σ.ticketUntil) (hrun : σ.state = .running)
    (h : s'.manager.sessions.lookup id = some { σ with ticket := [], token := r })
  | attach (σ : Session) (ha : a = ⟨.attach id σ.token, a.now, .ok id⟩) (ht : σ.token ≠ [])
    (hσ : s.manager.sessions.lookup id = some σ) (hc : σ.connected = false)
    (hrun : σ.state = .running)
    (h : s'.manager.sessions.lookup id = some { σ with token := [], connected := true })

/-- A call that fails has nothing for the session. -/
theorem Turn.of_error {e : Error} (he : a.result = .error e)
    (h : s'.manager.sessions.lookup id = s.manager.sessions.lookup id) : Turn s a s' id := by
  obtain ⟨call, now, result⟩ := a
  obtain rfl : result = .error e := he
  refine .nothing ?_ ?_ ?_ fun σ' hσ' => .inl ⟨σ', h ▸ hσ', .refl σ'⟩ <;>
    cases call <;> rfl

theorem turn_of_step (hs : system.step s a s') (id : Bytes) :
    Turn s a s' id := by
  by_cases ht : a.call.touched = some id
  · obtain ⟨random, -, hfresh, hdrawn, happly⟩ := hs
    obtain ⟨call, now, result⟩ := a
    have hmem : random ∈ s'.drawn := hdrawn ▸ List.mem_cons_self
    cases call with
    | ticket id' =>
      obtain rfl := Option.some.inj ht
      cases result with
      | error e => exact .of_error rfl (Manager.ticket_error happly)
      | ok v =>
        obtain ⟨rfl, σ, hσ, hrun, hc, h⟩ := Manager.ticket_ok happly
        exact .ticket v σ rfl hfresh hmem hσ hrun hc h
    | redeem id' t =>
      obtain rfl := Option.some.inj ht
      cases result with
      | error e => exact .of_error rfl (Manager.redeem_error happly)
      | ok v =>
        obtain ⟨rfl, ht, σ, hσ, rfl, hnow, hrun, h⟩ := Manager.redeem_ok happly
        exact .redeem v σ rfl ht hσ hnow hrun h
    | attach id' token =>
      obtain rfl := Option.some.inj ht
      simp only [Manager.apply, Prod.mk.injEq] at happly
      obtain ⟨hresult, hm⟩ := happly
      cases hb : (s.manager.attach id' token).1 with
      | false =>
        rw [hb] at hresult
        exact .of_error hresult.symm (Manager.attach_false (Prod.ext hb hm))
      | true =>
        rw [hb, if_pos rfl] at hresult
        obtain ⟨ht, σ, hσ, rfl, hc, hrun, h⟩ := Manager.attach_true (Prod.ext hb hm)
        exact .attach σ (by rw [← hresult]) ht hσ hc hrun h
    | _ => cases ht
  · obtain ⟨h₁, h₂, h₃⟩ := Made.tests_of_touched_ne ht
    refine .nothing h₁ h₂ h₃ fun σ' hσ' => ?_
    rcases step_session hs hσ' with ⟨σ, hσ, -, hq⟩ | ⟨-, -, h₄, h₅, -⟩
    · exact .inl ⟨σ, hσ, hq ht⟩
    · exact .inr ⟨h₄, h₅⟩

/-- The secrets of the sessions are those last given out. -/
structure Linked (as : List Made) (s : World) : Prop where
  known : Known s
  /-- A session to which a viewer has attached has one. -/
  attached : ∀ id, as.any (·.attaches id) → ∃ σ, s.manager.sessions.lookup id = some σ ∧
    σ.connected = true
  /-- A token is the one last given for the session. -/
  token : ∀ id σ, s.manager.sessions.lookup id = some σ → σ.token ≠ [] →
    ∃ t now, latest (·.redeems id) as = some ⟨.redeem id t, now, .ok σ.token⟩
  /-- A ticket is the one last given for the session. -/
  ticket : ∀ id σ, s.manager.sessions.lookup id = some σ → σ.ticket ≠ [] →
    latest (·.tickets id) as = some ⟨.ticket id, σ.ticketUntil - ticketLifetime, .ok σ.ticket⟩
  drawn : ∀ id σ, s.manager.sessions.lookup id = some σ → σ.ticket ≠ [] → σ.ticket ∈ s.drawn
  distinct : ∀ id id' σ σ', s.manager.sessions.lookup id = some σ →
    s.manager.sessions.lookup id' = some σ' → σ.ticket ≠ [] → σ'.ticket = σ.ticket → id' = id
  /-- No ticket that is left was redeemed. -/
  unredeemed : ∀ id σ, s.manager.sessions.lookup id = some σ → σ.ticket ≠ [] →
    ∀ id' now v, ⟨.redeem id' σ.ticket, now, .ok v⟩ ∉ as
  redeemed : ∀ id t now v, ⟨.redeem id t, now, .ok v⟩ ∈ as → t ∈ s.drawn

/-- The ticket of a session after a step is new, or it was its ticket before. -/
theorem Turn.ticket_cases (h : Turn s a s' id) {σ' : Session}
    (hσ' : s'.manager.sessions.lookup id = some σ') (ht : σ'.ticket ≠ []) :
    (a = ⟨.ticket id, a.now, .ok σ'.ticket⟩ ∧ σ'.ticket ∉ s.drawn ∧ σ'.ticket ∈ s'.drawn ∧
      σ'.ticketUntil = a.now + ticketLifetime) ∨
    (a.tickets id = false ∧ ∃ σ, s.manager.sessions.lookup id = some σ ∧ σ'.ticket = σ.ticket ∧
      σ'.ticketUntil = σ.ticketUntil) := by
  cases h with
  | nothing h₁ h₂ h₃ h =>
    rcases h σ' hσ' with ⟨σ, hσ, hq⟩ | ⟨h₄, -⟩
    · exact .inr ⟨h₁, σ, hσ, hq.ticket.resolve_right ht⟩
    · exact absurd h₄ ht
  | ticket r σ ha hr hr' hσ hrun hc h =>
    cases h.symm.trans hσ'
    exact .inl ⟨ha, hr, hr', rfl⟩
  | redeem r σ ha _ hσ hnow hrun h =>
    cases h.symm.trans hσ'
    exact absurd rfl ht
  | attach σ ha _ hσ hc hrun h =>
    cases h.symm.trans hσ'
    exact .inr ⟨by rw [ha]; rfl, σ, hσ, rfl, rfl⟩

/-- A ticket that is redeemed is the ticket of the session, which has it no more. -/
theorem redeem_of_step {id t v : Bytes} {now : Time}
    (hs : system.step s ⟨.redeem id t, now, .ok v⟩ s') :
    ∃ σ σ', s.manager.sessions.lookup id = some σ ∧ σ.ticket = t ∧ t ≠ [] ∧
      s'.manager.sessions.lookup id = some σ' ∧ σ'.ticket = [] := by
  obtain ⟨random, -, -, -, happly⟩ := hs
  obtain ⟨-, ht, σ, hσ, he, -, -, h⟩ := Manager.redeem_ok happly
  exact ⟨σ, _, hσ, he, ht, h, rfl⟩

theorem Linked.step {as : List Made} (hl : Linked as s) (hs : system.step s a s') :
    Linked (as ++ [a]) s' where
  known := by
    intro id σ' hσ'
    rcases step_session hs hσ' with ⟨σ, hσ, -⟩ | ⟨-, hid, -⟩
    · exact mem_drawn_of_step hs (hl.known id σ hσ)
    · exact hid
  attached := by
    intro id h
    rw [List.any_append, Bool.or_eq_true, List.any_cons, List.any_nil, Bool.or_false] at h
    rcases h with h | h
    · obtain ⟨σ, hσ, hc⟩ := hl.attached id h
      obtain ⟨σ', hσ', hlater⟩ := step_kept hl.known hs hσ
      exact ⟨σ', hσ', hlater.connected hc⟩
    · cases turn_of_step hs id with
      | nothing _ _ ha => exact absurd h (by simp [ha])
      | ticket r σ ha => exact absurd h (by rw [ha]; simp [Made.attaches])
      | redeem r σ ha => exact absurd h (by rw [ha]; simp [Made.attaches])
      | attach σ _ _ _ _ _ hσ' => exact ⟨_, hσ', rfl⟩
  token := by
    intro id σ' hσ' ht
    rw [latest_snoc]
    cases turn_of_step hs id with
    | nothing _ hr _ h =>
      rw [hr]
      rcases h σ' hσ' with ⟨σ, hσ, hq⟩ | ⟨-, h⟩
      · have he := hq.token.resolve_right ht
        rw [he] at ht ⊢
        exact hl.token id σ hσ ht
      · exact absurd h ht
    | ticket r σ ha _ _ hσ _ _ h =>
      cases h.symm.trans hσ'
      rw [show a.redeems id = false by rw [ha]; rfl]
      exact hl.token id σ hσ ht
    | redeem r σ ha _ _ _ _ h =>
      cases h.symm.trans hσ'
      rw [if_pos (by rw [ha]; simp [Made.redeems])]
      exact ⟨σ.ticket, a.now, congrArg some ha⟩
    | attach σ _ _ _ _ _ h =>
      cases h.symm.trans hσ'
      exact absurd rfl ht
  ticket := by
    intro id σ' hσ' ht
    rw [latest_snoc]
    rcases (turn_of_step hs id).ticket_cases hσ' ht with ⟨ha, -, -, hu⟩ | ⟨h, σ, hσ, he, hu⟩
    · rw [if_pos (by rw [ha]; simp [Made.tickets]), hu, add_sub_cancel_right]
      exact congrArg some ha
    · rw [h, he, hu]
      exact hl.ticket id σ hσ (he ▸ ht)
  drawn := by
    intro id σ' hσ' ht
    rcases (turn_of_step hs id).ticket_cases hσ' ht with ⟨-, -, h, -⟩ | ⟨-, σ, hσ, he, -⟩
    · exact h
    · rw [he] at ht ⊢
      exact mem_drawn_of_step hs (hl.drawn id σ hσ ht)
  distinct := by
    intro id id' σ₁ σ₂ h₁ h₂ ht he
    have ht' : σ₂.ticket ≠ [] := he ▸ ht
    rcases (turn_of_step hs id).ticket_cases h₁ ht with ⟨ha, hn, -⟩ | ⟨-, σ, hσ, he₁, -⟩ <;>
      rcases (turn_of_step hs id').ticket_cases h₂ ht' with ⟨ha', hn', -⟩ | ⟨-, σ', hσ', he₂, -⟩
    · rw [ha] at ha'
      injection ha' with ha'
      injection ha' with ha'
      exact ha'.symm
    · -- A ticket that is new is not one that was there before.
      exact absurd (hl.drawn id' σ' hσ' (he₂ ▸ ht')) (he₂ ▸ he ▸ hn)
    · exact absurd (hl.drawn id σ hσ (he₁ ▸ ht)) (he₁ ▸ he ▸ hn')
    · exact hl.distinct id id' σ σ' hσ hσ' (he₁ ▸ ht) (by rw [← he₁, ← he₂, he])
  unredeemed := by
    intro id σ' hσ' ht id' now v hmem
    rw [List.mem_append, List.mem_singleton] at hmem
    rcases (turn_of_step hs id).ticket_cases hσ' ht with ⟨ha, hn, -⟩ | ⟨-, σ, hσ, he, -⟩
    · rcases hmem with hmem | rfl
      · exact hn (hl.redeemed id' _ now v hmem)
      · cases ha
    · rcases hmem with hmem | rfl
      · exact hl.unredeemed id σ hσ (he ▸ ht) id' now v (he ▸ hmem)
      · obtain ⟨σ₁, σ₂, h₁, ht₁, -, h₂, ht₂⟩ := redeem_of_step hs
        obtain rfl := hl.distinct id id' σ σ₁ hσ h₁ (he ▸ ht) (ht₁.trans he)
        cases h₂.symm.trans hσ'
        exact ht ht₂
  redeemed := by
    intro id t now v hmem
    rw [List.mem_append, List.mem_singleton] at hmem
    rcases hmem with hmem | rfl
    · exact mem_drawn_of_step hs (hl.redeemed id t now v hmem)
    · obtain ⟨σ, -, hσ, rfl, ht, -⟩ := redeem_of_step hs
      exact mem_drawn_of_step hs (hl.drawn id σ hσ ht)

theorem linked_of_run {as : List Made} {s : World} (h : system.Run as s) : Linked as s := by
  refine h.invariant (P := Linked) (fun s hs => ?_) fun as s a s' hl hs => hl.step hs
  have hnone : ∀ id σ, s.manager.sessions.lookup id ≠ some σ := by simp [init_sessions hs]
  exact
    { known := fun id σ h => absurd h (hnone id σ)
      attached := fun id h => by cases h
      token := fun id σ h => absurd h (hnone id σ)
      ticket := fun id σ h => absurd h (hnone id σ)
      drawn := fun id σ h => absurd h (hnone id σ)
      distinct := fun id _ σ _ h => absurd h (hnone id σ)
      unredeemed := fun id σ h => absurd h (hnone id σ)
      redeemed := fun id t now v h => absurd h List.not_mem_nil }

/-- A session that has ended has ended for good. -/
theorem ended_of_leads {s₀ s : World} (h₀ : system.Reachable s₀) (h : system.Leads s₀ s)
    {σ₀ : Session} (hσ₀ : s₀.manager.sessions.lookup id = some σ₀) (hend : σ₀.state ≠ .running)
    {σ : Session} (hσ : s.manager.sessions.lookup id = some σ) : σ.state ≠ .running := by
  have hP : system.Reachable s ∧
      ∃ σ, s.manager.sessions.lookup id = some σ ∧ σ.state ≠ .running := by
    refine h.invariant (P := fun s => system.Reachable s ∧
      ∃ σ, s.manager.sessions.lookup id = some σ ∧ σ.state ≠ .running)
      (fun s a s' ⟨hr, σ, hσ, hne⟩ hs => ?_) ⟨h₀, σ₀, hσ₀, hend⟩
    obtain ⟨σ', hσ', hlater⟩ := step_kept (known_of_reachable hr) hs hσ
    exact ⟨.step hr hs, σ', hσ', fun hrun => hne (hlater.running hrun)⟩
  obtain ⟨-, σ', hσ', hne⟩ := hP
  exact Option.some.inj (hσ'.symm.trans hσ) ▸ hne

/-- A call at the time `now`, which draws `random`. -/
def World.call (c : Call) (now : Time) (random : Bytes) (s : World) : World :=
  ⟨(s.manager.apply c now random).2, random :: s.drawn⟩

/-- What a call returns. -/
def World.result (c : Call) (now : Time) (random : Bytes) (s : World) : Except Error Bytes :=
  (s.manager.apply c now random).1

theorem step_call (c : Call) (now : Time) (random : Bytes) {s : World} (hr : random ≠ [])
    (hs : random ∉ s.drawn) : system.step s ⟨c, now, s.result c now random⟩ (s.call c now random) :=
  ⟨random, hr, hs, rfl, rfl⟩

/-- A new manager with one slot. -/
def sampleWorld : World := ⟨⟨⟨str "eth0", 0, ∅, 1, str "/usr/bin/tcpdump"⟩, ∅, false⟩, []⟩

/-- A capture is started, a ticket is given and redeemed. -/
def sampleHistory : List Made :=
  [⟨.startUser [7] [8] [] [] fun _ => false, 0, .ok [1]⟩, ⟨.ticket [1], 1, .ok [2]⟩,
    ⟨.redeem [1] [2], 2, .ok [3]⟩]

def sampleRedeemed : World :=
  ((sampleWorld.call (.startUser [7] [8] [] [] fun _ => false) 0 [1]).call (.ticket [1]) 1 [2]).call
    (.redeem [1] [2]) 2 [3]

theorem sampleHistory_run : system.Run sampleHistory sampleRedeemed := by
  have h₀ : system.Run [] sampleWorld := .init ⟨⟨sampleWorld.manager.config, rfl⟩, rfl⟩
  have h₁ := h₀.step (step_call (.startUser [7] [8] [] [] fun _ => false) 0 [1]
    (by decide) (by decide))
  have h₂ := h₁.step (step_call (.ticket [1]) 1 [2] (by decide) (by decide))
  exact h₂.step (step_call (.redeem [1] [2]) 2 [3] (by decide) (by decide))

/-- A capture is opened by at most one viewer, through a fresh ticket. After any
    history of calls, the next call `a` attaches a viewer only with the token that
    was last given for the session, and if none has attached before; it redeems
    only the ticket that was last given for the session, at most a minute after,
    and if it was not redeemed before; it gives a ticket only if no viewer has
    attached; and it does none of these for a session that was seen ended. -/
theorem opened_once {as : List Made} {s s' : World} {a : Made} (hrun : system.Run as s)
    (hs : system.step s a s') (id : Bytes) :
    (∀ token now v, a = ⟨.attach id token, now, .ok v⟩ →
      as.any (·.attaches id) = false ∧
      ∃ t now', latest (·.redeems id) as = some ⟨.redeem id t, now', .ok token⟩) ∧
    (∀ t now v, a = ⟨.redeem id t, now, .ok v⟩ →
      (∃ now', latest (·.tickets id) as = some ⟨.ticket id, now', .ok t⟩ ∧
        now ≤ now' + 60 * second) ∧
      ∀ id' now' v', ⟨.redeem id' t, now', .ok v'⟩ ∉ as) ∧
    (a.tickets id → as.any (·.attaches id) = false) ∧
    (∀ s₀ σ₀, system.Reachable s₀ → system.Leads s₀ s → s₀.manager.sessions.lookup id = some σ₀ →
      σ₀.state ≠ .running → a.tickets id = false ∧ a.redeems id = false ∧ a.attaches id = false) := by
  have hl := linked_of_run hrun
  have hnone : ∀ σ, s.manager.sessions.lookup id = some σ → σ.connected = false →
      as.any (·.attaches id) = false := by
    intro σ hσ hc
    rw [Bool.eq_false_iff]
    intro hany
    obtain ⟨σ', hσ', hc'⟩ := hl.attached id hany
    rw [← Option.some.inj (hσ.symm.trans hσ'), hc] at hc'
    cases hc'
  refine ⟨?_, ?_, ?_, ?_⟩
  · rintro token now v rfl
    cases turn_of_step hs id with
    | nothing _ _ ha => simp [Made.attaches] at ha
    | ticket r σ ha => cases ha
    | redeem r σ ha => cases ha
    | attach σ ha ht hσ hc =>
      obtain ⟨t, now', ht'⟩ := hl.token id σ hσ ht
      cases ha
      exact ⟨hnone σ hσ hc, t, now', ht'⟩
  · rintro t now v rfl
    cases turn_of_step hs id with
    | nothing _ hr => simp [Made.redeems] at hr
    | ticket r σ ha => cases ha
    | attach σ ha => cases ha
    | redeem r σ ha ht hσ hnow =>
      cases ha
      refine ⟨⟨σ.ticketUntil - ticketLifetime, hl.ticket id σ hσ ht, ?_⟩, hl.unredeemed id σ hσ ht⟩
      change now ≤ σ.ticketUntil - 60 * second + 60 * second
      rw [sub_add_cancel]
      exact hnow
  · intro h
    cases turn_of_step hs id with
    | nothing ht => simp [ht] at h
    | ticket r σ _ _ _ hσ _ hc => exact hnone σ hσ hc
    | redeem r σ ha => rw [ha] at h; cases h
    | attach σ ha => rw [ha] at h; cases h
  · intro s₀ σ₀ h₀ hleads hσ₀ hend
    have hend' : ∀ σ, s.manager.sessions.lookup id = some σ → σ.state ≠ .running :=
      fun σ hσ => ended_of_leads h₀ hleads hσ₀ hend hσ
    cases turn_of_step hs id with
    | nothing ht hr ha => exact ⟨ht, hr, ha⟩
    | ticket r σ _ _ _ hσ hrun => exact absurd hrun (hend' σ hσ)
    | redeem r σ _ _ hσ _ hrun => exact absurd hrun (hend' σ hσ)
    | attach σ _ _ hσ _ hrun => exact absurd hrun (hend' σ hσ)

/-- The viewer attaches with the token that was given. -/
theorem opened_once_sample :
    sampleHistory.any (·.attaches [1]) = false ∧
      ∃ t now, latest (·.redeems [1]) sampleHistory = some ⟨.redeem [1] t, now, .ok [3]⟩ :=
  (opened_once sampleHistory_run
    (step_call (.attach [1] [3]) 3 [4] (by decide) (by decide)) [1]).1 [3] 3 [1] rfl

end QuicLab.DebugCapture
