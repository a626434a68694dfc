import QuicLab.Admin.Invariant

/-!
# Revocation of sessions

Connections register a session under the lock of the store, and release it when
they end; `SetProtocols` and `Delete` collect the close functions of sessions
under the lock, and call them one by one after it. All of these race.

The main result is that revocation leaves no live session
(`revocation_closes_sessions`): whatever the interleaving, a session whose user
is gone or disabled, or may no longer use the protocol, was closed, or is about to
be by a request that has not finished. Other sessions are not touched.

The invariant is that every live session is in the maps of the store, where a
request finds it, or is closing already (`SessionsInv`). What a call does to the
sessions is derived from its `Effect`.
-/

namespace QuicLab.Admin

open Go
open AwgServer (sampleConfig)

/-- The close function of a session, in the maps of the store. -/
def Store.session (s : Store) (id token : Bytes) : Option ℕ :=
  (s.active.lookup id).bind fun sessions => sessions.lookup token

/-- The session is in the maps of the store. -/
def Store.Holds (s : Store) (σ : Session) : Prop :=
  s.session σ.user σ.token = some σ.close ∧
    s.sessionProtocols.lookup σ.token = some σ.protocol

/-- The user of the session exists, is not disabled, and may use its protocol. -/
def Session.Allowed (s : Store) (σ : Session) : Prop :=
  ∃ u, s.state.users.lookup σ.user = some u ∧ u.disabled = false ∧ u.allows σ.protocol = true

/-- The request takes the protocol from its user: a `Delete`, or a `SetProtocols`
    that disables the user or leaves the protocol out. -/
def Request.Revokes (r : Request) (protocol : Bytes) : Prop :=
  ∀ ps disabled, r.settings = some (ps, disabled) →
    disabled = true ∨ AwgServer.enabled (some ps) protocol = false

/-- The request collected the close function of the session. -/
def Request.Collects (r : Request) (σ : Session) : Prop :=
  ∃ token, r.collected.lookup token = some σ.close

/-- The session was closed, or is about to be by a request. -/
def Server.Closing (v : Server) (σ : Session) : Prop :=
  σ.close ∈ v.closed ∨ ∃ r ∈ v.requests, r.pending.lookup σ.token = some σ.close

/-! ## The maps of the store -/

theorem Store.lookup_active (s : Store) (id token : Bytes) :
    ((s.active.lookup id).getD ∅).lookup token = s.session id token := by
  rw [Store.session]
  cases s.active.lookup id with
  | none => rfl
  | some sessions => rfl

/-- A release removes the session, and no other. -/
theorem Store.session_release (s : Store) (id token i t : Bytes) :
    (s.release id token).session i t =
      if i = id ∧ t = token then none else s.session i t := by
  have hsessions : ((s.active.lookup id).getD ∅ |>.erase token).lookup t =
      if t = token then none else s.session id t := by
    rw [Map.lookup_erase', s.lookup_active]
  rw [Store.session, Store.release]
  split_ifs with hempty hit hit
  · obtain ⟨rfl, rfl⟩ := hit
    rw [Map.lookup_erase', if_pos rfl, Option.bind_none]
  · rw [Map.lookup_erase']
    split_ifs with hi
    · -- The map of the user is empty, so it had no other session.
      subst hi
      have ht : t ≠ token := fun ht => hit ⟨rfl, ht⟩
      rw [if_neg ht] at hsessions
      rw [← hsessions, Option.bind_none, Map.len_eq_zero hempty]
      rfl
    · rfl
  · obtain ⟨rfl, rfl⟩ := hit
    rw [Map.lookup_insert', if_pos rfl, Option.bind_some, hsessions, if_pos rfl]
  · rw [Map.lookup_insert']
    split_ifs with hi
    · subst hi
      rw [Option.bind_some, hsessions, if_neg fun ht => hit ⟨rfl, ht⟩]
    · rfl

/-- A registration adds a session. -/
theorem Store.session_insert {s s' : Store} {id token : Bytes} {close : ℕ}
    (h : s'.active = s.active.insert id (((s.active.lookup id).getD ∅).insert token close))
    (i t : Bytes) :
    s'.session i t = if i = id ∧ t = token then some close else s.session i t := by
  rw [Store.session, h, Map.lookup_insert']
  by_cases hi : i = id
  · subst hi
    rw [if_pos rfl, Option.bind_some, Map.lookup_insert', s.lookup_active]
    simp only [true_and]
  · rw [if_neg hi, if_neg fun h => hi h.1]
    rfl

/-- `Delete` removes all sessions of the user. -/
theorem Store.session_erase {s s' : Store} {id : Bytes} (h : s'.active = s.active.erase id)
    (i t : Bytes) : s'.session i t = if i = id then none else s.session i t := by
  rw [Store.session, h, Map.lookup_erase']
  split_ifs with hi
  · rfl
  · rfl

/-- `SetProtocols` collects the sessions on protocols the user may not use. -/
theorem Store.lookup_revoked (s : Store) (id : Bytes) (u : User) (disabled : Bool)
    (token : Bytes) (c : ℕ) :
    (s.revoked id u disabled).lookup token = some c ↔ s.session id token = some c ∧
      (disabled = true ∨ u.allows ((s.sessionProtocols.lookup token).getD []) = false) := by
  rw [Store.revoked, Map.lookup_filter, s.lookup_active]
  cases s.session id token with
  | none => simp
  | some c' => simp

/-! ## Calls -/

namespace Effect

variable {A : Assumptions} {s s' : Store} {e : Option Error} {r : Option Request}

theorem sessionProtocols (h : Effect A s (e, r, s')) :
    s'.sessionProtocols = s.sessionProtocols := by
  cases h with
  | failed hk => exact hk.protocols
  | noted hsame _ _ => exact hsame.protocols
  | identity _ hs => exact hs.protocols
  | created _ _ _ _ _ _ _ hs => exact hs.protocols
  | renamed _ _ _ hs => exact hs.protocols
  | set _ _ _ _ _ hs => exact hs.protocols
  | deleted _ _ _ _ hprotocols => exact hprotocols

/-- A session stays in the maps, unless its user is deleted. -/
theorem session (h : Effect A s (e, r, s')) (id token : Bytes) :
    s'.session id token = s.session id token ∨
      s'.session id token = none ∧ ∃ q ∈ r, q.user = id ∧ q.settings = none := by
  have hactive : s'.active = s.active → s'.session id token = s.session id token := fun ha => by
    rw [Store.session, Store.session, ha]
  cases h with
  | failed hk => exact .inl (hactive hk.active)
  | noted hsame _ _ => exact .inl (hactive hsame.active)
  | identity _ hs => exact .inl (hactive hs.active)
  | created _ _ _ _ _ _ _ hs => exact .inl (hactive hs.active)
  | renamed _ _ _ hs => exact .inl (hactive hs.active)
  | set _ _ _ _ _ hs => exact .inl (hactive hs.active)
  | @deleted _ user old _ _ _ ha _ =>
    rw [Store.session_erase ha]
    split_ifs with hid
    · exact .inr ⟨rfl, _, rfl, hid.symm, rfl⟩
    · exact .inl rfl

/-- A request collects the sessions of its user on the protocols it takes. -/
theorem collected (h : Effect A s (e, r, s')) {q : Request} (hq : q ∈ r) :
    q.pending = q.collected ∧ ∀ token c, q.collected.lookup token = some c ↔
      s.session q.user token = some c ∧ q.Revokes ((s.sessionProtocols.lookup token).getD []) := by
  cases h with
  | failed _ => cases hq
  | noted _ _ _ => cases hq
  | identity _ _ => cases hq
  | created _ _ _ _ _ _ _ _ => cases hq
  | renamed _ _ _ _ => cases hq
  | @set _ id old u ps seed disabled awg _ _ _ _ hu _ =>
    cases hq
    refine ⟨rfl, fun token c => ?_⟩
    rw [Store.lookup_revoked, hu]
    refine and_congr_right fun _ => ⟨fun h _ _ heq => ?_, fun h => h ps disabled rfl⟩
    cases heq
    exact h
  | @deleted _ id old _ _ _ _ _ =>
    cases hq
    refine ⟨rfl, fun token c => ?_⟩
    rw [Store.lookup_active]
    exact ⟨fun h => ⟨h, fun _ _ heq => nomatch heq⟩, fun h => h.1⟩

/-- A session stays allowed, unless a request takes its protocol. -/
theorem allowed (h : Effect A s (e, r, s')) {σ : Session} (hσ : σ.Allowed s) :
    σ.Allowed s' ∨ ∃ q ∈ r, q.user = σ.user ∧ q.Revokes σ.protocol := by
  obtain ⟨u, hu, hdis, hallow⟩ := hσ
  -- The settings of the users stay, but for those under `id`.
  have hother : ∀ {id : Bytes} {u' : User}, s'.state.users = s.state.users.insert id u' →
      (id = σ.user → u'.disabled = false ∧ u'.allows σ.protocol = true) → σ.Allowed s' := by
    intro id u' hs' hu'
    rw [Session.Allowed, hs', Map.lookup_insert']
    split_ifs with hid
    · exact ⟨u', rfl, hu' hid.symm⟩
    · exact ⟨u, hu, hdis, hallow⟩
  cases h with
  | failed hk => exact .inl ⟨u, by rw [hk.state, hu], hdis, hallow⟩
  | noted _ hcore _ =>
    obtain ⟨u', hu', hc⟩ := StateInv.lookup_of_core hcore hu
    refine .inl ⟨u', hu', (congrArg User.disabled hc :).trans hdis, ?_⟩
    have hps : u'.protocols = u.protocols := (congrArg User.protocols hc :)
    rw [User.allows, hps]
    exact hallow
  | identity _ hs => exact .inl ⟨u, by rw [hs.state]; exact hu, hdis, hallow⟩
  | @created _ new _ _ hid _ _ _ _ _ hs =>
    refine .inl (hother (congrArg DiskState.users hs.state) fun heq => ?_)
    rw [heq, hu] at hid
    cases hid
  | @renamed _ id name old hold _ _ hs =>
    refine .inl (hother (congrArg DiskState.users hs.state) fun heq => ?_)
    rw [heq, hu] at hold
    cases hold
    exact ⟨hdis, hallow⟩
  | @set _ id old new ps seed disabled awg _ hold _ _ hnew hs =>
    by_cases hkeep : id = σ.user ∧ (disabled = true ∨ new.allows σ.protocol = false)
    · refine .inr ⟨_, rfl, hkeep.1, fun _ _ heq => ?_⟩
      cases heq
      rw [hnew] at hkeep
      exact hkeep.2
    · refine .inl (hother (congrArg DiskState.users hs.state) fun hid => ?_)
      have hkeep' := not_or.1 fun h => hkeep ⟨hid, h⟩
      rw [hnew] at hkeep' ⊢
      exact ⟨Bool.eq_false_of_not_eq_true hkeep'.1, Bool.eq_true_of_not_eq_false hkeep'.2⟩
  | @deleted _ id old _ hstate _ _ _ =>
    by_cases hid : id = σ.user
    · refine .inr ⟨_, rfl, hid, fun _ _ heq => ?_⟩
      cases heq
    · refine .inl ⟨u, ?_, hdis, hallow⟩
      rw [hstate, Map.lookup_erase', if_neg (Ne.symm hid), hu]

end Effect

/-! ## Runs -/

/-- The invariant of the sessions: tokens and close functions are those of one
    session; the maps hold every live session that is not closing, and only
    registered ones; and requests collect what they revoke. -/
structure SessionsInv (v : Server) (s : Store) : Prop where
  live : ∀ σ ∈ v.sessions, σ ∈ v.registered
  token : ∀ σ ∈ v.registered, ∀ τ ∈ v.registered, σ.token = τ.token → σ = τ
  close : ∀ σ ∈ v.registered, ∀ τ ∈ v.registered, σ.close = τ.close → σ = τ
  held : ∀ σ ∈ v.sessions, s.Holds σ ∨ v.Closing σ
  origin : ∀ id token c, s.session id token = some c →
    ∃ σ ∈ v.registered, s.Holds σ ∧ σ.user = id ∧ σ.token = token
  revoked : ∀ σ ∈ v.sessions, ¬ σ.Allowed s → v.Closing σ
  collected : ∀ r ∈ v.requests, ∀ token c, r.collected.lookup token = some c →
    ∃ σ ∈ v.registered, σ.close = c ∧ σ.user = r.user ∧ r.Revokes σ.protocol
  pending : ∀ r ∈ v.requests, ∀ token c, r.pending.lookup token = some c →
    r.collected.lookup token = some c
  closed : ∀ c ∈ v.closed, ∃ r ∈ v.requests, ∃ token, r.collected.lookup token = some c

namespace SessionsInv

variable {A : Assumptions} {v : Server} {s s' : Store}

/-- A call keeps the invariant. -/
theorem call (h : SessionsInv v s) {e : Option Error} {r : Option Request}
    (heff : Effect A s (e, r, s')) :
    SessionsInv { v with process := .running s', requests := v.requests ++ r.toList } s' := by
  have hmono : ∀ σ, v.Closing σ → Server.Closing
      { v with process := .running s', requests := v.requests ++ r.toList } σ :=
    fun σ hσ => hσ.imp_right fun ⟨q, hq, hp⟩ => ⟨q, List.mem_append_left _ hq, hp⟩
  -- A request that takes the protocol of a session it finds will close it.
  have hnew : ∀ σ, s.Holds σ → (∃ q ∈ r, q.user = σ.user ∧ q.Revokes σ.protocol) →
      Server.Closing { v with process := .running s', requests := v.requests ++ r.toList } σ := by
    rintro σ ⟨hsession, hprotocol⟩ ⟨q, hq, hqu, hrev⟩
    obtain ⟨hpending, hcollected⟩ := heff.collected hq
    refine .inr ⟨q, List.mem_append_right _ (Option.mem_toList.2 hq), ?_⟩
    rw [hpending, hcollected, hqu, hprotocol]
    exact ⟨hsession, hrev⟩
  have hholds : ∀ σ, s.Holds σ → s'.session σ.user σ.token = s.session σ.user σ.token →
      s'.Holds σ := fun σ hσ hsame => ⟨hsame.trans hσ.1, by rw [heff.sessionProtocols]; exact hσ.2⟩
  refine ⟨h.live, h.token, h.close, fun σ hσ => ?_, fun id token c hc => ?_, fun σ hσ hrev => ?_,
    fun q hq token c hc => ?_, fun q hq token c hc => ?_, fun c hc => ?_⟩
  · obtain hheld | hclosing := h.held σ hσ
    · obtain hsame | ⟨_, q, hq, hqu, hset⟩ := heff.session σ.user σ.token
      · exact .inl (hholds σ hheld hsame)
      · exact .inr (hnew σ hheld ⟨q, hq, hqu, fun _ _ heq => by rw [hset] at heq; cases heq⟩)
    · exact .inr (hmono σ hclosing)
  · obtain hsame | ⟨hnone, _⟩ := heff.session id token
    · obtain ⟨σ, hσ, hheld, rfl, rfl⟩ := h.origin id token c (hsame ▸ hc)
      exact ⟨σ, hσ, hholds σ hheld hsame, rfl, rfl⟩
    · rw [hnone] at hc
      cases hc
  · by_cases hbefore : σ.Allowed s
    · obtain hheld | hclosing := h.held σ hσ
      · exact hnew σ hheld ((heff.allowed hbefore).resolve_left hrev)
      · exact hmono σ hclosing
    · exact hmono σ (h.revoked σ hσ hbefore)
  · obtain hq | hq := List.mem_append.1 hq
    · exact h.collected q hq token c hc
    · obtain ⟨hsession, hrev⟩ := ((heff.collected (Option.mem_toList.1 hq)).2 token c).1 hc
      obtain ⟨σ, hσ, ⟨hclose, hprotocol⟩, huser, rfl⟩ := h.origin q.user token c hsession
      rw [hprotocol] at hrev
      rw [huser, hsession] at hclose
      exact ⟨σ, hσ, (Option.some.inj hclose).symm, huser, hrev⟩
  · obtain hq | hq := List.mem_append.1 hq
    · exact h.pending q hq token c hc
    · rw [← (heff.collected (Option.mem_toList.1 hq)).1]
      exact hc
  · obtain ⟨q, hq, hqc⟩ := h.closed c hc
    exact ⟨q, List.mem_append_left _ hq, hqc⟩

/-- A registration of an allowed session keeps the invariant. -/
theorem register (h : SessionsInv v s) {σ : Session} (hallowed : σ.Allowed s)
    (hfresh : ∀ τ ∈ v.registered, τ.token ≠ σ.token ∧ τ.close ≠ σ.close)
    (hstate : s'.state = s.state) (hactive : s'.active =
      s.active.insert σ.user (((s.active.lookup σ.user).getD ∅).insert σ.token σ.close))
    (hprotocols : s'.sessionProtocols = s.sessionProtocols.insert σ.token σ.protocol) :
    SessionsInv { v with
      process := .running s'
      registered := σ :: v.registered
      sessions := σ :: v.sessions } s' := by
  have hself : s'.Holds σ :=
    ⟨by rw [Store.session_insert hactive, if_pos ⟨rfl, rfl⟩],
      by rw [hprotocols, Map.lookup_insert', if_pos rfl]⟩
  have hheld : ∀ τ ∈ v.registered, s.Holds τ → s'.Holds τ := fun τ hτ hτs =>
    ⟨by rw [Store.session_insert hactive, if_neg fun heq => (hfresh τ hτ).1 heq.2]; exact hτs.1,
      by rw [hprotocols, Map.lookup_insert', if_neg (hfresh τ hτ).1]; exact hτs.2⟩
  have hsame : ∀ τ : Session, τ.Allowed s' ↔ τ.Allowed s := fun τ => by
    rw [Session.Allowed, hstate, Session.Allowed]
  refine ⟨?_, ?_, ?_, ?_, fun id token c hc => ?_, ?_, fun q hq token c hc => ?_, h.pending,
    h.closed⟩
  · rintro τ (_ | ⟨_, hτ⟩)
    · exact List.mem_cons_self
    · exact List.mem_cons_of_mem _ (h.live τ hτ)
  · rintro τ (_ | ⟨_, hτ⟩) ρ (_ | ⟨_, hρ⟩) heq
    · rfl
    · exact absurd heq.symm (hfresh ρ hρ).1
    · exact absurd heq (hfresh τ hτ).1
    · exact h.token τ hτ ρ hρ heq
  · rintro τ (_ | ⟨_, hτ⟩) ρ (_ | ⟨_, hρ⟩) heq
    · rfl
    · exact absurd heq.symm (hfresh ρ hρ).2
    · exact absurd heq (hfresh τ hτ).2
    · exact h.close τ hτ ρ hρ heq
  · rintro τ (_ | ⟨_, hτ⟩)
    · exact .inl hself
    · exact (h.held τ hτ).imp_left (hheld τ (h.live τ hτ))
  · rw [Store.session_insert hactive] at hc
    split_ifs at hc with hit
    · exact ⟨σ, List.mem_cons_self, hself, hit.1.symm, hit.2.symm⟩
    · obtain ⟨τ, hτ, hτs, hid, htoken⟩ := h.origin id token c hc
      exact ⟨τ, List.mem_cons_of_mem _ hτ, hheld τ hτ hτs, hid, htoken⟩
  · rintro τ (_ | ⟨_, hτ⟩) hrev
    · exact absurd ((hsame σ).2 hallowed) hrev
    · exact h.revoked τ hτ fun hall => hrev ((hsame τ).2 hall)
  · obtain ⟨τ, hτ, hrest⟩ := h.collected q hq token c hc
    exact ⟨τ, List.mem_cons_of_mem _ hτ, hrest⟩

/-- A release keeps the invariant. -/
theorem release (h : SessionsInv v s) {σ : Session} (hσ : σ ∈ v.registered) :
    SessionsInv { v with
      process := .running (s.release σ.user σ.token)
      sessions := v.sessions.filter (· ≠ σ) } (s.release σ.user σ.token) := by
  have hheld : ∀ τ ∈ v.registered, τ ≠ σ → s.Holds τ → (s.release σ.user σ.token).Holds τ := by
    intro τ hτ hne hτs
    have htoken : τ.token ≠ σ.token := fun heq => hne (h.token τ hτ σ hσ heq)
    refine ⟨?_, ?_⟩
    · rw [Store.session_release, if_neg fun heq => htoken heq.2]
      exact hτs.1
    · rw [Store.release, Map.lookup_erase', if_neg htoken]
      exact hτs.2
  have hmem : ∀ τ, τ ∈ v.sessions.filter (· ≠ σ) → τ ∈ v.sessions ∧ τ ≠ σ := fun τ hτ => by
    simpa using List.mem_filter.1 hτ
  refine ⟨fun τ hτ => h.live τ (hmem τ hτ).1, h.token, h.close, fun τ hτ => ?_,
    fun id token c hc => ?_, fun τ hτ => h.revoked τ (hmem τ hτ).1, h.collected, h.pending,
    h.closed⟩
  · obtain ⟨hτ, hne⟩ := hmem τ hτ
    exact (h.held τ hτ).imp_left (hheld τ (h.live τ hτ) hne)
  · rw [Store.session_release] at hc
    split_ifs at hc with hit
    obtain ⟨τ, hτ, hτs, rfl, rfl⟩ := h.origin id token c hc
    refine ⟨τ, hτ, hheld τ hτ (fun heq => hit ?_) hτs, rfl, rfl⟩
    rw [heq]
    exact ⟨rfl, rfl⟩

/-- A call of a close function keeps the invariant. -/
theorem closeCall (h : SessionsInv v s) {before after : List Request} {r : Request}
    {token : Bytes} {c : ℕ} (hreq : v.requests = before ++ r :: after)
    (hpend : r.pending.lookup token = some c) :
    SessionsInv { v with
      requests := before ++ { r with pending := r.pending.erase token } :: after
      closed := c :: v.closed } s := by
  have hr : r ∈ v.requests := hreq ▸ List.mem_append_right _ List.mem_cons_self
  -- The requests before and after the step are the same but for what is pending.
  have hbefore : ∀ q ∈ before ++ { r with pending := r.pending.erase token } :: after,
      q ∈ v.requests ∨ q = { r with pending := r.pending.erase token } := by
    intro q hq
    rw [hreq]
    simp only [List.mem_append, List.mem_cons] at hq ⊢
    tauto
  have hafter : ∀ q ∈ v.requests,
      q ∈ before ++ { r with pending := r.pending.erase token } :: after ∨ q = r := by
    intro q hq
    rw [hreq] at hq
    simp only [List.mem_append, List.mem_cons] at hq ⊢
    tauto
  have hself : { r with pending := r.pending.erase token } ∈
      before ++ { r with pending := r.pending.erase token } :: after :=
    List.mem_append_right _ List.mem_cons_self
  have hmono : ∀ σ, v.Closing σ → Server.Closing { v with
      requests := before ++ { r with pending := r.pending.erase token } :: after
      closed := c :: v.closed } σ := by
    rintro σ (hclosed | ⟨q, hq, hqp⟩)
    · exact .inl (List.mem_cons_of_mem _ hclosed)
    · obtain hq | rfl := hafter q hq
      · exact .inr ⟨q, hq, hqp⟩
      · by_cases htoken : σ.token = token
        · rw [htoken, hpend] at hqp
          cases hqp
          exact .inl List.mem_cons_self
        · refine .inr ⟨_, hself, ?_⟩
          rw [Map.lookup_erase', if_neg htoken]
          exact hqp
  refine ⟨h.live, h.token, h.close, fun σ hσ => (h.held σ hσ).imp_right (hmono σ), h.origin,
    fun σ hσ hrev => hmono σ (h.revoked σ hσ hrev), fun q hq t c' hc => ?_,
    fun q hq t c' hc => ?_, fun c' hc => ?_⟩
  · obtain hq | rfl := hbefore q hq
    · exact h.collected q hq t c' hc
    · exact h.collected r hr t c' hc
  · obtain hq | rfl := hbefore q hq
    · exact h.pending q hq t c' hc
    · rw [Map.lookup_erase'] at hc
      split_ifs at hc
      exact h.pending r hr t c' hc
  · obtain _ | ⟨_, hc⟩ := hc
    · exact ⟨_, hself, token, h.pending r hr token c hpend⟩
    · obtain ⟨q, hq, hqc⟩ := h.closed c' hc
      obtain hq | rfl := hafter q hq
      · exact ⟨q, hq, hqc⟩
      · exact ⟨_, hself, hqc⟩

end SessionsInv

/-- A server that is stopped has no sessions; a running one satisfies the
    invariant. -/
def Server.Sessions (v : Server) : Prop :=
  match v.process with
  | .stopped _ => v.registered = [] ∧ v.sessions = [] ∧ v.requests = [] ∧ v.closed = []
  | .running s => SessionsInv v s

theorem registerProtocol_allowed {A : Assumptions} {s s' : Store} (hinv : Inv A s) {x : Certs}
    {cs : ConnectionState} {protocol token id : Bytes} {close : ℕ} {now : Time}
    (h : s.registerProtocol x cs protocol close now token = (.ok id, s')) :
    Session.Allowed s ⟨id, token, protocol, close⟩ := by
  obtain ⟨hallowed, hprotocol, _⟩ := registerProtocol_ok h
  obtain ⟨u, hu, hdis⟩ := allowed_ok hinv.state.id hallowed
  rw [hu] at hprotocol
  exact ⟨u, hu, hdis, hprotocol⟩

theorem Server.Step.sessions {x : Certs} {A : Assumptions} {v v' : Server} {a : Action}
    (hinv : v.process.Inv A) (h : v.Sessions) (hs : Server.Step x A v a v') : v'.Sessions := by
  rw [Server.Sessions] at h
  cases hs with
  | @«open» file env s hstopped hopen =>
    rw [hstopped] at h
    obtain ⟨hreg, hlive, hreq, hclosed⟩ := h
    obtain ⟨d, notAfter, rfl, _⟩ := openStore_ok hopen
    refine ⟨?_, ?_, ?_, ?_, fun id token c hc => ?_, ?_, ?_, ?_, ?_⟩
    all_goals simp only [hreg, hlive, hreq, hclosed, List.not_mem_nil, false_imp_iff, implies_true]
    cases hc
  | stop hrun => exact ⟨rfl, rfl, rfl, rfl⟩
  | @call s s' c e r hrun hassumed hresult =>
    rw [hrun] at h hinv
    have heff := Call.effect hassumed hinv.state.id (Admin.Inv.valid hinv) x
    rw [hresult] at heff
    exact h.call heff
  | register hrun hfresh hok =>
    rw [hrun] at h hinv
    have hallowed := registerProtocol_allowed hinv hok
    obtain ⟨_, _, rfl⟩ := registerProtocol_ok hok
    exact h.register hallowed hfresh rfl rfl rfl
  | release hrun hσ =>
    rw [hrun] at h
    exact h.release hσ
  | close hreq hpend =>
    rw [Server.Sessions]
    cases hp : v.process with
    | stopped file =>
      rw [hp] at h
      rw [h.2.2.1] at hreq
      cases (List.append_eq_nil_iff.1 hreq.symm).2
    | running s =>
      rw [hp] at h
      have hinv' := h.closeCall hreq hpend
      rw [hp] at hinv'
      exact hinv'

theorem sessions_of_reachable {x : Certs} {A : Assumptions} {v : Server}
    (h : (Server.system x A).Reachable v) {s : Store} (hs : v.process = .running s) :
    SessionsInv v s := by
  have hinv := h.invariant (P := fun v => v.process.Inv A ∧ v.Sessions)
    (fun v hv => by
      rw [show v = Server.initial from hv]
      exact ⟨fun d hd => (nomatch hd), rfl, rfl, rfl, rfl⟩)
    fun _ _ _ hv hstep => ⟨Server.Step.inv hv.1 hstep, Server.Step.sessions hv.1 hv.2 hstep⟩
  have hsessions := hinv.2
  rw [Server.Sessions, hs] at hsessions
  exact hsessions

/-- Revocation leaves no live session. In any interleaving of connections and
    requests, a live session whose user is gone or disabled, or may not use its
    protocol, was closed or is about to be; such a session is not registered; a
    close function is called only by a request that collected it, and a request
    collects those sessions of its user whose protocol it takes, and no others. -/
theorem revocation_closes_sessions {x : Certs} {A : Assumptions} {v : Server}
    (h : (Server.system x A).Reachable v) {s : Store} (hs : v.process = .running s) :
    (∀ σ ∈ v.sessions, ¬ σ.Allowed s → v.Closing σ) ∧
      (∀ cs protocol close now token id s',
        s.registerProtocol x cs protocol close now token = (.ok id, s') →
          Session.Allowed s ⟨id, token, protocol, close⟩) ∧
      (∀ σ ∈ v.registered, σ.close ∈ v.closed → ∃ r ∈ v.requests, r.Collects σ) ∧
      ∀ r ∈ v.requests, ∀ σ ∈ v.registered, r.Collects σ →
        r.user = σ.user ∧ r.Revokes σ.protocol := by
  have hsessions := sessions_of_reachable h hs
  refine ⟨hsessions.revoked, fun cs protocol close now token id s' hok => ?_,
    fun σ _ hclosed => hsessions.closed σ.close hclosed, fun r hr σ hσ ⟨token, hc⟩ => ?_⟩
  · exact registerProtocol_allowed (inv_of_reachable h hs) hok
  · obtain ⟨τ, hτ, hclose, huser, hrev⟩ := hsessions.collected r hr token σ.close hc
    obtain rfl := hsessions.close τ hτ σ hσ hclose
    exact ⟨huser.symm, hrev⟩

/-- The session of the first user. -/
def sampleSession : Session := ⟨str "id", str "token", str "awg", 1⟩

/-- The user with the session is deleted, and the session is about to be closed. -/
theorem revocation_closes_deleted : ∃ v s,
    (Server.system sampleCerts (.fixed (some sampleConfig))).Reachable v ∧
      v.process = .running s ∧ sampleSession ∈ v.sessions ∧ ¬ sampleSession.Allowed s ∧
        v.Closing sampleSession := by
  have hok : (sampleStore sampleCalls).registerProtocol sampleCerts
    ⟨true, [⟨str "id", [1]⟩]⟩ (str "awg") 1 0 (str "token") = (.ok (str "id"), _) := rfl
  have h₁ := sampleServer_reachable.step (.register rfl (fun _ hσ => nomatch hσ) hok)
  have h₂ := h₁.step (.call (c := .delete (str "id") none) rfl trivial rfl)
  refine ⟨_, _, h₂, rfl, List.mem_cons_self, ?gone,
    (revocation_closes_sessions h₂ rfl).1 _ List.mem_cons_self ?gone⟩
  rintro ⟨u, hu, _⟩
  exact Option.some_ne_none u (hu.symm.trans rfl)

end QuicLab.Admin
