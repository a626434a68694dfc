import QuicLab.Admin.Schedule

/-!
# Enrollment

A QR code carries a token, for which `enroll` returns the profile of a user once.
Issuing, redeeming and revoking are split in several steps, taken under different
locks.

* `Enroll.Inv`: an outstanding ticket is the one issued last for its user, and has
  not been revoked since; a token is taken once;
* `Enroll.outline`: how far an enrollment has come, and what it has seen;
* `enroll_once`: what holds of enrollments under every interleaving.
-/

namespace QuicLab.Admin.Web

open Go

namespace Enroll

/-! ### Histories -/

/-- Does the step issue a ticket for the user, or revoke its tickets? -/
def touches (user : Bytes) : Step → Bool
  | .op _ (.issueTicket u) _ => u = user
  | .op _ (.dropTickets u) _ => u = user
  | _ => false

/-- The token issued in a step. -/
def issuedToken : Step → Option Bytes
  | .op _ (.issueTicket _) r => some r.1
  | _ => none

/-- The token for which a profile is returned in a step. -/
def enrolledToken : Step → Option Bytes
  | .op _ (.reply (.profile token _)) _ => some token
  | _ => none

/-- The last that happened to the tickets of the user is that this one was issued. -/
def Current (as : List Step) (user token : Bytes) (time : Time) : Prop :=
  ∃ j, latest (touches user) as = some (.op j (.issueTicket user) (token, time))

/-- The thread has taken the ticket of the token. -/
def Took (as : List Step) (i : ℕ) (token : Bytes) : Prop :=
  ∃ t, .op i (.takeTicket token) (some t) ∈ as

/-! ### Tickets -/

variable {w : Setup} {i : ℕ} {s s' : Web}

variable {token : Bytes}

theorem lookup_tickets_prune {t : Tables} {now : Time} {k : Ticket} :
    (t.prune now).tickets.lookup token = some k ↔
      t.tickets.lookup token = some k ∧ now ≤ k.untilTime := by
  rw [Tables.prune, Map.lookup_filter, Option.filter_eq_some_iff]
  simp

theorem lookup_tickets_drop {t : Tables} {user token : Bytes} {k : Ticket} :
    (t.dropTickets user).tickets.lookup token = some k ↔
      t.tickets.lookup token = some k ∧ k.user ≠ user := by
  rw [Tables.dropTickets, Map.lookup_filter, Option.filter_eq_some_iff]
  simp

theorem tickets_newSession (t : Tables) (credential : Bytes) (err : Option String)
    (token csrf : Bytes) (now : Time) :
    (t.newSession credential err token csrf now).2.tickets = (t.prune now).tickets := by
  simp only [Tables.newSession, Tables.saveSessions]
  split_ifs
  · rfl
  · cases err <;> rfl

theorem tickets_removeSession (t : Tables) (credential : Bytes) (err : Option String)
    (cookie : Bytes) : (t.removeSession credential err cookie).2.tickets = t.tickets := by
  simp only [Tables.removeSession, Tables.saveSessions]
  cases err <;> rfl

/-- A ticket there is after an operation was there before, and is not touched by
    the operation, or it has just been issued. -/
theorem exec_ticket {e : Op} {r : Result e} (h : exec w i e s r s') {k : Ticket}
    (hk : s'.tables.tickets.lookup token = some k) :
    (s.tables.tickets.lookup token = some k ∧ touches k.user (.op i e r) = false) ∨
      ((.op i e r : Step) = .op i (.issueTicket k.user) (token, s.now) ∧
        k.untilTime = s.now + ticketLifetime) := by
  cases e with
  | issueTicket user =>
    obtain ⟨token', time⟩ := r
    obtain ⟨-, rfl, rfl⟩ := h
    simp only [Tables.issueTicket] at hk
    rw [Map.lookup_insert'] at hk
    split_ifs at hk with heq
    · cases hk
      exact .inr ⟨by rw [heq], rfl⟩
    · rw [lookup_tickets_drop, lookup_tickets_prune] at hk
      exact .inl ⟨hk.1.1, by simpa [touches] using Ne.symm hk.2⟩
  | dropTickets user =>
    subst h
    rw [lookup_tickets_drop] at hk
    exact .inl ⟨hk.1, by simpa [touches] using Ne.symm hk.2⟩
  | takeTicket token' =>
    obtain ⟨-, rfl⟩ := h
    simp only [Tables.takeTicket] at hk
    rw [Map.lookup_erase'] at hk
    split_ifs at hk
    exact .inl ⟨(lookup_tickets_prune.1 hk).1, rfl⟩
  | getSession cookie =>
    obtain ⟨-, rfl⟩ := h
    cases cookie with
    | none => exact .inl ⟨hk, rfl⟩
    | some c => exact .inl ⟨(lookup_tickets_prune.1 hk).1, rfl⟩
  | limit =>
    obtain ⟨-, rfl⟩ := h
    refine .inl ⟨?_, rfl⟩
    simp only [Tables.limit] at hk
    split_ifs at hk <;> exact hk
  | newSession err =>
    obtain ⟨_, _, -, -, -, rfl⟩ := h
    rw [tickets_newSession, lookup_tickets_prune] at hk
    exact .inl ⟨hk.1, rfl⟩
  | removeSession cookie err =>
    obtain ⟨-, rfl⟩ := h
    rw [tickets_removeSession] at hk
    exact .inl ⟨hk, rfl⟩
  | unlock =>
    subst h
    exact .inl ⟨hk, rfl⟩
  | reply _ =>
    subst h
    exact .inl ⟨hk, rfl⟩
  | store _ =>
    obtain ⟨-, -, rfl⟩ := h
    exact .inl ⟨hk, rfl⟩
  | capture _ =>
    obtain ⟨_, -, -, rfl⟩ := h
    exact .inl ⟨hk, rfl⟩
  | _ =>
    obtain ⟨-, rfl⟩ := h
    exact .inl ⟨hk, rfl⟩

/-- A ticket that is taken was there, had not expired, and is gone. -/
theorem exec_take {t : Ticket} (h : exec w i (.takeTicket token) s (some t) s') :
    s.tables.tickets.lookup token = some t ∧ s.now ≤ t.untilTime ∧
      s'.tables.tickets.lookup token = none := by
  obtain ⟨ht, rfl⟩ := h
  obtain ⟨hlook, hnow⟩ := lookup_tickets_prune.1 ht.symm
  refine ⟨hlook, hnow, ?_⟩
  rw [Tables.takeTicket, Finmap.lookup_erase]

/-! ### The stages of an enrollment -/

/-- How far a thread has come: it has taken no ticket, or it has ended; it has taken
    a ticket; it has found the user of the ticket; or it has its AWG profile too. -/
inductive Stage
  | idle
  | taken (token user : Bytes)
  | found (token user : Bytes) (u : User)
  | ready (token user : Bytes) (u : User) (raw : Bytes)

variable (w)

/-- What a thread may do at a stage. A profile is returned only for the ticket
    taken and the user found. -/
def stages : Stages Op Result Stage where
  allowed
    | .idle, e => ∀ token p, e ≠ .reply (.profile token p)
    | .taken _ user, e => e = .profile user ∨ ∃ status err, e = .reply (.error status err)
    | .found token _ u, e =>
      if u.allows (str "awg") then e = .awgProfile u.id
      else e = .reply (.profile token (baseProfile w.config u))
    | .ready token _ u raw, e =>
      e = .reply (.profile token { baseProfile w.config u with awgConfig := raw })
  next
    | .idle, .takeTicket token, some t => .taken token t.user
    | .taken token user, .profile _, .ok u => .found token user u
    | .found token user u, .awgProfile _, .ok raw => .ready token user u raw
    | .found _ _ _, .awgProfile _, .error _ => .idle
    | _, .reply _, _ => .idle
    | l, _, _ => l

open scoped Following in
theorem follows (q : Query) : (handler w q).Follows (stages w) .idle fun _ _ => True := by
  cases q with
  | enroll token => cases token <;> simp [stages]
  | qr r image => cases image <;> simp [stages]
  | captureStream origin id token around =>
    cases token <;> cases hp : around.peer <;> simp [hp, stages]
  | captureRedeem body => cases body <;> simp [stages]
  | userCapture r => cases ha : r.around.captureAWG <;> simp [ha, stages]
  | _ => simp [stages]

/-! ### The outline -/

/-- The thread has taken the ticket of the token, for the user: it was the current
    one, and not older than five minutes. -/
def TookCurrent (i : ℕ) (token user : Bytes) (as : List Step) : Prop :=
  (machine w).system.Happened (fun pre x a => ∃ t time, a = .op i (.takeTicket token) (some t) ∧
    t.user = user ∧ Current pre user token time ∧ x.shared.now ≤ time + ticketLifetime) as

/-- The thread has found the user. -/
def Found (i : ℕ) (user : Bytes) (u : User) (as : List Step) : Prop :=
  (machine w).system.Happened (fun _ x a => a = .op i (.profile user) (.ok u) ∧
    x.shared.store.profile user x.shared.now = .ok u) as

/-- The AWG profile of the user was this. -/
def FoundAWG (u : User) (raw : Bytes) (as : List Step) : Prop :=
  (machine w).system.Happened
    (fun _ x _ => x.shared.store.awgProfile u.id x.shared.now = .ok raw) as

/-- The invariant of the tickets. -/
structure Inv (as : List Step) (s : Web) : Prop where
  current : ∀ token k, s.tables.tickets.lookup token = some k →
    ∃ time, Current as k.user token time ∧ k.untilTime = time + ticketLifetime
  issued : (as.filterMap issuedToken).Nodup ∧ as.filterMap issuedToken ⊆ s.drawn
  taken : ∀ i token, Took as i token → token ∈ s.drawn ∧ s.tables.tickets.lookup token = none
  taker : ∀ i j token, Took as i token → Took as j token → i = j
  enrolled : (as.filterMap enrolledToken).Nodup ∧
    ∀ token ∈ as.filterMap enrolledToken, ∃ i, Took as i token

/-- The thread has taken the ticket, and has not returned a profile for it. -/
structure Holding (i : ℕ) (token user : Bytes) (as : List Step) : Prop where
  took : TookCurrent w i token user as
  pending : token ∉ as.filterMap enrolledToken

/-- The outline of enrollments. -/
def outline : Outline (machine w) Stage where
  toStages := stages w
  start _ := .idle
  lost := .idle
  inv := Inv
  holds i
    | .idle, _, _ => True
    | .taken token user, as, _ => Holding w i token user as
    | .found token user u, as, _ => Holding w i token user as ∧ Found w i user u as
    | .ready token user u raw, as, _ =>
      Holding w i token user as ∧ Found w i user u as ∧ u.allows (str "awg") ∧ FoundAWG w u raw as

variable {w} {as : List Step}

theorem TookCurrent.took {token user : Bytes} (h : TookCurrent w i token user as) :
    Took as i token := by
  obtain ⟨pre, x, a, post, rfl, -, t, _, rfl, -⟩ := h
  exact ⟨t, by simp⟩

theorem Took.append (h : Took as i token) (bs : List Step) :
    Took (as ++ bs) i token := by
  obtain ⟨t, ht⟩ := h
  exact ⟨t, List.mem_append_left _ ht⟩

variable {a : Step}

/-- A thread holds its ticket until it returns a profile for it. -/
theorem Holding.append {token user : Bytes} (h : Holding w i token user as)
    (ha : enrolledToken a ≠ some token) : Holding w i token user (as ++ [a]) := by
  refine ⟨h.took.append _, ?_⟩
  rw [mem_filterMap_snoc, not_or]
  exact ⟨h.pending, ha⟩

theorem Took.of_snoc (h : Took (as ++ [a]) i token)
    (ha : ∀ t, a ≠ .op i (.takeTicket token) (some t)) : Took as i token := by
  obtain ⟨t, ht⟩ := h
  rcases mem_snoc.1 ht with ht | ht
  · exact ⟨t, ht⟩
  · exact absurd ht.symm (ha t)

theorem Current.append {user token : Bytes} {time : Time} (h : Current as user token time)
    (ha : touches user a = false) : Current (as ++ [a]) user token time := by
  obtain ⟨j, hj⟩ := h
  exact ⟨j, by rw [latest_snoc, ha, if_neg Bool.false_ne_true, hj]⟩

theorem Current.mem {user token : Bytes} {time : Time} (h : Current as user token time) :
    token ∈ as.filterMap issuedToken := by
  obtain ⟨j, hj⟩ := h
  have hmem := List.mem_reverse.1 (List.mem_of_find?_eq_some hj)
  exact List.mem_filterMap.2 ⟨_, hmem, rfl⟩

namespace Inv

/-- The token of an outstanding ticket was drawn. -/
theorem drawn (h : Inv as s) {token : Bytes} {k : Ticket}
    (hk : s.tables.tickets.lookup token = some k) : token ∈ s.drawn := by
  obtain ⟨time, hcur, -⟩ := h.current token k hk
  exact h.issued.2 hcur.mem

/-- A step keeps the invariant if it issues new tokens only, takes tickets away as
    it takes them, and returns a profile for a token that was taken and not used. -/
theorem snoc (h : Inv as s) {a : Step} (hdrawn : s.drawn ⊆ s'.drawn)
    (hticket : ∀ token k, s'.tables.tickets.lookup token = some k →
      (s.tables.tickets.lookup token = some k ∧ touches k.user a = false) ∨
        (∃ j, a = .op j (.issueTicket k.user) (token, s.now)) ∧
          k.untilTime = s.now + ticketLifetime)
    (hissued : ∀ token, issuedToken a = some token → token ∉ s.drawn ∧ token ∈ s'.drawn)
    (htaken : ∀ i token t, a = .op i (.takeTicket token) (some t) →
      s.tables.tickets.lookup token = some t ∧ s'.tables.tickets.lookup token = none)
    (henrolled : ∀ token, enrolledToken a = some token →
      token ∉ as.filterMap enrolledToken ∧ ∃ i, Took as i token) : Inv (as ++ [a]) s' where
  current token k hk := by
    rcases hticket token k hk with ⟨hold, ha⟩ | ⟨⟨j, rfl⟩, huntil⟩
    · obtain ⟨time, hcur, huntil⟩ := h.current token k hold
      exact ⟨time, hcur.append ha, huntil⟩
    · exact ⟨s.now, ⟨j, by rw [latest_snoc, if_pos (by simp [touches])]⟩, huntil⟩
  issued := by
    refine ⟨nodup_filterMap_snoc h.issued.1 fun token ha hin => (hissued token ha).1 (h.issued.2 hin),
      fun token ht => ?_⟩
    rcases mem_filterMap_snoc.1 ht with ht | ha
    · exact hdrawn (h.issued.2 ht)
    · exact (hissued token ha).2
  taken i token hi := by
    by_cases ha : ∃ t, a = .op i (.takeTicket token) (some t)
    · obtain ⟨t, ha⟩ := ha
      obtain ⟨hk, hgone⟩ := htaken i token t ha
      exact ⟨hdrawn (h.drawn hk), hgone⟩
    · obtain ⟨hd, hnone⟩ := h.taken i token (hi.of_snoc fun t ht => ha ⟨t, ht⟩)
      refine ⟨hdrawn hd, Option.eq_none_iff_forall_ne_some.2 fun k hk => ?_⟩
      rcases hticket token k hk with ⟨hold, -⟩ | ⟨⟨j, rfl⟩, -⟩
      · rw [hnone] at hold
        cases hold
      · exact (hissued token rfl).1 hd
  taker i j token hi hj := by
    -- a ticket that is taken now is there, so nobody has taken it before
    have hfirst : ∀ i j t, a = .op i (.takeTicket token) (some t) → Took as j token → False := by
      intro i j t ha hj
      have hk := (htaken i token t ha).1
      rw [(h.taken j token hj).2] at hk
      cases hk
    by_cases hai : ∃ t, a = .op i (.takeTicket token) (some t)
    · by_cases haj : ∃ t, a = .op j (.takeTicket token) (some t)
      · obtain ⟨t, rfl⟩ := hai
        obtain ⟨t', ht'⟩ := haj
        cases ht'
        rfl
      · obtain ⟨t, ha⟩ := hai
        exact (hfirst i j t ha (hj.of_snoc fun t ht => haj ⟨t, ht⟩)).elim
    · have hi' := hi.of_snoc fun t ht => hai ⟨t, ht⟩
      by_cases haj : ∃ t, a = .op j (.takeTicket token) (some t)
      · obtain ⟨t, ha⟩ := haj
        exact (hfirst j i t ha hi').elim
      · exact h.taker i j token hi' (hj.of_snoc fun t ht => haj ⟨t, ht⟩)
  enrolled := by
    refine ⟨nodup_filterMap_snoc h.enrolled.1 fun token ha => (henrolled token ha).1,
      fun token ht => ?_⟩
    rcases mem_filterMap_snoc.1 ht with ht | ha
    · obtain ⟨i, hi⟩ := h.enrolled.2 token ht
      exact ⟨i, hi.append _⟩
    · obtain ⟨-, i, hi⟩ := henrolled token ha
      exact ⟨i, hi.append _⟩

/-- An operation keeps the invariant, if it returns a profile only for a token that
    was taken and not used. -/
theorem op (h : Inv as s) {e : Op} {r : Result e} (hexec : exec w i e s r s')
    (henrolled : ∀ token, enrolledToken (.op i e r) = some token →
      token ∉ as.filterMap enrolledToken ∧ ∃ j, Took as j token) : Inv (as ++ [.op i e r]) s' := by
  refine h.snoc (exec_leaves hexec).drawn (fun token k hk => ?_) (fun token ha => ?_)
    (fun j token t ha => ?_) henrolled
  · rcases exec_ticket hexec hk with hold | ⟨hnew, huntil⟩
    · exact .inl hold
    · exact .inr ⟨⟨i, hnew⟩, huntil⟩
  · cases e with
    | issueTicket user =>
      obtain ⟨hfresh, -, rfl⟩ := hexec
      cases ha
      exact ⟨hfresh.2, List.mem_cons_self⟩
    | _ => cases ha
  · cases ha
    obtain ⟨hk, -, hgone⟩ := exec_take hexec
    exact ⟨hk, hgone⟩

/-- A step that neither issues, revokes nor takes anything. -/
theorem quiet (h : Inv as s) {a : Step} (ha : ∀ j e r, a ≠ .op j e r) (hdrawn : s'.drawn = s.drawn)
    (htickets : ∀ token k, s'.tables.tickets.lookup token = some k →
      s.tables.tickets.lookup token = some k) : Inv (as ++ [a]) s' := by
  refine h.snoc (fun _ ht => hdrawn ▸ ht) (fun token k hk => .inl ⟨htickets token k hk, ?_⟩)
    (fun token ht => ?_) (fun j token t ht => absurd ht (ha j _ _)) (fun token ht => ?_)
  · cases a with
    | op j e r => exact absurd rfl (ha j e r)
    | _ => rfl
  · cases a with
    | op j e r => exact absurd rfl (ha j e r)
    | _ => cases ht
  · cases a with
    | op j e r => exact absurd rfl (ha j e r)
    | _ => cases ht

theorem init (h : Started w s) : Inv [] s := by
  obtain ⟨file, htables, -⟩ := h.tables
  refine ⟨fun token k hk => ?_, ⟨List.nodup_nil, List.nil_subset _⟩, ?_, ?_,
    ⟨List.nodup_nil, List.forall_mem_nil _⟩⟩
  · rw [htables, Finmap.lookup_empty] at hk
    cases hk
  · rintro i token ⟨t, ht⟩
    cases ht
  · rintro i j token ⟨t, ht⟩
    cases ht

/-- A restart drops all tickets. -/
theorem restart (h : Inv as s) {c : Event} (hs : restart w s c s') : Inv (as ++ [.crash c]) s' := by
  obtain ⟨-, _, _, _, -, -, rfl⟩ := hs
  refine h.quiet (fun _ _ _ ha => by cases ha) rfl fun token k hk => ?_
  simp only [Tables.restart] at hk
  split at hk
  · cases hk
  · split_ifs at hk
    · cases (lookup_tickets_prune.1 hk).1
    · cases hk

end Inv

variable {l : Stage}

/-- A thread keeps its assertion if nobody returns a profile for its token. -/
theorem holds_append (h : (outline w).holds i l as s)
    (ha : ∀ token, Took as i token → enrolledToken a ≠ some token) :
    (outline w).holds i l (as ++ [a]) s' := by
  cases l with
  | idle => trivial
  | taken token user => exact Holding.append h (ha token h.took.took)
  | found token user u => exact ⟨h.1.append (ha token h.1.took.took), h.2.append _⟩
  | ready token user u raw =>
    exact ⟨h.1.append (ha token h.1.took.took), h.2.1.append _, h.2.2.1, h.2.2.2.append _⟩

/-- A thread that returns a profile holds the ticket of its token. -/
theorem holding_of_enrolled {e : Op} {r : Result e} (h : (outline w).holds i l as s)
    (hallowed : (stages w).allowed l e) (he : enrolledToken (.op i e r) = some token) :
    ∃ user, Holding w i token user as := by
  cases e with
  | reply reply =>
    cases reply with
    | profile token' p =>
      cases he
      cases l with
      | idle => exact absurd rfl (hallowed _ _)
      | taken token user => rcases hallowed with hc | ⟨_, _, hc⟩ <;> cases hc
      | found token user u =>
        simp only [stages] at hallowed
        split_ifs at hallowed
        cases hallowed
        exact ⟨user, h.1⟩
      | ready token user u raw =>
        cases hallowed
        exact ⟨user, h.1⟩
    | _ => cases he
  | _ => cases he

variable {x : Pool Web Op Result}

/-- An operation establishes the assertion of the next stage. -/
theorem holds_next (hrun : (machine w).system.Run as x) (hinv : Inv as x.shared) {e : Op}
    {r : Result e} (h : (outline w).holds i l as x.shared) (hallowed : (stages w).allowed l e)
    (hexec : exec w i e x.shared r s') :
    (outline w).holds i ((stages w).next l e r) (as ++ [.op i e r]) s' := by
  cases l with
  | idle =>
    cases e with
    | takeTicket token =>
      cases r with
      | none => trivial
      | some t =>
        obtain ⟨hk, hnow, -⟩ := exec_take hexec
        obtain ⟨time, hcur, huntil⟩ := hinv.current token t hk
        refine ⟨hrun.happened ⟨t, time, rfl, rfl, hcur, huntil ▸ hnow⟩, fun henrolled => ?_⟩
        -- the ticket is still there, so nobody has taken it, let alone used it
        rcases mem_filterMap_snoc.1 henrolled with hold | hnew
        · obtain ⟨j, hj⟩ := hinv.enrolled.2 token hold
          rw [(hinv.taken j token hj).2] at hk
          cases hk
        · cases hnew
    | _ => trivial
  | taken token user =>
    rcases hallowed with rfl | ⟨status, err, rfl⟩
    · cases r with
      | error _ => exact Holding.append h (fun hc => by cases hc)
      | ok u =>
        exact ⟨Holding.append h (fun hc => by cases hc), hrun.happened ⟨rfl, hexec.1.symm⟩⟩
    · trivial
  | found token user u =>
    simp only [stages] at hallowed
    split_ifs at hallowed with hawg
    · subst hallowed
      cases r with
      | error _ => trivial
      | ok raw =>
        exact ⟨h.1.append (fun hc => by cases hc), h.2.append _, hawg, hrun.happened hexec.1.symm⟩
    · subst hallowed
      trivial
  | ready token user u raw =>
    subst hallowed
    trivial

theorem valid : (outline w).Valid where
  follows q := follows w q
  init h := .init h
  spawn hinv := ⟨hinv.quiet (fun _ _ _ ha => by cases ha) rfl fun _ _ hk => hk, trivial⟩
  spawn_frame _ hl := holds_append hl fun _ _ hc => by cases hc
  op hrun hinv hl hallowed hexec := by
    refine ⟨hinv.op hexec fun token he => ?_, holds_next hrun hinv hl hallowed hexec⟩
    obtain ⟨user, hold⟩ := holding_of_enrolled hl hallowed he
    exact ⟨hold.pending, _, hold.took.took⟩
  op_frame _ hinv hl hallowed _ hne hl' := holds_append hl' fun token hj he => by
    obtain ⟨user, hold⟩ := holding_of_enrolled hl hallowed he
    exact hne (hinv.taker _ _ token hj hold.took.took)
  env hinv henv := by
    obtain ⟨hdrawn, htables, -⟩ := background_leaves henv
    exact hinv.quiet (fun _ _ _ ha => by cases ha) hdrawn fun _ _ hk => htables ▸ hk
  env_frame _ _ hl := holds_append hl fun _ _ hc => by cases hc
  crash hinv hcrash := ⟨hinv.restart hcrash, fun _ => trivial⟩

/-! ### Results -/

/-- What is behind a profile returned for a token: the thread has taken the ticket
    of the token; it has found the user of the ticket, who existed, was not disabled
    and had not expired; the profile is that of the user; and if the tickets of the
    user were revoked before the thread started, then the token was issued after
    that. -/
structure Granted (w : Setup) (as : List Step) (i : ℕ) (token : Bytes) (p : Profile) (user : Bytes)
    (u : User) : Prop where
  took : TookCurrent w i token user as
  found : (machine w).system.Happened (fun _ x a => a = .op i (.profile user) (.ok u) ∧
    x.shared.store.state.users.lookup user = some u ∧ u.disabled = false ∧
      x.shared.now ≤ u.expires) as
  profile : (machine w).system.Happened
    (fun _ x _ => Web.profile w.config u x.shared.now x.shared.store = .ok p) as
  revoked : ∀ before j between q after,
    as = before ++ .op j (.dropTickets user) () :: (between ++ .spawn i q :: after) →
      token ∉ before.filterMap issuedToken

theorem profile_ok {id : Bytes} {now : Time} {st : Store} {u : User}
    (h : st.profile id now = .ok u) :
    st.state.users.lookup id = some u ∧ u.disabled = false ∧ now ≤ u.expires := by
  unfold Store.profile at h
  split at h
  · cases h
  · rename_i v hv
    split_ifs at h with hc
    cases h
    simp only [not_or, Bool.not_eq_true, not_lt] at hc
    exact ⟨hv, hc.1, hc.2⟩

/-- A ticket that was current when it was taken was issued after every revocation
    that came before the start of the thread. -/
theorem issued_after (hrun : (machine w).system.Run as x) {token user : Bytes}
    (h : TookCurrent w i token user as) {before between after : List Step} {j : ℕ} {q : Query}
    (has : as = before ++ .op j (.dropTickets user) () :: (between ++ .spawn i q :: after)) :
    token ∉ before.filterMap issuedToken := by
  obtain ⟨pre, y, _, post, has', -, t, time, rfl, -, ⟨k, hlatest⟩, -⟩ := h
  have hspawn : as = (before ++ .op j (.dropTickets user) () :: between) ++ .spawn i q :: after := by
    rw [has]
    simp
  obtain ⟨rest, rfl⟩ := Machine.spawn_before_op hrun hspawn has'
  rw [List.append_assoc, List.cons_append] at hlatest
  -- the revocation is not the latest step for the user, so the issue comes after it
  have hafter : .op k (.issueTicket user) (token, time) ∈ between ++ .spawn i q :: rest := by
    rcases mem_of_latest_append (by simp [touches]) hlatest with hdrop | hmem
    · cases hdrop
    · exact hmem
  have hnodup := (valid.run hrun).1.issued.1
  rw [has', List.append_assoc, List.append_assoc, List.filterMap_append,
    List.cons_append, List.filterMap_cons_none rfl, List.nodup_append] at hnodup
  intro hbefore
  refine hnodup.2.2 token hbefore token ?_ rfl
  rw [← List.append_assoc, List.filterMap_append]
  exact List.mem_append_left _ (List.mem_filterMap.2 ⟨_, hafter, rfl⟩)

/-- When a profile is returned, this is behind it. -/
theorem granted (hrun : (machine w).system.Run as x) {p : Profile}
    (h : (outline w).holds i l as x.shared)
    (hallowed : (stages w).allowed l (.reply (.profile token p))) :
    ∃ user u, Granted w as i token p user u := by
  cases l with
  | idle => exact absurd rfl (hallowed _ _)
  | taken token user => rcases hallowed with hc | ⟨_, _, hc⟩ <;> cases hc
  | found token user u =>
    simp only [stages] at hallowed
    split_ifs at hallowed with hawg
    cases hallowed
    refine ⟨user, u, h.1.took, h.2.mono fun _ _ _ hf => ⟨hf.1, profile_ok hf.2⟩,
      h.2.mono fun _ y _ _ => ?_, fun before j between q after has => issued_after hrun h.1.took has⟩
    rw [Web.profile, if_neg hawg]
  | ready token user u raw =>
    cases hallowed
    refine ⟨user, u, h.1.took, h.2.1.mono fun _ _ _ hf => ⟨hf.1, profile_ok hf.2⟩,
      h.2.2.2.mono fun _ y _ hraw => ?_,
      fun before j between q after has => issued_after hrun h.1.took has⟩
    rw [Web.profile, if_pos h.2.2.1, hraw]

/-- A schedule: a user is given a QR code, which is used. -/
def sample : List Move :=
  let cookie := Sample.digits 48 1
  let csrf := Sample.digits 48 2
  let token := Sample.digits 48 3
  Sample.login 0 cookie csrf ++
    [.spawn 1 (.qr (Sample.request cookie csrf { id := str "id" }) none), .op 1 [], .op 1 [],
      .op 1 [token], .op 1 [], .spawn 2 (.enroll (some token)), .op 2 [], .op 2 [], .op 2 []]

end Enroll

open Enroll in
/-- Enrollment tickets are good once, and can be revoked. Under every interleaving:
    a profile is returned at most once for a token; an outstanding ticket is the one
    issued last for its user, not revoked since, so there is one at most; a ticket is
    taken only if it is that one, within five minutes; and a profile is returned only
    as in `Granted`. -/
theorem enroll_once {w : Setup} {as : List Step} {x : Pool Web Op Result}
    (h : (machine w).system.Run as x) :
    (as.filterMap enrolledToken).Nodup ∧
    (∀ token k, x.shared.tables.tickets.lookup token = some k →
      ∃ time, Current as k.user token time ∧ k.untilTime = time + ticketLifetime) ∧
    (∀ token token' k k', x.shared.tables.tickets.lookup token = some k →
      x.shared.tables.tickets.lookup token' = some k' → k.user = k'.user → token = token') ∧
    (∀ pre post i token t, as = pre ++ .op i (.takeTicket token) (some t) :: post →
      ∃ y time, (machine w).system.Run pre y ∧ Current pre t.user token time ∧
        y.shared.now ≤ time + ticketLifetime) ∧
    (∀ pre post i token p, as = pre ++ .op i (.reply (.profile token p)) () :: post →
      ∃ user u, Granted w pre i token p user u) := by
  have hinv := (valid.run h).1
  refine ⟨hinv.enrolled.1, hinv.current, fun token token' k k' hk hk' huser => ?_,
    fun pre post i token t has => ?_, fun pre post i token p has => ?_⟩
  · obtain ⟨time, ⟨j, hj⟩, -⟩ := hinv.current token k hk
    obtain ⟨time', ⟨j', hj'⟩, -⟩ := hinv.current token' k' hk'
    rw [huser, hj'] at hj
    cases hj
    rfl
  · subst has
    obtain ⟨y, y', hpre, hstep, -⟩ := h.split
    cases hstep with
    | op _ hexec =>
      obtain ⟨hk, hnow, -⟩ := exec_take (w := w) (i := i) hexec
      obtain ⟨time, hcur, huntil⟩ := (valid.run hpre).1.current token t hk
      exact ⟨y, time, hpre, hcur, huntil ▸ hnow⟩
  · subst has
    obtain ⟨y, y', hpre, hstep, -⟩ := h.split
    obtain ⟨l, hallowed, hl, -⟩ := valid.run_op hpre hstep
    exact granted hpre hl hallowed

open Enroll in
/-- A user is enrolled. -/
theorem enroll_once_sample : ∃ as x, (machine Sample.setup).system.Run as x ∧
    as.filterMap enrolledToken = [Sample.digits 48 3] ∧ (as.filterMap enrolledToken).Nodup := by
  have hsome : (schedule Sample.setup sample Sample.start).isSome := by decide +kernel
  have hrun := run_of_schedule Sample.start_run (Option.some_get hsome).symm
  exact ⟨_, _, hrun, by decide +kernel, (enroll_once hrun).1⟩

end QuicLab.Admin.Web
