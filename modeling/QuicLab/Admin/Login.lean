import QuicLab.Admin.Schedule

/-!
# Logins

A login is kept in memory and in the file `admin-sessions.json`, from which it is
read again after a restart. Both are changed by hand, and the change in memory is
undone when the file cannot be saved; expired logins are dropped from memory when it
is used, but not from the file.

* `entry`: the login of a cookie in a table, unless it has expired;
* `exec_entry`: what an operation does to the entries, in memory and in the file;
* `Login.Inv`: the entries in memory and those in the file are the same, the logins
  that succeeded, but for those ended by a logout;
* `login_durable`: which cookies are accepted, after any requests and restarts.
-/

namespace QuicLab.Admin.Web

open Go

/-! ### Entries -/

/-- The login of a cookie, unless it has expired. -/
def entry (now : Time) (m : Map Bytes Session) (cookie : Bytes) : Option Session :=
  (m.lookup cookie).filter fun s => ¬ s.untilTime < now

/-- The logins in the file, as they are read under the credentials given. -/
def Tables.saved (credential : Bytes) (t : Tables) : Map Bytes Session :=
  match t.file with
  | none => ∅
  | some f => if f.credential = credential then f.sessions else ∅

section Entry

variable {now : Time} {m : Map Bytes Session} {cookie c : Bytes}

theorem entry_empty : entry now ∅ cookie = none := by
  rw [entry, Finmap.lookup_empty, Option.filter_none]

theorem entry_insert (s : Session) :
    entry now (m.insert c s) cookie =
      if cookie = c then (some s).filter fun s => ¬ s.untilTime < now else entry now m cookie := by
  rw [entry, Map.lookup_insert']
  split_ifs <;> rfl

theorem entry_erase :
    entry now (m.erase c) cookie = if cookie = c then none else entry now m cookie := by
  rw [entry, Map.lookup_erase']
  split_ifs <;> rfl

/-- What has not expired later has not expired now. -/
theorem filter_filter {now' : Time} (h : now ≤ now') (o : Option Session) :
    (o.filter fun s => ¬ s.untilTime < now).filter (fun s => ¬ s.untilTime < now') =
      o.filter fun s => ¬ s.untilTime < now' := by
  cases o with
  | none => rfl
  | some s =>
    by_cases hs : s.untilTime < now
    · have hs' : s.untilTime < now' := lt_of_lt_of_le hs h
      simp [Option.filter, hs, hs']
    · simp [Option.filter, hs]

theorem entry_later {now' : Time} (h : now ≤ now') :
    entry now' m cookie = (entry now m cookie).filter fun s => ¬ s.untilTime < now' :=
  (filter_filter h _).symm

theorem lookup_prune (t : Tables) : (t.prune now).sessions.lookup cookie = entry now t.sessions cookie :=
  Map.lookup_filter _ _ _

theorem entry_prune (t : Tables) :
    entry now (t.prune now).sessions cookie = entry now t.sessions cookie := by
  rw [entry, lookup_prune]
  exact filter_filter le_rfl _

theorem getSession_eq (t : Tables) : (t.getSession (some cookie) now).1 = entry now t.sessions cookie :=
  lookup_prune t

/-- After a restart, memory is what the file has. -/
theorem entry_restart (credential : Bytes) (t : Tables) :
    entry now (t.restart credential now).sessions cookie = entry now (t.saved credential) cookie := by
  unfold Tables.restart Tables.saved
  cases t.file with
  | none => rfl
  | some f =>
    dsimp only
    split_ifs
    · exact entry_prune _
    · rfl

theorem saved_restart (credential credential' : Bytes) (t : Tables) :
    (t.restart credential now).saved credential' = t.saved credential' := by
  have hfile : (t.restart credential now).file = t.file := by
    unfold Tables.restart
    cases t.file with
    | none => rfl
    | some f =>
      dsimp only
      split_ifs <;> rfl
  rw [Tables.saved, hfile, Tables.saved]

end Entry

/-! ### What the operations do to the entries -/

/-- Does the step end with a login with this cookie, or with its logout, saved? -/
def concerns (cookie : Bytes) : Step → Bool
  | .op _ (.newSession _) (.ok l) => l.token = cookie
  | .op _ (.removeSession c _) (_, true) => c = cookie
  | _ => false

/-- What an operation does to the logins in memory and in the file. -/
inductive Entries (w : Setup) (s s' : Web) : Step → Prop
  | login {i : ℕ} {err : Option String} {l : Login} (time : l.time = s.now)
      (fresh : l.token ∉ s.drawn) (drawn : l.token ∈ s'.drawn)
      (memory : ∀ c, entry s.now s'.tables.sessions c =
        if c = l.token then some l.session else entry s.now s.tables.sessions c)
      (file : s'.tables.saved w.credential = s'.tables.sessions) :
      Entries w s s' (.op i (.newSession err) (.ok l))
  | logout {i : ℕ} {cookie : Bytes} {err : Option String} {p : Session}
      (memory : ∀ c, entry s.now s'.tables.sessions c =
        if c = cookie then none else entry s.now s.tables.sessions c)
      (file : s'.tables.saved w.credential = s'.tables.sessions) :
      Entries w s s' (.op i (.removeSession cookie err) (p, true))
  | same {a : Step} (concerns : ∀ c, concerns c a = false)
      (memory : ∀ c, c ∈ s.drawn ∨ entry s.now s.tables.sessions c = none →
        entry s.now s'.tables.sessions c = entry s.now s.tables.sessions c)
      (file : s'.tables.file = s.tables.file) : Entries w s s' a

variable {w : Setup} {i : ℕ} {s s' : Web}

theorem saved_of_file {t t' : Tables} (h : t'.file = t.file) (credential : Bytes) :
    t'.saved credential = t.saved credential := by
  rw [Tables.saved, h, Tables.saved]

theorem exec_newSession {err : Option String} {r : Tables.LoginResult}
    (h : exec w i (.newSession err) s r s') : Entries w s s' (.op i (.newSession err) r) := by
  obtain ⟨token, csrf, hfresh, -, rfl, rfl⟩ := h
  simp only [Tables.newSession]
  split_ifs with hfull
  · exact .same (fun _ => rfl) (fun _ _ => entry_prune _) rfl
  · cases err with
    | some e =>
      refine .same (fun _ => rfl) (fun c hc => ?_) rfl
      simp only [Tables.saveSessions]
      rw [entry_erase, entry_insert, entry_prune]
      split_ifs with heq
      · subst heq
        exact (hc.resolve_left hfresh.2).symm
      · rfl
    | none =>
      refine .login rfl hfresh.2 (by simp) (fun c => ?_) ?_
      · simp only [Tables.saveSessions]
        rw [entry_insert, entry_prune]
        refine ite_congr rfl (fun _ => ?_) fun _ => rfl
        have hlife : (0 : ℤ) ≤ loginLifetime := by decide
        simp [Option.filter, Login.session, hlife]
      · simp [Tables.saveSessions, Tables.saved]

theorem exec_removeSession {cookie : Bytes} {err : Option String} {r : Session × Bool}
    (hclock : 0 < s.now) (h : exec w i (.removeSession cookie err) s r s') :
    Entries w s s' (.op i (.removeSession cookie err) r) := by
  obtain ⟨rfl, rfl⟩ := h
  simp only [Tables.removeSession]
  cases err with
  | some e =>
    refine .same (fun _ => rfl) (fun c _ => ?_) rfl
    simp only [Tables.saveSessions]
    rw [entry_insert, entry_erase]
    split_ifs with heq
    · -- the entry is put back; a zero value that was not there before has expired
      rw [entry, heq]
      cases s.tables.sessions.lookup cookie with
      | none => simp [Option.filter, hclock]
      | some σ => rfl
    · rfl
  | none =>
    refine .logout (fun c => ?_) ?_
    · simp only [Tables.saveSessions]
      rw [entry_erase]
    · simp [Tables.saveSessions, Tables.saved]

theorem exec_entries (hclock : 0 < s.now) {e : Op} {r : Result e} (h : exec w i e s r s') :
    Entries w s s' (.op i e r) := by
  cases e with
  | newSession err => exact exec_newSession h
  | removeSession cookie err => exact exec_removeSession hclock h
  | getSession cookie =>
    obtain ⟨-, rfl⟩ := h
    cases cookie with
    | none => exact .same (fun _ => rfl) (fun _ _ => rfl) rfl
    | some c => exact .same (fun _ => rfl) (fun _ _ => entry_prune _) rfl
  | takeTicket token =>
    obtain ⟨-, rfl⟩ := h
    exact .same (fun _ => rfl) (fun _ _ => entry_prune _) rfl
  | issueTicket user =>
    obtain ⟨-, -, rfl⟩ := h
    exact .same (fun _ => rfl) (fun _ _ => entry_prune _) rfl
  | limit =>
    obtain ⟨-, rfl⟩ := h
    refine .same (fun _ => rfl) (fun c _ => ?_) ?_
    · simp only [Tables.limit]
      split_ifs <;> rfl
    · simp only [Tables.limit]
      split_ifs <;> rfl
  | store c =>
    obtain ⟨-, -, rfl⟩ := h
    exact .same (fun _ => rfl) (fun _ _ => rfl) rfl
  | capture c =>
    obtain ⟨_, -, -, rfl⟩ := h
    exact .same (fun _ => rfl) (fun _ _ => rfl) rfl
  | unlock =>
    subst h
    exact .same (fun _ => rfl) (fun _ _ => rfl) rfl
  | dropTickets _ =>
    subst h
    exact .same (fun _ => rfl) (fun _ _ => rfl) rfl
  | reply _ =>
    subst h
    exact .same (fun _ => rfl) (fun _ _ => rfl) rfl
  | _ =>
    obtain ⟨-, rfl⟩ := h
    exact .same (fun _ => rfl) (fun _ _ => rfl) rfl

namespace Login

/-! ### The logins of a history -/

/-- The login of a cookie by the history: the latest that happened to it is a login
    that succeeded, and that has not expired. -/
def expected (as : List Step) (now : Time) (cookie : Bytes) : Option Session :=
  match latest (concerns cookie) as with
  | some (.op _ (.newSession _) (.ok l)) => (some l.session).filter fun s => ¬ s.untilTime < now
  | _ => none

variable {as : List Step} {now : Time} {cookie : Bytes}

theorem expected_login (i : ℕ) (err : Option String) (l : Login) :
    expected (as ++ [.op i (.newSession err) (.ok l)]) now cookie =
      if cookie = l.token then (some l.session).filter fun s => ¬ s.untilTime < now
      else expected as now cookie := by
  unfold expected
  rw [latest_snoc]
  by_cases h : cookie = l.token
  · rw [if_pos (by simp [concerns, h]), if_pos h]
  · rw [if_neg (by simpa [concerns] using Ne.symm h), if_neg h]

theorem expected_logout (i : ℕ) (c : Bytes) (err : Option String) (p : Session) :
    expected (as ++ [.op i (.removeSession c err) (p, true)]) now cookie =
      if cookie = c then none else expected as now cookie := by
  unfold expected
  rw [latest_snoc]
  by_cases h : cookie = c
  · rw [if_pos (by simp [concerns, h]), if_pos h]
  · rw [if_neg (by simpa [concerns] using Ne.symm h), if_neg h]

theorem expected_same {a : Step} (h : concerns cookie a = false) :
    expected (as ++ [a]) now cookie = expected as now cookie := by
  unfold expected
  rw [latest_snoc, h, if_neg Bool.false_ne_true]

theorem expected_later {now' : Time} (h : now ≤ now') :
    expected as now' cookie = (expected as now cookie).filter fun s => ¬ s.untilTime < now' := by
  unfold expected
  split
  · exact (filter_filter h _).symm
  · rfl

/-- A cookie is expected exactly if the latest that happened to it is its login, at
    most eight hours ago. -/
theorem expected_isSome_iff : (expected as now cookie).isSome ↔
    ∃ i err l, latest (concerns cookie) as = some (.op i (.newSession err) (.ok l)) ∧
      l.token = cookie ∧ now ≤ l.time + loginLifetime := by
  have htoken : ∀ i err l, latest (concerns cookie) as = some (.op i (.newSession err) (.ok l)) →
      l.token = cookie := by
    intro i err l hl
    simpa [concerns] using List.find?_some hl
  unfold expected
  constructor
  · intro h
    split at h
    · rename_i i err l hl
      refine ⟨i, err, l, hl, htoken i err l hl, ?_⟩
      by_contra hlate
      simp [Option.filter, Login.session, not_le.1 hlate] at h
    · cases h
  · rintro ⟨i, err, l, hl, -, hnow⟩
    simp [hl, Option.filter, Login.session, hnow]

/-! ### The invariant -/

/-- The invariant of the logins. -/
structure Inv (w : Setup) (as : List Step) (s : Web) : Prop where
  clock : 0 < s.now
  memory : ∀ c, entry s.now s.tables.sessions c = expected as s.now c
  file : ∀ c, entry s.now (s.tables.saved w.credential) c = expected as s.now c
  drawn : ∀ c, (expected as s.now c).isSome → c ∈ s.drawn
  removed : ∀ i c err p, .op i (.removeSession c err) (p, true) ∈ as →
    c ∈ s.drawn ∧ expected as s.now c = none

namespace Inv

theorem init (h : Started w s) : Inv w [] s := by
  obtain ⟨file, htables, hfile⟩ := h.tables
  refine ⟨h.clock, fun c => ?_, fun c => ?_, fun c hc => (by cases hc), fun _ _ _ _ hmem => by
    cases hmem⟩
  · rw [htables]
    exact entry_empty
  · rw [htables, Tables.saved]
    cases file with
    | none => exact entry_empty
    | some f =>
      simp only [if_neg (hfile f rfl)]
      exact entry_empty

/-- A step that does not concern any login. -/
theorem same (h : Inv w as s) {a : Step} (ha : ∀ c, concerns c a = false) (hnow : s'.now = s.now)
    (hdrawn : s.drawn ⊆ s'.drawn)
    (hmemory : ∀ c, c ∈ s.drawn ∨ entry s.now s.tables.sessions c = none →
      entry s.now s'.tables.sessions c = entry s.now s.tables.sessions c)
    (hfile : ∀ c, entry s.now (s'.tables.saved w.credential) c =
      entry s.now (s.tables.saved w.credential) c) : Inv w (as ++ [a]) s' where
  clock := hnow ▸ h.clock
  memory c := by
    rw [hnow, expected_same (ha c), hmemory c, h.memory c]
    by_cases hc : c ∈ s.drawn
    · exact .inl hc
    · rw [h.memory c]
      exact .inr (Option.not_isSome_iff_eq_none.1 fun hsome => hc (h.drawn c hsome))
  file c := by rw [hnow, expected_same (ha c), hfile c, h.file c]
  drawn c hc := by
    rw [hnow, expected_same (ha c)] at hc
    exact hdrawn (h.drawn c hc)
  removed i c err p hmem := by
    rcases mem_snoc.1 hmem with hold | hnew
    · rw [hnow, expected_same (ha c)]
      exact ⟨hdrawn (h.removed i c err p hold).1, (h.removed i c err p hold).2⟩
    · have hc := ha c
      rw [← hnew] at hc
      simp [concerns] at hc

/-- An operation keeps the invariant; a login that is ended is one that was drawn. -/
theorem op (h : Inv w as s) {e : Op} {r : Result e} (hexec : exec w i e s r s')
    (hknown : ∀ c err, e = .removeSession c err → c ∈ s.drawn) :
    Inv w (as ++ [.op i e r]) s' := by
  have hleaves := exec_leaves hexec
  have hentries := exec_entries h.clock hexec
  have hnow := hleaves.now
  generalize ha : (.op i e r : Step) = a at hentries ⊢
  cases hentries with
  | same hc hmemory hfile =>
    exact h.same hc hnow hleaves.drawn hmemory fun c => by rw [saved_of_file hfile]
  | @login j err l htime hfresh hdrawn hmemory hfile =>
    have hlive : ∀ c, expected (as ++ [.op j (.newSession err) (.ok l)]) s.now c =
        if c = l.token then some l.session else expected as s.now c := by
      intro c
      rw [expected_login]
      refine ite_congr rfl (fun _ => ?_) fun _ => rfl
      have hlife : (0 : ℤ) ≤ loginLifetime := by decide
      simp [Option.filter, Login.session, htime, hlife]
    have hmem : ∀ c, entry s.now s'.tables.sessions c =
        expected (as ++ [.op j (.newSession err) (.ok l)]) s.now c := by
      intro c
      rw [hmemory c, hlive c, h.memory c]
    refine ⟨hnow ▸ h.clock, hnow ▸ hmem, ?_, fun c hc => ?_, fun k c err' p hrem => ?_⟩
    · rw [hfile, hnow]
      exact hmem
    · rw [hnow, hlive c] at hc
      split_ifs at hc with heq
      · exact heq ▸ hdrawn
      · exact hleaves.drawn (h.drawn c hc)
    · rcases mem_snoc.1 hrem with hold | hnew
      · obtain ⟨hc, hnone⟩ := h.removed k c err' p hold
        -- the cookie was drawn before, so it is not the one of the new login
        rw [hnow, hlive c, if_neg fun heq : c = l.token => hfresh (heq ▸ hc)]
        exact ⟨hleaves.drawn hc, hnone⟩
      · cases hnew
  | @logout _ cookie err p hmemory hfile =>
    cases ha
    have hmem : ∀ c, entry s.now s'.tables.sessions c =
        expected (as ++ [.op i (.removeSession cookie err) (p, true)]) s.now c := by
      intro c
      rw [hmemory c, expected_logout, h.memory c]
    refine ⟨hnow ▸ h.clock, hnow ▸ hmem, ?_, fun c hc => ?_, fun k c err' p' hrem => ?_⟩
    · rw [hfile, hnow]
      exact hmem
    · rw [hnow, expected_logout] at hc
      split_ifs at hc
      · cases hc
      · exact hleaves.drawn (h.drawn c hc)
    · rw [hnow, expected_logout]
      rcases mem_snoc.1 hrem with hold | hnew
      · obtain ⟨hc, hnone⟩ := h.removed k c err' p' hold
        refine ⟨hleaves.drawn hc, ?_⟩
        split_ifs
        · rfl
        · exact hnone
      · cases hnew
        exact ⟨hleaves.drawn (hknown _ _ rfl), if_pos rfl⟩

/-- Time passes, and logins expire. -/
theorem later (h : Inv w as s) {t : Time} (ht : s.now ≤ t) (a : Step)
    (ha : ∀ c, concerns c a = false) : Inv w (as ++ [a]) { s with now := t } where
  clock := lt_of_lt_of_le h.clock ht
  memory c := by
    change entry t s.tables.sessions c = expected (as ++ [a]) t c
    rw [expected_same (ha c), entry_later ht, h.memory c, expected_later ht]
  file c := by
    change entry t (s.tables.saved w.credential) c = expected (as ++ [a]) t c
    rw [expected_same (ha c), entry_later ht, h.file c, expected_later ht]
  drawn c hc := by
    change (expected (as ++ [a]) t c).isSome at hc
    rw [expected_same (ha c), expected_later ht] at hc
    refine h.drawn c ?_
    cases hold : expected as s.now c with
    | none => simp [hold] at hc
    | some _ => rfl
  removed i c err p hmem := by
    rcases mem_snoc.1 hmem with hold | hnew
    · refine ⟨(h.removed i c err p hold).1, ?_⟩
      change expected (as ++ [a]) t c = none
      rw [expected_same (ha c), expected_later ht, (h.removed i c err p hold).2]
      rfl
    · have hc := ha c
      rw [← hnew] at hc
      simp [concerns] at hc

end Inv

/-! ### The outline -/

/-- A thread ends only the login it has authorized, whose cookie is its stage. -/
def stages : Stages Op Result (Option Bytes) where
  allowed
    | l, .removeSession c _ => l = some c
    | _, _ => True
  next
    | _, .getSession cookie, some _ => some (cookie.getD [])
    | l, _, _ => l

open scoped Following in
theorem follows (w : Setup) (q : Query) : (handler w q).Follows stages none fun _ _ => True := by
  cases q with
  | enroll token => cases token <;> simp [stages]
  | qr r image => cases image <;> simp [stages]
  | captureStream origin id token around =>
    cases token <;> cases hp : around.peer <;> simp [hp, stages]
  | captureRedeem body => cases body <;> simp [stages]
  | userCapture r => cases ha : r.around.captureAWG <;> simp [ha, stages]
  | _ => simp [stages]

/-- The outline of logins. -/
def outline (w : Setup) : Outline (machine w) (Option Bytes) where
  toStages := stages
  start _ := none
  lost := none
  inv := Inv w
  holds _ l _ s := ∀ c, l = some c → c ∈ s.drawn

theorem valid (w : Setup) : (outline w).Valid where
  follows := follows w
  init h := .init h
  spawn hinv := ⟨hinv.same (fun _ => rfl) rfl (fun _ hc => hc) (fun _ _ => rfl) fun _ => rfl,
    fun c hc => by cases hc⟩
  spawn_frame _ hl := hl
  op {as x i l e r s'} _ hinv hl hallowed hexec := by
    have hdrawn := (exec_leaves hexec).drawn
    refine ⟨hinv.op hexec fun c err he => hl c (by subst he; exact hallowed), fun c hc => ?_⟩
    cases e with
    | getSession cookie =>
      cases r with
      | none => exact hdrawn (hl c hc)
      | some σ =>
        cases cookie with
        | none => cases hexec.1
        | some c' =>
          -- the cookie is accepted, so it was issued
          cases hc
          refine hdrawn (hinv.drawn c' ?_)
          rw [← hinv.memory c', ← getSession_eq, ← hexec.1]
          rfl
    | _ => exact hdrawn (hl c hc)
  op_frame _ _ _ _ hexec _ hl c hc := (exec_leaves hexec).drawn (hl c hc)
  env {as s c s'} hinv henv := by
    cases c with
    | tick t =>
      obtain ⟨ht, rfl⟩ := henv
      exact hinv.later ht _ fun _ => rfl
    | restart => exact henv.elim
    | store =>
      obtain ⟨_, -, rfl⟩ := henv
      exact hinv.same (fun _ => rfl) rfl (fun _ hc => hc) (fun _ _ => rfl) fun _ => rfl
    | _ =>
      subst henv
      exact hinv.same (fun _ => rfl) rfl (fun _ hc => hc) (fun _ _ => rfl) fun _ => rfl
  env_frame _ henv hl c hc := (background_leaves henv).1 ▸ hl c hc
  crash hinv hcrash := by
    obtain ⟨-, _, _, _, -, -, rfl⟩ := hcrash
    refine ⟨hinv.same (fun _ => rfl) rfl (fun _ hc => hc) (fun c _ => ?_) fun c => ?_,
      fun _ c hc => by cases hc⟩
    · rw [entry_restart, hinv.file c, hinv.memory c]
    · rw [saved_restart]

/-- A schedule: a login, with its cookie and its CSRF token. -/
def sample : List Move := Sample.login 0 (Sample.digits 48 1) (Sample.digits 48 2)

theorem sample_isSome : (schedule Sample.setup sample Sample.start).isSome := by decide +kernel

/-- What comes of the schedule. -/
def sampleEnd : List Step × Pool Web Op Result :=
  (schedule Sample.setup sample Sample.start).get sample_isSome

theorem sample_run : (machine Sample.setup).system.Run sampleEnd.1 sampleEnd.2 :=
  run_of_schedule Sample.start_run (Option.some_get sample_isSome).symm

end Login

/-- Is the step a login or a logout that fails to save? -/
def Unsaved : Step → Prop
  | .op _ (.newSession _) .failed => True
  | .op _ (.removeSession _ _) (_, false) => True
  | _ => False

theorem concerns_unsaved {cookie : Bytes} {a : Step} (h : Unsaved a) :
    concerns cookie a = false := by
  unfold Unsaved at h
  split at h
  · rfl
  · rfl
  · exact h.elim

/-- Logins are durable. After any requests, time passing, failed saves and restarts
    with the same credentials, a cookie is accepted exactly if the latest that
    happened to it is a login that succeeded, at most eight hours ago, and not its
    logout. After a logout that succeeded it is never accepted again. A login or a
    logout that fails to save leaves what is accepted as it was, also after a
    restart. -/
theorem login_durable {w : Setup} {as : List Step} {x : Pool Web Op Result}
    (h : (machine w).system.Run as x) :
    (∀ cookie, (x.shared.tables.getSession (some cookie) x.shared.now).1.isSome ↔
      ∃ i err l, latest (concerns cookie) as = some (.op i (.newSession err) (.ok l)) ∧
        l.token = cookie ∧ x.shared.now ≤ l.time + loginLifetime) ∧
    (∀ pre post i err l, as = pre ++ .op i (.newSession err) (.ok l) :: post →
      ∃ y, (machine w).system.Run pre y ∧ y.shared.now = l.time) ∧
    (∀ i cookie err p, .op i (.removeSession cookie err) (p, true) ∈ as →
      (x.shared.tables.getSession (some cookie) x.shared.now).1 = none) ∧
    (∀ a x' cookie, Unsaved a → (machine w).Step x a x' →
      (x'.shared.tables.getSession (some cookie) x'.shared.now).1 =
        (x.shared.tables.getSession (some cookie) x.shared.now).1 ∧
      ((x'.shared.tables.restart w.credential x'.shared.now).getSession (some cookie)
        x'.shared.now).1 =
        ((x.shared.tables.restart w.credential x.shared.now).getSession (some cookie)
          x.shared.now).1) := by
  have hinv := ((Login.valid w).run h).1
  refine ⟨fun cookie => ?_, fun pre post i err l has => ?_, fun i cookie err p hmem => ?_,
    fun a x' cookie ha hstep => ?_⟩
  · rw [getSession_eq, hinv.memory cookie, Login.expected_isSome_iff]
  · subst has
    obtain ⟨y, y', hpre, hstep, -⟩ := h.split
    refine ⟨y, hpre, ?_⟩
    cases hstep with
    | @op _ _ _ _ s' _ hexec =>
      have hclock := ((Login.valid w).run hpre).1.clock
      have hexec' : exec w i (.newSession err) y.shared (.ok l) s' := hexec
      cases exec_entries hclock hexec' with
      | login htime => exact htime.symm
      | same hc => simpa [concerns] using hc l.token
  · rw [getSession_eq, hinv.memory cookie, (hinv.removed i cookie err p hmem).2]
  · have hinv' := ((Login.valid w).run (h.step hstep)).1
    have hnow : x'.shared.now = x.shared.now := by
      cases hstep with
      | op _ hexec => exact (exec_leaves (w := w) hexec).now
      | _ => exact ha.elim
    rw [getSession_eq, getSession_eq, getSession_eq, getSession_eq, entry_restart, entry_restart,
      hinv'.memory, hinv'.file, hinv.memory, hinv.file, Login.expected_same (concerns_unsaved ha),
      hnow]
    exact ⟨rfl, rfl⟩

/-- A login is accepted. -/
theorem login_durable_sample :
    (Login.sampleEnd.2.shared.tables.getSession (some (Sample.digits 48 1))
      Login.sampleEnd.2.shared.now).1.isSome ∧
    ∃ i err l, latest (concerns (Sample.digits 48 1)) Login.sampleEnd.1 =
        some (.op i (.newSession err) (.ok l)) ∧
      l.token = Sample.digits 48 1 ∧
        Login.sampleEnd.2.shared.now ≤ l.time + loginLifetime := by
  have haccepted : (Login.sampleEnd.2.shared.tables.getSession (some (Sample.digits 48 1))
      Login.sampleEnd.2.shared.now).1.isSome := by decide +kernel
  exact ⟨haccepted, ((login_durable Login.sample_run).1 _).1 haccepted⟩

end QuicLab.Admin.Web
