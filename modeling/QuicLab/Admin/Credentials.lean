import QuicLab.Admin.Login

/-!
# Changing the credentials

The server may be started again with another username or password. The file
`admin-sessions.json` then stays as it is until a login or a logout is saved, and it
is read again by a later run that has the credentials it was written under.

* `Servers`: runs of the server one after the other, each with its own setup;
* `credentials_restored`: a login is accepted again after the credentials were
  changed and changed back;
* `credentials_revoke`: a change of the credentials revokes all earlier logins,
  provided that the file was not written under the new ones.
-/

namespace QuicLab.Admin.Web

open Go

/-- The server as it is set up, and its state. -/
structure Servers where
  setup : Setup
  pool : Pool Web Op Result

namespace Servers

/-- The username and the password. -/
def credentials (w : Setup) : Bytes × Bytes := (w.config.username, w.config.password)

/-- What can happen: a step of the server, or it is stopped and started again with
    a new setup. -/
inductive Act
  | step (a : Web.Step)
  | restart (old new : Setup)

/-- The steps. The hash function is always the same. -/
inductive Step : Servers → Act → Servers → Prop
  | step {v : Servers} {a : Web.Step} {x : Pool Web Op Result} :
    (machine v.setup).Step v.pool a x → Step v (.step a) ⟨v.setup, x⟩
  | restart {v : Servers} {new : Setup} {s : Web} :
    new.certs = v.setup.certs → Web.restart new v.pool.shared .restart s →
      Step v (.restart v.setup new) ⟨new, s, fun i => (v.pool.threads i).map fun _ => .ret ()⟩

/-- The server, started any number of times. -/
def system : System Servers Act where
  init v := (machine v.setup).system.init v.pool
  step := Step

/-- A restart with other credentials than before finds a file that was not written
    under the new ones, or none. -/
def Fresh (v : Servers) : Act → Prop
  | .step _ => True
  | .restart _ new => ∀ f, v.pool.shared.tables.file = some f → f.credential = new.credential →
      credentials new = credentials v.setup

/-- Is the cookie accepted? -/
def Accepts (v : Servers) (cookie : Bytes) : Prop :=
  (v.pool.shared.tables.getSession (some cookie) v.pool.shared.now).1.isSome

/-- The cookie was issued, and after that the credentials were changed. -/
def Stale (as : List Act) (cookie : Bytes) : Prop :=
  ∃ pre post i err l old new, as = pre ++ .step (.op i (.newSession err) (.ok l)) :: post ∧
    l.token = cookie ∧ .restart old new ∈ post ∧ credentials new ≠ credentials old

/-- The cookie was issued. -/
def Issued (as : List Act) (cookie : Bytes) : Prop :=
  ∃ i err l, .step (.op i (.newSession err) (.ok l)) ∈ as ∧ l.token = cookie

variable {as : List Act} {cookie : Bytes} {a : Act}

theorem Stale.issued (h : Stale as cookie) : Issued as cookie := by
  obtain ⟨pre, post, i, err, l, _, _, rfl, hl, -⟩ := h
  exact ⟨i, err, l, by simp, hl⟩

/-- A cookie becomes stale when the credentials are changed. -/
theorem Stale.of_snoc (h : Stale (as ++ [a]) cookie) :
    Stale as cookie ∨
      Issued as cookie ∧ ∃ old new, a = .restart old new ∧ credentials new ≠ credentials old := by
  obtain ⟨pre, post, i, err, l, old, new, has, hl, hmem, hne⟩ := h
  rcases List.eq_nil_or_concat post with rfl | ⟨post, b, rfl⟩
  · cases hmem
  · rw [List.concat_eq_append, ← List.cons_append, ← List.append_assoc] at has
    obtain ⟨rfl, hab⟩ := List.append_inj' has rfl
    cases hab
    rw [List.concat_eq_append] at hmem
    rcases mem_snoc.1 hmem with hold | hnew
    · exact .inl ⟨pre, post, i, err, l, old, new, rfl, hl, hold, hne⟩
    · exact .inr ⟨⟨i, err, l, by simp, hl⟩, old, new, hnew.symm, hne⟩

/-- The invariant: stale logins are neither in memory nor in what would be read from
    the file. -/
structure Inv (as : List Act) (v : Servers) : Prop where
  clock : 0 < v.pool.shared.now
  issued : ∀ cookie, Issued as cookie → cookie ∈ v.pool.shared.drawn
  memory : ∀ cookie, Stale as cookie →
    entry v.pool.shared.now v.pool.shared.tables.sessions cookie = none
  file : ∀ cookie, Stale as cookie →
    entry v.pool.shared.now (v.pool.shared.tables.saved v.setup.credential) cookie = none

theorem Issued.of_snoc (h : Issued (as ++ [a]) cookie) :
    Issued as cookie ∨ ∃ i err l, a = .step (.op i (.newSession err) (.ok l)) ∧ l.token = cookie := by
  obtain ⟨i, err, l, hmem, hl⟩ := h
  rcases mem_snoc.1 hmem with hold | hnew
  · exact .inl ⟨i, err, l, hold, hl⟩
  · exact .inr ⟨i, err, l, hnew.symm, hl⟩

variable {v v' : Servers}

/-- A step of the server, other than a restart with a new setup, under which stale
    logins stay away. -/
theorem Inv.step (h : Inv as v) {b : Web.Step} (hsetup : v'.setup = v.setup)
    (hclock : 0 < v'.pool.shared.now)
    (hdrawn : ∀ cookie, Issued (as ++ [.step b]) cookie → cookie ∈ v'.pool.shared.drawn)
    (hmemory : ∀ cookie, cookie ∈ v.pool.shared.drawn →
      entry v.pool.shared.now v.pool.shared.tables.sessions cookie = none →
      entry v.pool.shared.now (v.pool.shared.tables.saved v.setup.credential) cookie = none →
      entry v'.pool.shared.now v'.pool.shared.tables.sessions cookie = none ∧
        entry v'.pool.shared.now (v'.pool.shared.tables.saved v.setup.credential) cookie = none) :
    Inv (as ++ [.step b]) v' := by
  have hstale : ∀ cookie, Stale (as ++ [.step b]) cookie → Stale as cookie := by
    intro cookie hs
    rcases hs.of_snoc with hs | ⟨-, _, _, hr, -⟩
    · exact hs
    · cases hr
  have hall := fun cookie hs => hmemory cookie (h.issued cookie (hstale cookie hs).issued)
    (h.memory cookie (hstale cookie hs)) (h.file cookie (hstale cookie hs))
  refine ⟨hclock, hdrawn, fun cookie hs => (hall cookie hs).1, fun cookie hs => ?_⟩
  rw [hsetup]
  exact (hall cookie hs).2

/-- A step that issues no cookie. -/
theorem Issued.of_step {b : Web.Step} (h : Issued (as ++ [.step b]) cookie)
    (hb : ∀ c, concerns c b = false) : Issued as cookie := by
  rcases h.of_snoc with hold | ⟨i, err, l, hb', -⟩
  · exact hold
  · have hc := hb l.token
    cases hb'
    simp [concerns] at hc

/-- An operation of the server keeps the invariant. -/
theorem Inv.op (h : Inv as v) {i : ℕ} {e : Op} {r : Result e} {x : Pool Web Op Result}
    (hexec : exec v.setup i e v.pool.shared r x.shared) :
    Inv (as ++ [.step (.op i e r)]) ⟨v.setup, x⟩ := by
  have hleaves := exec_leaves hexec
  have hentries := exec_entries h.clock hexec
  have hnow := hleaves.now
  generalize (.op i e r : Web.Step) = b at hentries
  refine h.step rfl (hnow ▸ h.clock) (fun cookie hi => ?_) fun cookie hd hm hf => ?_
  · cases hentries with
    | login _ _ hdrawn _ _ =>
      rcases hi.of_snoc with hold | ⟨_, _, _, hb, rfl⟩
      · exact hleaves.drawn (h.issued cookie hold)
      · cases hb
        exact hdrawn
    | logout _ _ =>
      rcases hi.of_snoc with hold | ⟨_, _, _, hb, -⟩
      · exact hleaves.drawn (h.issued cookie hold)
      · cases hb
    | same hc _ _ => exact hleaves.drawn (h.issued cookie (hi.of_step hc))
  · rw [hnow]
    cases hentries with
    | @login _ _ l _ hnew _ hmemory hfile =>
      have hnone : entry v.pool.shared.now x.shared.tables.sessions cookie = none := by
        rw [hmemory cookie, if_neg fun heq : cookie = l.token => hnew (heq ▸ hd), hm]
      exact ⟨hnone, by rw [hfile, hnone]⟩
    | logout hmemory hfile =>
      have hnone : entry v.pool.shared.now x.shared.tables.sessions cookie = none := by
        rw [hmemory cookie, hm, ite_self]
      exact ⟨hnone, by rw [hfile, hnone]⟩
    | same _ hmemory hfile =>
      exact ⟨by rw [hmemory cookie (.inl hd), hm], by rw [saved_of_file hfile, hf]⟩

theorem inv_step (h : Inv as v) (hfresh : Fresh v a) (hs : Step v a v') : Inv (as ++ [a]) v' := by
  cases hs with
  | @step b x hstep =>
    cases hstep with
    | spawn _ =>
      exact h.step rfl h.clock (fun cookie hi => h.issued cookie (hi.of_step fun _ => rfl))
        fun _ _ hm hf => ⟨hm, hf⟩
    | op _ hexec => exact h.op (x := ⟨_, _⟩) hexec
    | @env c s' henv =>
      obtain ⟨hdrawn, htables, -, hnow⟩ := background_leaves (w := v.setup) henv
      refine h.step rfl (lt_of_lt_of_le h.clock hnow) (fun cookie hi => ?_) fun cookie _ hm hf => ?_
      · change cookie ∈ s'.drawn
        rw [hdrawn]
        exact h.issued cookie (hi.of_step fun _ => rfl)
      · change entry s'.now s'.tables.sessions cookie = none ∧
          entry s'.now (s'.tables.saved _) cookie = none
        rw [htables, entry_later hnow, entry_later hnow, hm, hf]
        exact ⟨rfl, rfl⟩
    | crash hcrash =>
      obtain ⟨-, _, _, _, -, -, rfl⟩ := hcrash
      refine h.step rfl h.clock (fun cookie hi => h.issued cookie (hi.of_step fun _ => rfl))
        fun cookie _ hm hf => ?_
      rw [entry_restart, saved_restart]
      exact ⟨hf, hf⟩
  | @restart new s hcerts hrestart =>
    obtain ⟨-, _, _, _, -, -, rfl⟩ := hrestart
    have hissued : ∀ cookie, Issued (as ++ [.restart v.setup new]) cookie →
        cookie ∈ v.pool.shared.drawn := by
      intro cookie hi
      rcases hi.of_snoc with hold | ⟨_, _, _, hb, -⟩
      · exact h.issued cookie hold
      · cases hb
    have hfile : ∀ cookie, Stale (as ++ [.restart v.setup new]) cookie →
        entry v.pool.shared.now (v.pool.shared.tables.saved new.credential) cookie = none := by
      intro cookie hs
      by_cases hsame : credentials new = credentials v.setup
      · have hcredential : new.credential = v.setup.credential := by
          obtain ⟨huser, hpassword⟩ := Prod.mk.inj hsame
          rw [Setup.credential, Setup.credential, hcerts, huser, hpassword]
        rw [hcredential]
        rcases hs.of_snoc with hold | ⟨-, _, _, hr, hne⟩
        · exact h.file cookie hold
        · cases hr
          exact absurd hsame hne
      · -- the file was not written under the new credentials
        rw [Tables.saved]
        cases hf : v.pool.shared.tables.file with
        | none => exact entry_empty
        | some f =>
          dsimp only
          rw [if_neg fun heq => hsame (hfresh f hf heq)]
          exact entry_empty
    refine ⟨h.clock, hissued, fun cookie hs => ?_, fun cookie hs => ?_⟩
    · change entry _ (Tables.restart _ _ _).sessions _ = _
      rw [entry_restart]
      exact hfile cookie hs
    · change entry _ ((Tables.restart _ _ _).saved _) _ = _
      rw [saved_restart]
      exact hfile cookie hs

theorem inv_of_run (h : (system.restrict Fresh).Run as v) : Inv as v := by
  refine System.Run.invariant (m := system.restrict Fresh) (P := Inv) (fun v hinit => ?_)
    (fun as v a v' hinv hs => inv_step hinv hs.1 hs.2) h
  refine ⟨hinit.1.clock, ?_, fun cookie hs => ?_, fun cookie hs => ?_⟩
  · rintro cookie ⟨_, _, _, hmem, -⟩
    cases hmem
  · obtain ⟨_, _, _, hmem, -⟩ := hs.issued
    cases hmem
  · obtain ⟨_, _, _, hmem, -⟩ := hs.issued
    cases hmem

/-- What one run of the server does, the servers do. -/
theorem run_of_machine {P : Servers → Act → Prop} (hP : ∀ v b, P v (.step b)) {w : Setup}
    {bs : List Web.Step} {x : Pool Web Op Result} (h : (machine w).system.Run bs x) :
    (system.restrict P).Run (bs.map .step) ⟨w, x⟩ := by
  induction h with
  | init hinit => exact .init hinit
  | @step bs x x' b _ hs ih =>
    rw [List.map_append]
    exact ih.step ⟨hP _ b, .step hs⟩

/-! ### A change of the password, undone -/

/-- The server with another password. -/
def other : Setup :=
  { Sample.setup with config := { Sample.setup.config with password := str "other" } }

/-- The server started again. -/
def again (new : Setup) (v : Servers) : Servers :=
  ⟨new, ⟨v.pool.shared.tables.restart new.credential v.pool.shared.now, Sample.store, Sample.captures,
    none, v.pool.shared.now, v.pool.shared.drawn⟩,
    fun i => (v.pool.threads i).map fun _ => .ret ()⟩

/-- The server after a login. -/
def loggedIn : Servers := ⟨Sample.setup, Login.sampleEnd.2⟩

theorem again_step {v : Servers} {new : Setup} (hcerts : new.certs = v.setup.certs)
    (hcapture : NewCapture new Sample.captures) (hfile : v.pool.shared.store.file = Sample.store.file) :
    Step v (.restart v.setup new) (again new v) := by
  refine .restart hcerts ⟨rfl, ⟨none, .ok (365 * 86400 * second), [], [], none⟩, _, _, ?_, hcapture,
    rfl⟩
  rw [hfile]
  rfl

theorem loggedIn_issued {as : List Act} : ∃ pre post i err l,
    Login.sampleEnd.1.map .step ++ as = pre ++ .step (.op i (.newSession err) (.ok l)) :: post ∧
      l.token = Sample.digits 48 1 ∧ as <:+ post :=
  ⟨(Login.sampleEnd.1.take 2).map .step, (Login.sampleEnd.1.drop 3).map .step ++ as, 0, none,
    ⟨Sample.digits 48 1, Sample.digits 48 2, 1⟩, rfl, rfl, List.suffix_append _ _⟩

/-- The server after a login and a restart. -/
theorem loggedIn_again : (system.restrict Fresh).Run
    (Login.sampleEnd.1.map .step ++ [.restart Sample.setup Sample.setup])
    (again Sample.setup loggedIn) := by
  have hlogin : (system.restrict Fresh).Run _ loggedIn :=
    run_of_machine (fun _ _ => trivial) Login.sample_run
  exact hlogin.step ⟨fun _ _ _ => rfl, again_step rfl rfl rfl⟩

end Servers

open Servers

/-- The password is changed, and changed back. A login from before is accepted. -/
theorem credentials_restored : ∃ as v cookie, Servers.system.Run as v ∧ v.Accepts cookie ∧
    Stale as cookie := by
  have hlogin : Servers.system.Run _ loggedIn :=
    (run_of_machine (P := fun _ _ => True) (fun _ _ => trivial) Login.sample_run).of_restrict
  have hother : Servers.system.Run _ (again other loggedIn) :=
    hlogin.step (again_step rfl rfl rfl)
  have hback : Servers.system.Run _ (again Sample.setup (again other loggedIn)) :=
    hother.step (again_step rfl rfl rfl)
  rw [List.append_assoc] at hback
  refine ⟨_, _, Sample.digits 48 1, hback, ?_, ?_⟩
  · unfold Accepts
    decide +kernel
  · obtain ⟨pre, post, i, err, l, has, hl, hsuffix⟩ := loggedIn_issued
    refine ⟨pre, post, i, err, l, Sample.setup, other, has, hl, hsuffix.subset List.mem_cons_self, ?_⟩
    decide

/-- A change of the credentials revokes earlier logins, when the file was not written
    under the new credentials: a cookie is accepted only if no restart since its login
    has changed the username or the password. -/
theorem credentials_revoke {as : List Act} {v : Servers}
    (h : (Servers.system.restrict Servers.Fresh).Run as v) {cookie : Bytes}
    (haccepts : v.Accepts cookie) {pre post : List Act} {i : ℕ} {err : Option String} {l : Login}
    (has : as = pre ++ .step (.op i (.newSession err) (.ok l)) :: post) (hl : l.token = cookie)
    {old new : Setup} (hrestart : .restart old new ∈ post) : credentials new = credentials old := by
  by_contra hne
  rw [Accepts, getSession_eq,
    (inv_of_run h).memory cookie ⟨pre, post, i, err, l, old, new, has, hl, hrestart, hne⟩] at haccepts
  cases haccepts

/-- The server is started again as it was. -/
theorem credentials_revoke_same : (again Sample.setup loggedIn).Accepts (Sample.digits 48 1) ∧
    credentials Sample.setup = credentials Sample.setup := by
  have haccepts : (again Sample.setup loggedIn).Accepts (Sample.digits 48 1) := by
    unfold Accepts
    decide +kernel
  obtain ⟨pre, post, i, err, l, has, hl, hsuffix⟩ := loggedIn_issued
  exact ⟨haccepts,
    credentials_revoke loggedIn_again haccepts has hl (hsuffix.subset List.mem_cons_self)⟩

end QuicLab.Admin.Web
