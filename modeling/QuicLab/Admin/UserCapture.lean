import QuicLab.Admin.Captures

/-!
# Captures of users

The traffic of a user is captured only while the user has access. The store and the
capture manager have locks of their own; that they agree is up to `userCaptureMu`,
which the handlers hold that start such a capture, or that change a user.

* `Captures.OK`: each running capture of a user is of one who exists and is not
  disabled, has been started since the protocols of the user were last set, and is
  the only one of the user;
* `Captures.outline`: it holds whenever the mutex is free, and a handler that holds
  the mutex breaks it for one user at most, until it has stopped the captures of
  that user;
* `captures_revoked`: what holds of the captures of users under every interleaving.
-/

namespace QuicLab.Admin.Web

open Go

namespace Captures

/-! ### Users -/

/-- The user exists, disabled or not. -/
def Has (st : Store) (id : Bytes) (disabled : Bool) : Prop :=
  ∃ u, st.state.users.lookup id = some u ∧ u.disabled = disabled

/-- The user whose access a call changes. -/
def target : Call → Option Bytes
  | .setProtocols id _ _ _ _ => some id
  | .delete id _ => some id
  | _ => none

section Users

variable {A : Assumptions} {st st' : Store} {id : Bytes} {d : Bool}

theorem has_of_core (h : Has st id d) (hcore : st'.state.core = st.state.core) : Has st' id d := by
  obtain ⟨u, hu, rfl⟩ := h
  obtain ⟨u', hu', hc⟩ := StateInv.lookup_of_core hcore hu
  exact ⟨u', hu', (congrArg User.disabled hc :)⟩

theorem has_insert (h : Has st id d) {id' : Bytes} {u : User}
    (hstate : st'.state.users = st.state.users.insert id' u)
    (hu : id = id' → u.disabled = d) : Has st' id d := by
  rw [Has, hstate]
  by_cases heq : id = id'
  · exact ⟨u, by rw [Map.lookup_insert', if_pos heq], hu heq⟩
  · obtain ⟨v, hv, hd⟩ := h
    exact ⟨v, by rw [Map.lookup_insert', if_neg heq, hv], hd⟩

/-- A call changes the access only of the user of the request it leaves. -/
theorem has_of_effect {e : Option Error} {r : Option Admin.Request} (heff : Effect A st (e, r, st'))
    (hr : ∀ q, r = some q → q.user ≠ id) (h : Has st id d) : Has st' id d := by
  cases heff with
  | failed hk => exact has_of_core h (by rw [hk.state])
  | noted _ hcore _ => exact has_of_core h hcore
  | identity _ hs =>
    rw [Has, hs.state]
    exact h
  | created _ hnew _ _ _ _ _ hs =>
    refine has_insert h (congrArg DiskState.users hs.state) fun heq => ?_
    obtain ⟨v, hv, -⟩ := h
    rw [← heq, hv] at hnew
    cases hnew
  | renamed hold _ _ hs =>
    refine has_insert h (congrArg DiskState.users hs.state) fun heq => ?_
    obtain ⟨v, hv, hd⟩ := h
    rw [heq, hold] at hv
    cases hv
    exact hd
  | set _ _ _ _ _ hs =>
    exact has_insert h (congrArg DiskState.users hs.state) fun heq => absurd heq.symm (hr _ rfl)
  | @deleted _ id' _ _ hstate =>
    obtain ⟨v, hv, hd⟩ := h
    have hne : id ≠ id' := (hr _ rfl).symm
    exact ⟨v, by rw [hstate, Map.lookup_erase', if_neg hne, hv], hd⟩

theorem target_of_request {x : Certs} {c : Call} {q : Admin.Request}
    (h : (c.apply x st).2.1 = some q) : target c = some q.user := by
  cases c with
  | setProtocols id ps disabled seed err =>
    rw [Call.apply] at h
    split at h
    · cases h
    · cases h
      rfl
  | delete id err =>
    rw [Call.apply] at h
    split at h
    · cases h
    · cases h
      rfl
  | create env name protocols =>
    rw [Call.apply] at h
    split at h <;> cases h
  | _ => cases h

theorem has_call (hinv : Admin.Inv A st) {x : Certs} {c : Call} (ha : c.Assumed A st)
    (ht : target c ≠ some id) (h : Has st id d) : Has (c.apply x st).2.2 id d :=
  has_of_effect (Call.effect ha hinv.state.id hinv.valid x)
    (fun _ hq heq => ht (heq ▸ target_of_request hq)) h

/-- A call that fails changes the access of nobody. -/
theorem has_failed (hinv : Admin.Inv A st) {x : Certs} {c : Call} (ha : c.Assumed A st)
    {e : Error} (he : (c.apply x st).1 = some e) (h : Has st id d) :
    Has (c.apply x st).2.2 id d := by
  have heff := Call.effect ha hinv.state.id hinv.valid x
  generalize hr : c.apply x st = r at heff he
  cases heff with
  | failed hk => exact has_of_core h (by rw [hk.state])
  | _ => cases he

end Users

variable {w : Setup} {i : ℕ} {s s' : Web}

/-- The others who use the store keep its invariant, and the access of all users. -/
theorem elsewhere {st st' : Store} (h : Elsewhere w st st') (hinv : Admin.Inv w.assumptions st) :
    Admin.Inv w.assumptions st' ∧ ∀ id d, Has st id d → Has st' id d := by
  cases h with
  | configureAWG c seed err ha =>
    have hassumed : (Call.configureAWG c seed err).Assumed w.assumptions st := ha
    exact ⟨hinv.call (x := w.certs) hassumed,
      fun id d => has_call (x := w.certs) hinv hassumed (fun ht => by cases ht)⟩
  | track cs transport peer now token err =>
    have hassumed : (Call.track cs transport peer now token err).Assumed w.assumptions st := trivial
    exact ⟨hinv.call (x := w.certs) hassumed,
      fun id d => has_call (x := w.certs) hinv hassumed (fun ht => by cases ht)⟩
  | trackDone id token since peer err =>
    have hassumed : (Call.trackDone id token since peer err).Assumed w.assumptions st := trivial
    exact ⟨hinv.call (x := w.certs) hassumed,
      fun id d => has_call (x := w.certs) hinv hassumed (fun ht => by cases ht)⟩
  | observeAWG status now err =>
    have hassumed : (Call.observeAWG status now err).Assumed w.assumptions st := trivial
    exact ⟨hinv.call (x := w.certs) hassumed,
      fun id d => has_call (x := w.certs) hinv hassumed (fun ht => by cases ht)⟩
  | register cs protocol token close now =>
    have hsame : (st.registerProtocol w.certs cs protocol close now token).2.awgConfig =
        st.awgConfig ∧ (st.registerProtocol w.certs cs protocol close now token).2.state = st.state ∧
        (st.registerProtocol w.certs cs protocol close now token).2.file = st.file := by
      rw [Store.registerProtocol]
      split
      · exact ⟨rfl, rfl, rfl⟩
      · split_ifs <;> exact ⟨rfl, rfl, rfl⟩
    refine ⟨hinv.of_same hsame.1 hsame.2.1 hsame.2.2, fun id d h => ?_⟩
    rw [Has, hsame.2.1]
    exact h
  | release id token => exact ⟨hinv.of_same rfl rfl rfl, fun _ _ h => h⟩

/-! ### Histories -/

open DebugCapture (Manager)

/-- Does the step set the protocols of the user, or start a capture of the user? -/
def marks (user : Bytes) : Step → Bool
  | .op _ (.store (.setProtocols id _ _ _ _)) none => id = user
  | .op _ (.capture (.startUser _ u _ _ _)) (.ok _) => u = user
  | _ => false

/-- The last of these was the start of this capture. -/
def Since (as : List Step) (user id : Bytes) : Prop :=
  ∃ i owner iface ip visited, latest (marks user) as =
    some (.op i (.capture (.startUser owner user iface ip visited)) (.ok id))

theorem Since.append {as : List Step} {user id : Bytes} (h : Since as user id) {a : Step}
    (ha : marks user a = false) : Since (as ++ [a]) user id := by
  obtain ⟨i, owner, iface, ip, visited, hl⟩ := h
  exact ⟨i, owner, iface, ip, visited, by rw [latest_snoc, ha, if_neg Bool.false_ne_true, hl]⟩

/-- The running captures of users are in order, but for those of one user. -/
def OK (except : Option Bytes) (as : List Step) (s : Web) : Prop :=
  ∀ id c, Running s.capture id c → c.kind = str "user" → except ≠ some c.user →
    c.user ≠ [] ∧ Has s.store c.user false ∧ Since as c.user id ∧
      ∀ id' c', Running s.capture id' c' → c'.user = c.user → id' = id

/-- The running sessions after a call that starts no capture of a user: some of those
    before, and possibly one that is of no user. -/
theorem running_apply {c : DebugCapture.Call} {now : Time} {random : Bytes} {m : Manager}
    (hc : ∀ owner user iface ip visited id, c = .startUser owner user iface ip visited →
      (m.apply c now random).1 ≠ .ok id) {id : Bytes} {c' : DebugCapture.Session}
    (hc' : Running (m.apply c now random).2 id c') :
    (∃ c₀, Running m id c₀ ∧ c'.user = c₀.user ∧ c'.kind = c₀.kind) ∨
      c'.user = [] ∧ c'.kind ≠ str "user" := by
  have hold : (∃ c₀, Running m id c₀ ∧ c₀.Later c') →
      (∃ c₀, Running m id c₀ ∧ c'.user = c₀.user ∧ c'.kind = c₀.kind) ∨
        c'.user = [] ∧ c'.kind ≠ str "user" :=
    fun ⟨c₀, hc₀, hlater⟩ => .inl ⟨c₀, hc₀, hlater.user, hlater.kind⟩
  cases c with
  | start owner kind user startup =>
    rcases Manager.start_cases owner kind user startup now random m with
      ⟨_, _, hmoves⟩ | ⟨_, huser, hkind, c, hstarts, hmakes⟩
    · exact hold (running_of_moves hmoves hc')
    · rcases running_of_makes hmakes hc' with ⟨rfl, rfl⟩ | ⟨-, hmoved⟩
      · exact .inr ⟨hstarts.user.trans huser, hstarts.kind ▸ hkind⟩
      · exact hold hmoved
  | startUser owner user iface ip visited =>
    rcases Manager.startUser_cases owner user iface ip visited now random m with
      ⟨_, _, hmoves⟩ | ⟨hok, -⟩
    · exact hold (running_of_moves hmoves hc')
    · exact absurd hok (hc owner user iface ip visited random rfl)
  | _ =>
    rcases Manager.apply_cases _ now random m with
      hmoves | ⟨_, _, _, _, _, _, _, ⟨_, hcall⟩ | ⟨_, _, _, hcall, _⟩⟩
    · exact hold (running_of_moves hmoves hc')
    · cases hcall
    · cases hcall

/-! ### Keeping the captures in order -/

/-- The operation does not change the access of the user. -/
def Spares (user : Bytes) : (e : Op) → Result e → Prop
  | .store c, none => target c ≠ some user
  | _, _ => True

/-- The operation starts a capture of a user. -/
def StartsUser : (e : Op) → Result e → Prop
  | .capture (.startUser _ _ _ _ _), .ok _ => True
  | _, _ => False

variable {as : List Step} {except except' : Option Bytes}

theorem OK.snoc (h : OK except as s) {a : Step}
    (hexcept : ∀ user, except' ≠ some user → except ≠ some user)
    (hrunning : ∀ id c', Running s'.capture id c' →
      (∃ c, Running s.capture id c ∧ c'.user = c.user ∧ c'.kind = c.kind) ∨
        c'.user = [] ∧ c'.kind ≠ str "user")
    (hhas : ∀ user, except' ≠ some user → Has s.store user false → Has s'.store user false)
    (hmarks : ∀ user, except' ≠ some user → marks user a = false) : OK except' (as ++ [a]) s' := by
  intro id c' hc' hkind huser
  rcases hrunning id c' hc' with ⟨c, hc, hu, hk⟩ | ⟨-, hne⟩
  · rw [hu] at huser ⊢
    obtain ⟨hnil, hhas', hsince, honly⟩ :=
      h id c hc (hk ▸ hkind) (hexcept c.user huser)
    refine ⟨hnil, hhas c.user huser hhas', hsince.append (hmarks c.user huser),
      fun id₂ c₂ hc₂ hu₂ => ?_⟩
    rcases hrunning id₂ c₂ hc₂ with ⟨c₃, hc₃, hu₃, -⟩ | ⟨hempty, -⟩
    · exact honly id₂ c₃ hc₃ (hu₃.symm.trans hu₂)
    · exact absurd (hu₂.symm.trans hempty) hnil
  · exact absurd hkind hne

variable {e : Op}

theorem has_op (hinv : Admin.Inv w.assumptions s.store) {r : Result e} (hexec : exec w i e s r s')
    {user : Bytes} {d : Bool} (hspares : Spares user e r) (h : Has s.store user d) :
    Has s'.store user d := by
  by_cases hstore : ∃ c, e = .store c
  · obtain ⟨c, rfl⟩ := hstore
    obtain ⟨ha, hr, rfl⟩ := hexec
    cases r with
    | none => exact has_call hinv ha hspares h
    | some e => exact has_failed hinv ha hr.symm h
  · rw [(exec_leaves hexec).store fun c hc => hstore ⟨c, hc⟩]
    exact h

/-- The captures stay in order, but for those of users whose access is changed. -/
theorem OK.op (h : OK except as s) (hinv : Admin.Inv w.assumptions s.store) {r : Result e}
    (hexec : exec w i e s r s') (hexcept : ∀ user, except' ≠ some user → except ≠ some user)
    (hspares : ∀ user, except' ≠ some user → Spares user e r) (hstarts : ¬ StartsUser e r) :
    OK except' (as ++ [.op i e r]) s' := by
  have hleaves := exec_leaves hexec
  refine h.snoc hexcept (fun id c' hc' => ?_)
    (fun user hu hhas => has_op hinv hexec (hspares user hu) hhas) fun user hu => ?_
  · by_cases hcap : ∃ c, e = .capture c
    · obtain ⟨c, rfl⟩ := hcap
      obtain ⟨random, -, rfl, rfl⟩ := hexec
      refine running_apply (fun owner user iface ip visited id₁ hc hok => hstarts ?_) hc'
      subst hc
      rw [hok]
      trivial
    · rw [hleaves.capture fun c hc => hcap ⟨c, hc⟩] at hc'
      exact .inl ⟨c', hc', rfl, rfl⟩
  · unfold marks
    split
    · rename_i heq
      cases heq
      exact decide_eq_false fun hid => hspares user hu (congrArg some hid)
    · rename_i heq
      cases heq
      exact absurd trivial hstarts
    · rfl

/-- A capture is started of a user who has access. -/
theorem OK.startUser (h : OK none as s) {owner user iface ip : Bytes} {visited : Bytes → Bool}
    {id : Bytes} (hhas : Has s.store user false)
    (hexec : exec w i (.capture (.startUser owner user iface ip visited)) s (.ok id) s') :
    OK none (as ++ [.op i (.capture (.startUser owner user iface ip visited)) (.ok id)]) s' := by
  obtain ⟨random, -, hr, rfl⟩ := hexec
  rcases Manager.startUser_cases owner user iface ip visited s.now random s.capture with
    ⟨_, he, -⟩ | ⟨hok, hnil, hothers, c, hstarts, hmakes⟩
  · exact absurd (hr.trans he) (fun hc => by cases hc)
  obtain rfl : random = id := Except.ok.inj (hok.symm.trans hr.symm)
  intro id' c' hc' hkind _
  rcases running_of_makes hmakes hc' with ⟨rfl, rfl⟩ | ⟨hne, c₀, hc₀, hlater⟩
  · have hu : c'.user = user := hstarts.user
    rw [hu]
    refine ⟨hnil, hhas, ⟨i, owner, iface, ip, visited, ?_⟩, fun id₂ c₂ hc₂ hu₂ => ?_⟩
    · rw [latest_snoc, if_pos (by simp [marks])]
    · by_contra hne
      exact hothers id₂ c₂ hne hc₂.1 hu₂ hc₂.2
  · have hu : c'.user ≠ user := fun hu => hothers id' c' hne hc'.1 hu hc'.2
    obtain ⟨hnil', hhas', hsince, honly⟩ := h id' c₀ hc₀ (hlater.kind ▸ hkind) (fun hc => by cases hc)
    rw [← hlater.user] at hnil' hhas' hsince honly
    refine ⟨hnil', hhas', hsince.append (by simpa [marks] using hu.symm), fun id₂ c₂ hc₂ hu₂ => ?_⟩
    rcases running_of_makes hmakes hc₂ with ⟨rfl, rfl⟩ | ⟨-, c₃, hc₃, hlater₃⟩
    · exact absurd (hu₂.symm.trans hstarts.user) hu
    · exact honly id₂ c₃ hc₃ (hlater₃.user.symm.trans hu₂)

/-- The captures of a user are stopped, so that all are in order. -/
theorem OK.stopUser {user : Bytes} (h : OK (some user) as s) {r : Except Error Bytes}
    (hexec : exec w i (.capture (.stopUser user)) s r s') :
    OK none (as ++ [.op i (.capture (.stopUser user)) r]) s' := by
  obtain ⟨random, -, -, rfl⟩ := hexec
  intro id c hc hkind _
  obtain ⟨hold, hne⟩ := running_stopUser hc
  obtain ⟨hnil, hhas, hsince, honly⟩ := h id c hold hkind fun hc => hne (Option.some.inj hc).symm
  exact ⟨hnil, hhas, hsince.append rfl,
    fun id' c' hc' hu' => honly id' c' (running_stopUser hc').1 hu'⟩

/-! ### The outline -/

/-- How far a thread has come: it does not hold the mutex; it holds it; it has found
    a user too; or it has changed the access of a user, whose captures it has not
    stopped yet. -/
inductive Stage
  | free
  | locked
  | found (id : Bytes) (disabled : Bool)
  | revoking (id : Bytes)
  deriving DecidableEq

/-- The thread holds the mutex, and all is in order. -/
def Stage.Settled : Stage → Prop
  | .free => False
  | .locked => True
  | .found _ _ => True
  | .revoking _ => False

/-- What a thread may do at a stage. -/
def Allowed (w : Setup) (l : Stage) : Op → Prop
  | .lock => l = .free
  | .unlock => l.Settled
  | .store c => target c = none ∨ l.Settled
  | .capture (.startUser _ user _ _ _) => l = .found user false ∧ w.config.capture ≠ none
  | .capture _ => w.config.capture ≠ none
  | _ => True

/-- The stage after an operation. -/
def next (w : Setup) (l : Stage) : (e : Op) → Result e → Stage
  | .lock, _ => .locked
  | .unlock, _ => .free
  | .find id, some u => if l = .locked then .found id u.disabled else l
  | .store c, none =>
    match target c with
    | none => l
    | some id => if w.config.capture = none then .locked else .revoking id
  | .capture (.stopUser id), _ => if l = .revoking id then .locked else l
  | _, _ => l

/-- The stages. -/
def stages (w : Setup) : Stages Op Result Stage := ⟨Allowed w, next w⟩

section Following

open scoped Following

attribute [local simp] Allowed next

@[local simp]
theorem stages_allowed (w : Setup) (l : Stage) (e : Op) : (stages w).allowed l e = Allowed w l e := rfl

@[local simp]
theorem stages_next (w : Setup) (l : Stage) (e : Op) (r : Result e) :
    (stages w).next l e r = next w l e r := rfl

theorem follows_captureLaunch (w : Setup) (r : Request) (id : Bytes) (l : Stage)
    (Q : Unit → Stage → Prop) (hQ : Q () l) :
    (captureLaunch w r id).Follows (stages w) l Q := by
  cases hc : w.config.capture <;> simp [hc, hQ]

theorem follows_userCapture (w : Setup) (r : Request) :
    (userCapture w r).Follows (stages w) .free fun _ _ => True := by
  cases hc : w.config.capture with
  | none => simp [hc, Stage.Settled]
  | some _ =>
    cases ha : r.around.captureAWG <;>
    · simp [-captureLaunch, ha, follows_captureLaunch, Stage.Settled, hc]
      exact fun _ _ _ _ _ _ _ _ hdisabled _ => hdisabled

theorem follows (w : Setup) (q : Query) :
    (handler w q).Follows (stages w) .free fun _ _ => True := by
  cases hc : w.config.capture <;> cases q with
  | userCapture r => exact follows_userCapture w r
  | captureLaunch r => exact follows_captureLaunch w r _ _ _ trivial
  | enroll token => cases token <;> simp
  | qr r image => cases image <;> simp
  | captureStream origin id token around =>
    cases token <;> cases hp : around.peer <;> simp [hp, hc]
  | captureRedeem body => cases body <;> simp [hc]
  | _ => simp [hc, target, Stage.Settled]

end Following

/-! ### The outline -/

/-- The invariant: the captures are in order while the mutex is free. -/
structure Inv (w : Setup) (as : List Step) (s : Web) : Prop where
  store : Admin.Inv w.assumptions s.store
  within : Within w s
  free : s.userCaptureMu = none → OK none as s

/-- The outline of the captures of users. -/
def outline (w : Setup) : Outline (machine w) Stage where
  toStages := stages w
  start _ := .free
  lost := .free
  inv := Inv w
  holds i
    | .free, _, _ => True
    | .locked, as, s => s.userCaptureMu = some i ∧ OK none as s
    | .found id disabled, as, s =>
      s.userCaptureMu = some i ∧ OK none as s ∧ Has s.store id disabled
    | .revoking id, as, s => s.userCaptureMu = some i ∧ OK (some id) as s

/-- The user whose captures may be out of order at a stage. -/
def Stage.changed : Stage → Option Bytes
  | .revoking id => some id
  | _ => none

variable {l : Stage}

/-- What a thread that holds the mutex knows. -/
theorem holds_iff (hl : l ≠ .free) :
    (outline w).holds i l as s ↔ s.userCaptureMu = some i ∧ OK l.changed as s ∧
      ∀ id d, l = .found id d → Has s.store id d := by
  cases l with
  | free => exact absurd rfl hl
  | locked => simp [outline, Stage.changed]
  | found id d => simp [outline, Stage.changed]
  | revoking id => simp [outline, Stage.changed]

/-- Without captures, all are in order. -/
theorem OK.of_unused (h : s.capture.sessions = ∅) : OK except as s := by
  intro id c hc
  have hlook := (Option.filter_eq_some_iff.1 hc.1).1
  rw [h, Finmap.lookup_empty] at hlook
  cases hlook

/-- A step of others that leaves running captures and the access of users as they are. -/
theorem holds_append (h : (outline w).holds i l as s) {a : Step}
    (hmutex : l ≠ .free → s'.userCaptureMu = s.userCaptureMu)
    (hok : ∀ except, OK except as s → OK except (as ++ [a]) s')
    (hhas : ∀ id d, Has s.store id d → Has s'.store id d) :
    (outline w).holds i l (as ++ [a]) s' := by
  by_cases hl : l = .free
  · subst hl
    trivial
  · rw [holds_iff hl] at h ⊢
    exact ⟨(hmutex hl).trans h.1, hok _ h.2.1, fun id d hld => hhas id d (h.2.2 id d hld)⟩

/-- The mutex is held by a thread that is past it. -/
theorem mutex_of_holds (h : (outline w).holds i l as s) (hl : l ≠ .free) :
    s.userCaptureMu = some i := ((holds_iff hl).1 h).1

/-- An operation that changes nobody's access and starts no capture of a user. -/
structure Harmless (e : Op) (r : Result e) : Prop where
  spares : ∀ user, Spares user e r
  starts : ¬ StartsUser e r

theorem OK.harmless (h : OK except as s) (hinv : Inv w as s) {r : Result e}
    (hexec : exec w i e s r s') (he : Harmless e r) : OK except (as ++ [.op i e r]) s' :=
  h.op hinv.store hexec (fun _ hu => hu) (fun user _ => he.spares user) he.starts

/-- A thread keeps its assertion under a harmless operation. -/
theorem holds_harmless (h : (outline w).holds i l as s) (hinv : Inv w as s) {j : ℕ} {r : Result e}
    (hexec : exec w j e s r s') (hmutex : s'.userCaptureMu = s.userCaptureMu) (he : Harmless e r) :
    (outline w).holds i l (as ++ [.op j e r]) s' :=
  holds_append h (fun _ => hmutex) (fun _ hok => hok.harmless hinv hexec he)
    (fun id _ hhas => has_op hinv.store hexec (he.spares id) hhas)

/-- A thread that does not hold the mutex does harmless things only. -/
theorem harmless_of_free (h : Allowed w .free e) (r : Result e) : Harmless e r := by
  cases e with
  | store c =>
    have ht : target c = none := h.resolve_right fun hs => hs
    refine ⟨fun user => ?_, fun hs => hs⟩
    cases r with
    | none =>
      change target c ≠ some user
      rw [ht]
      exact fun hc => by cases hc
    | some e => trivial
  | capture c =>
    refine ⟨fun user => trivial, fun hs => ?_⟩
    cases c with
    | startUser owner user iface ip visited => cases h.1
    | _ => exact hs
  | _ => exact ⟨fun user => trivial, fun hs => hs⟩

theorem unlock_ne (h : Allowed w .free e) : e ≠ .unlock := by
  rintro rfl
  exact h

theorem next_free (h : Allowed w .free e) (hlock : e ≠ .lock) (r : Result e) :
    next w .free e r = .free := by
  cases e with
  | lock => exact absurd rfl hlock
  | store c =>
    have ht : target c = none := h.resolve_right fun hs => hs
    cases r with
    | none => simp [next, ht]
    | some e => rfl
  | find id => cases r <;> simp [next]
  | capture c => cases c <;> simp [next]
  | _ => rfl

theorem Stage.Settled.changed (h : l.Settled) : l ≠ .free ∧ l.changed = none := by
  cases l with
  | free => exact h.elim
  | revoking id => exact h.elim
  | locked => exact ⟨fun hc => (by cases hc), rfl⟩
  | found id d => exact ⟨fun hc => (by cases hc), rfl⟩

/-- A thread that holds the mutex changes the access of a user. -/
theorem holds_store (hl : l ≠ .free) (h : (outline w).holds i l as s) (hinv : Inv w as s) {c : Call}
    {r : Option Error} (hallowed : Allowed w l (.store c)) (hexec : exec w i (.store c) s r s') :
    (outline w).holds i (next w l (.store c) r) (as ++ [.op i (.store c) r]) s' := by
  have hleaves := exec_leaves hexec
  have hmutex := hleaves.mutex (fun hc => by cases hc) (fun hc => by cases hc)
  cases r with
  | some e =>
    exact holds_harmless h hinv hexec hmutex ⟨fun _ => trivial, fun hs => hs⟩
  | none =>
    cases ht : target c with
    | none =>
      have hnext : next w l (.store c) none = l := by simp [next, ht]
      rw [hnext]
      refine holds_harmless h hinv hexec hmutex ⟨fun user => ?_, fun hs => hs⟩
      change target c ≠ some user
      rw [ht]
      exact fun hc => by cases hc
    | some id =>
      have hsettled : l.Settled := hallowed.resolve_left (by simp [ht])
      have hold := (mutex_of_holds h hl)
      by_cases hc : w.config.capture = none
      · have hnext : next w l (.store c) none = .locked := by simp [next, ht, hc]
        rw [hnext]
        refine ⟨hmutex.trans hold, OK.of_unused ?_⟩
        rw [hleaves.capture fun c hc => by cases hc]
        exact hinv.within.unused hc
      · have hnext : next w l (.store c) none = .revoking id := by simp [next, ht, hc]
        rw [hnext]
        refine ⟨hmutex.trans hold, ((holds_iff hl).1 h).2.1.op hinv.store hexec (fun user _ => ?_)
          (fun user hu => ?_) fun hs => hs⟩
        · rw [hsettled.changed.2]
          exact fun hc => by cases hc
        · change target c ≠ some user
          rwa [ht]

/-- A thread that holds the mutex calls the captures. -/
theorem holds_capture (hl : l ≠ .free) (h : (outline w).holds i l as s) (hinv : Inv w as s)
    {c : DebugCapture.Call} {r : Except Error Bytes} (hallowed : Allowed w l (.capture c))
    (hexec : exec w i (.capture c) s r s') :
    (outline w).holds i (next w l (.capture c) r) (as ++ [.op i (.capture c) r]) s' := by
  have hleaves := exec_leaves hexec
  have hmutex := hleaves.mutex (fun hc => by cases hc) (fun hc => by cases hc)
  cases c with
  | startUser owner user iface ip visited =>
    obtain ⟨rfl, -⟩ := hallowed
    cases r with
    | error e => exact holds_harmless h hinv hexec hmutex ⟨fun _ => trivial, fun hs => hs⟩
    | ok id =>
      obtain ⟨hold, hok, hhas⟩ := h
      refine ⟨hmutex.trans hold, hok.startUser hhas hexec, ?_⟩
      rw [hleaves.store fun c hc => by cases hc]
      exact hhas
  | stopUser id =>
    by_cases hrev : l = .revoking id
    · subst hrev
      have hnext : next w (.revoking id) (.capture (.stopUser id)) r = .locked := by simp [next]
      rw [hnext]
      exact ⟨hmutex.trans h.1, OK.stopUser h.2 hexec⟩
    · have hnext : next w l (.capture (.stopUser id)) r = l := by simp [next, hrev]
      rw [hnext]
      exact holds_harmless h hinv hexec hmutex ⟨fun _ => trivial, fun hs => hs⟩
  | _ => exact holds_harmless h hinv hexec hmutex ⟨fun _ => trivial, fun hs => hs⟩

/-- A thread that holds the mutex goes on. -/
theorem holds_next (hl : l ≠ .free) (h : (outline w).holds i l as s) (hinv : Inv w as s)
    {r : Result e} (hallowed : Allowed w l e) (hunlock : e ≠ .unlock) (hexec : exec w i e s r s') :
    (outline w).holds i (next w l e r) (as ++ [.op i e r]) s' := by
  have hsame : e ≠ .lock → Harmless e r → (outline w).holds i l (as ++ [.op i e r]) s' :=
    fun hlock he =>
      holds_harmless h hinv hexec ((exec_leaves hexec).mutex hlock hunlock) he
  cases e with
  | lock => exact absurd hallowed hl
  | unlock => exact absurd rfl hunlock
  | store c => exact holds_store hl h hinv hallowed hexec
  | capture c => exact holds_capture hl h hinv hallowed hexec
  | find id =>
    have hl' := hsame (fun hc => by cases hc) ⟨fun _ => trivial, fun hs => hs⟩
    cases r with
    | none => exact hl'
    | some u =>
      by_cases hlocked : l = .locked
      · subst hlocked
        have hnext : next w .locked (.find id) (some u) = .found id u.disabled := by simp [next]
        rw [hnext]
        refine ⟨hl'.1, hl'.2, ?_⟩
        obtain ⟨hu, rfl⟩ := hexec
        obtain ⟨v, hv, rfl⟩ := Option.map_eq_some_iff.1 hu.symm
        exact ⟨v, hv, rfl⟩
      · have hnext : next w l (.find id) (some u) = l := by simp [next, hlocked]
        rw [hnext]
        exact hl'
  | _ => exact hsame (fun hc => by cases hc) ⟨fun _ => trivial, fun hs => hs⟩

theorem Inv.op (hinv : Inv w as s) (h : (outline w).holds i l as s) {r : Result e}
    (hallowed : Allowed w l e) (hexec : exec w i e s r s') :
    Inv w (as ++ [.op i e r]) s' where
  store := by
    by_cases hstore : ∃ c, e = .store c
    · obtain ⟨c, rfl⟩ := hstore
      obtain ⟨ha, -, rfl⟩ := hexec
      exact hinv.store.call ha
    · rw [(exec_leaves hexec).store fun c hc => hstore ⟨c, hc⟩]
      exact hinv.store
  within := by
    by_cases hcapture : ∃ c, e = .capture c
    · obtain ⟨c, rfl⟩ := hcapture
      refine hinv.within.capture ?_ hexec
      cases c with
      | startUser owner user iface ip visited => exact hallowed.2
      | _ => exact hallowed
    · exact hinv.within.moves (.refl none _)
        ((exec_leaves hexec).capture fun c hc => hcapture ⟨c, hc⟩) (exec_leaves hexec).drawn
  free hfree := by
    by_cases hl : l = .free
    · -- the mutex was free before, unless it has just been taken
      subst hl
      by_cases hlock : e = .lock
      · subst hlock
        rw [hexec.2] at hfree
        cases hfree
      · rw [(exec_leaves hexec).mutex hlock (unlock_ne hallowed)] at hfree
        exact (hinv.free hfree).harmless hinv hexec (harmless_of_free hallowed r)
    · by_cases hunlock : e = .unlock
      · subst hunlock
        have hok := ((holds_iff hl).1 h).2.1
        rw [(Stage.Settled.changed hallowed).2] at hok
        exact hok.harmless hinv hexec ⟨fun _ => trivial, fun hs => hs⟩
      · have hlock : e ≠ .lock := by
          rintro rfl
          exact hl hallowed
        rw [(exec_leaves hexec).mutex hlock hunlock, mutex_of_holds h hl] at hfree
        cases hfree

/-- A step of the environment keeps the captures in order, and the access of users. -/
theorem background_keeps {c : Event} (hinv : Inv w as s) (h : background w s c s') :
    Inv w (as ++ [.env c]) s' ∧ (∀ except, OK except as s → OK except (as ++ [.env c]) s') ∧
      ∀ id d, Has s.store id d → Has s'.store id d := by
  have hmoves : ∀ {t : Option Bytes} {m' : Manager}, s.capture.Moves t m' →
      s' = { s with capture := m' } →
      Inv w (as ++ [.env c]) s' ∧ (∀ except, OK except as s → OK except (as ++ [.env c]) s') ∧
        ∀ id d, Has s.store id d → Has s'.store id d := by
    rintro t m' hm rfl
    have hok : ∀ except, OK except as s →
        OK except (as ++ [.env c]) { s with capture := m' } := by
      intro except hok
      refine hok.snoc (fun _ hu => hu) (fun id c' hc' => ?_) (fun _ _ hhas => hhas) fun _ _ => rfl
      obtain ⟨c, hc, hlater⟩ := running_of_moves hm hc'
      exact .inl ⟨c, hc, hlater.user, hlater.kind⟩
    exact ⟨⟨hinv.store, hinv.within.moves hm rfl (fun _ hc => hc),
      fun hfree => hok none (hinv.free hfree)⟩, hok, fun _ _ hhas => hhas⟩
  cases c with
  | tick t =>
    obtain ⟨-, rfl⟩ := h
    have hok : ∀ except, OK except as s → OK except (as ++ [.env (.tick t)]) { s with now := t } :=
      fun except hok => hok.snoc (fun _ hu => hu) (fun _ c' hc' => .inl ⟨c', hc', rfl, rfl⟩)
        (fun _ _ hhas => hhas) fun _ _ => rfl
    exact ⟨⟨hinv.store, hinv.within.moves (.refl none _) rfl (fun _ hc => hc),
      fun hfree => hok none (hinv.free hfree)⟩, hok, fun _ _ hhas => hhas⟩
  | store =>
    obtain ⟨store, helse, rfl⟩ := h
    obtain ⟨hstore, hhas⟩ := elsewhere helse hinv.store
    have hok : ∀ except, OK except as s →
        OK except (as ++ [.env .store]) { s with store := store } := fun except hok =>
      hok.snoc (fun _ hu => hu) (fun _ c' hc' => .inl ⟨c', hc', rfl, rfl⟩)
        (fun user _ => hhas user false) fun _ _ => rfl
    exact ⟨⟨hstore, hinv.within.moves (.refl none _) rfl (fun _ hc => hc),
      fun hfree => hok none (hinv.free hfree)⟩, hok, hhas⟩
  | record id e => exact hmoves (Manager.moves_record id e s.capture) h
  | drop id => exact hmoves (Manager.moves_drop id s.capture) h
  | close => exact hmoves (Manager.moves_close s.capture) h
  | restart => exact h.elim

theorem Inv.init (h : Started w s) : Inv w [] s := by
  obtain ⟨v, hv, hrun⟩ := h.store
  exact ⟨inv_of_reachable hv hrun, .new h.capture rfl,
    fun _ => OK.of_unused (sessions_of_new h.capture)⟩

theorem Inv.restart (hinv : Inv w as s) {c : Event} (h : restart w s c s') :
    Inv w (as ++ [.crash c]) s' := by
  obtain ⟨-, env, store, capture, hopen, hcapture, rfl⟩ := h
  refine ⟨Admin.Inv.opened (fun d hd => ?_) hopen, .new hcapture rfl,
    fun _ => OK.of_unused (sessions_of_new hcapture)⟩
  obtain ⟨d', hd', hcore⟩ := hinv.store.file
  obtain rfl : d' = d := Option.some.inj (hd'.symm.trans hd)
  exact hinv.store.state.congr hcore.symm

theorem valid (w : Setup) : (outline w).Valid where
  follows := follows w
  init h := .init h
  spawn {as s i q} hinv := by
    have hok : OK none as s → OK none (as ++ [.spawn i q]) s := fun hok =>
      hok.snoc (fun _ hu => hu) (fun _ c' hc' => .inl ⟨c', hc', rfl, rfl⟩) (fun _ _ hhas => hhas)
        fun _ _ => rfl
    exact ⟨⟨hinv.store, hinv.within, fun hfree => hok (hinv.free hfree)⟩, trivial⟩
  spawn_frame _ hl := holds_append hl (fun _ => rfl)
    (fun _ hok => hok.snoc (fun _ hu => hu) (fun _ c' hc' => .inl ⟨c', hc', rfl, rfl⟩)
      (fun _ _ hhas => hhas) fun _ _ => rfl) fun _ _ hhas => hhas
  op {as x i l e r s'} _ hinv hl hallowed hexec := by
    refine ⟨hinv.op hl hallowed hexec, ?_⟩
    by_cases hfree : l = .free
    · subst hfree
      by_cases hlock : e = .lock
      · subst hlock
        refine ⟨by rw [hexec.2], ?_⟩
        exact (hinv.free hexec.1).harmless hinv hexec ⟨fun _ => trivial, fun hs => hs⟩
      · have hnext : (outline w).next .free e r = .free := next_free hallowed hlock r
        rw [hnext]
        trivial
    · by_cases hunlock : e = .unlock
      · subst hunlock
        trivial
      · exact holds_next hfree hl hinv hallowed hunlock hexec
  op_frame {as x i l e r s' j l'} _ hinv hl hallowed hexec hne hl' := by
    by_cases hfree' : l' = .free
    · subst hfree'
      trivial
    have hmutex' := mutex_of_holds hl' hfree'
    -- the other thread holds the mutex, so this one does not
    have hfree : l = .free := by
      by_contra hc
      exact hne (Option.some.inj (hmutex'.symm.trans (mutex_of_holds hl hc)))
    subst hfree
    have hlock : e ≠ .lock := by
      rintro rfl
      exact absurd (hexec.1.symm.trans hmutex') (fun h => by cases h)
    exact holds_harmless hl' hinv hexec
      ((exec_leaves hexec).mutex hlock (unlock_ne hallowed)) (harmless_of_free hallowed r)
  env hinv henv := (background_keeps hinv henv).1
  env_frame hinv henv hl := by
    obtain ⟨-, hok, hhas⟩ := background_keeps hinv henv
    exact holds_append hl (fun _ => (background_leaves henv).2.2.1) hok hhas
  crash hinv hcrash := ⟨hinv.restart hcrash, fun _ => trivial⟩

/-- A schedule: the capture of a user is started. -/
def sample : List Move :=
  let cookie := Sample.digits 48 1
  let csrf := Sample.digits 48 2
  let form : Form := { id := str "id", action := str "start" }
  Sample.login 0 cookie csrf ++
    [.spawn 1 (.userCapture (Sample.request cookie csrf form)), .op 1 [], .op 1 [], .op 1 [],
      .op 1 [], .op 1 [], .op 1 [Sample.digits 64 3], .op 1 [], .op 1 [],
      .op 1 [Sample.digits 64 4], .op 1 [], .op 1 []]

theorem sample_isSome : (schedule Sample.setup sample Sample.start).isSome := by decide +kernel

/-- What comes of the schedule. -/
def sampleEnd : List Step × Pool Web Op Result :=
  (schedule Sample.setup sample Sample.start).get sample_isSome

theorem sample_run : (machine Sample.setup).system.Run sampleEnd.1 sampleEnd.2 :=
  run_of_schedule Sample.start_run (Option.some_get sample_isSome).symm

end Captures

open Captures in
/-- The traffic of a user is captured only while the user has access. Under every
    interleaving, when no handler holds `userCaptureMu`, a running capture of a user in
    the table is of a user who exists and is not disabled, was started after the
    protocols of the user were last set, and is the only one of the user. Without a
    range of ports of its own, the manager retains at most eight sessions at any time,
    and runs at most as many as it has slots. -/
theorem captures_revoked {w : Setup} {as : List Step} {x : Pool Web Op Result}
    (h : (machine w).system.Run as x) :
    (x.shared.userCaptureMu = none → ∀ id c, x.shared.capture.find id = some c →
      c.kind = str "user" → c.state = .running →
        (∃ u, x.shared.store.state.users.lookup c.user = some u ∧ u.disabled = false) ∧
        Since as c.user id ∧
        ∀ id' c', x.shared.capture.find id' = some c' → c'.state = .running →
          c'.user = c.user → id' = id) ∧
    ∀ cfg, w.config.capture = some cfg → cfg.firstPort = 0 →
      x.shared.capture.len ≤ 8 ∧ x.shared.capture.active ≤ cfg.slots := by
  have hinv := ((valid w).run h).1
  refine ⟨fun hfree id c hc hkind hrunning => ?_, fun cfg hcfg hport => ?_⟩
  · obtain ⟨-, hhas, hsince, honly⟩ :=
      hinv.free hfree id c ⟨hc, hrunning⟩ hkind (fun hc => by cases hc)
    exact ⟨hhas, hsince, fun id' c' hc' hr' => honly id' c' ⟨hc', hr'⟩⟩
  · have hbounded := hinv.within.bounded cfg hcfg hport
    rw [Bounded, hinv.within.config cfg hcfg] at hbounded
    exact hbounded

open Captures in
/-- A user is captured. -/
theorem captures_revoked_sample : ∃ id c, sampleEnd.2.shared.capture.find id = some c ∧
    c.state = .running ∧ Since sampleEnd.1 c.user id := by
  have hfree : sampleEnd.2.shared.userCaptureMu = none := by decide +kernel
  have hfind : (sampleEnd.2.shared.capture.find (Sample.digits 64 3)).map
      (fun c => (c.kind, c.state)) = some (str "user", .running) := by decide +kernel
  obtain ⟨c, hc, hfields⟩ := Option.map_eq_some_iff.1 hfind
  obtain ⟨hkind, hrunning⟩ := Prod.mk.inj hfields
  exact ⟨_, c, hc, hrunning, ((captures_revoked sample_run).1 hfree _ c hc hkind hrunning).2.1⟩

end QuicLab.Admin.Web
