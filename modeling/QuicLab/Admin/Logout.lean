import QuicLab.Admin.Login
import QuicLab.Admin.UserCapture

/-!
# Captures of a login that has ended

A logout is to end the captures of its login. It removes the login, and then it stops
the captures whose owner is the login. `userCapture` starts captures as well, but it
holds `userCaptureMu`, as `logout` does. `captureStart` does not: a login that was
accepted may have ended before the capture is started. And `logout` stops the captures
of the login it finds: if the one it has accepted has expired and was dropped meanwhile,
it stops none.

* `Orderly`: a capture is started, and a login is removed, while the login is accepted;
* `Logout.Inv`: no capture of a login that has ended is running;
* `logout_stops`: the captures of a login have ended after its logout, if all steps are
  orderly;
* `logout_overtaken`: the interleaving in which they have not.
-/

namespace QuicLab.Admin.Web

open Go

/-- A capture is started, and a login is removed, only while the login is accepted. -/
def Orderly : Op → Web → Prop
  | .capture (.start owner _ _ _), s =>
    ∃ cookie l, (s.tables.getSession (some cookie) s.now).1 = some l ∧ l.csrf = owner
  | .removeSession cookie _, s => (s.tables.getSession (some cookie) s.now).1 ≠ none
  | _, _ => True

namespace Logout

open Captures (Running)

/-! ### Logins of a history -/

/-- There was a login with this cookie and this CSRF token. -/
def Issued (as : List Step) (cookie csrf : Bytes) : Prop :=
  ∃ i err l, .op i (.newSession err) (.ok l) ∈ as ∧ l.token = cookie ∧ l.csrf = csrf

/-- The login with this CSRF token was removed. -/
def Gone (as : List Step) (csrf : Bytes) : Prop :=
  ∃ cookie i err p, Issued as cookie csrf ∧ .op i (.removeSession cookie err) (p, true) ∈ as

/-- The login was removed, and its captures have ended. -/
def Done (as : List Step) (s : Web) (csrf : Bytes) : Prop :=
  Gone as csrf ∧ ∀ id c, Running s.capture id c → c.owner ≠ csrf

variable {w : Setup} {i : ℕ} {s s' : Web} {as : List Step} {cookie csrf : Bytes}

theorem Issued.append (h : Issued as cookie csrf) (bs : List Step) :
    Issued (as ++ bs) cookie csrf := by
  obtain ⟨i, err, l, hmem, ht, hc⟩ := h
  exact ⟨i, err, l, List.mem_append_left _ hmem, ht, hc⟩

theorem Gone.append (h : Gone as csrf) (bs : List Step) : Gone (as ++ bs) csrf := by
  obtain ⟨cookie, i, err, p, hissued, hmem⟩ := h
  exact ⟨cookie, i, err, p, hissued.append bs, List.mem_append_left _ hmem⟩

/-- Does the step log in? -/
def LogsIn (cookie csrf : Bytes) (a : Step) : Prop :=
  ∃ i err l, a = .op i (.newSession err) (.ok l) ∧ l.token = cookie ∧ l.csrf = csrf

theorem issued_snoc {a : Step} (h : Issued (as ++ [a]) cookie csrf) :
    Issued as cookie csrf ∨ LogsIn cookie csrf a := by
  obtain ⟨i, err, l, hmem, ht, hc⟩ := h
  rcases mem_snoc.1 hmem with hold | hnew
  · exact .inl ⟨i, err, l, hold, ht, hc⟩
  · exact .inr ⟨i, err, l, hnew.symm, ht, hc⟩

/-- A new login has a new cookie and a new CSRF token. -/
theorem exec_logsIn {e : Op} {r : Result e} (h : exec w i e s r s')
    (ha : LogsIn cookie csrf (.op i e r)) :
    cookie ∉ s.drawn ∧ csrf ∉ s.drawn ∧ cookie ∈ s'.drawn ∧ csrf ∈ s'.drawn := by
  obtain ⟨j, err, l, hl, rfl, rfl⟩ := ha
  cases hl
  obtain ⟨token, csrf, htoken, hcsrf, hr, rfl⟩ := h
  simp only [Tables.newSession] at hr
  split_ifs at hr
  cases err with
  | some e => cases hr
  | none =>
    cases hr
    exact ⟨htoken.2, fun hmem => hcsrf.2 (List.mem_cons_of_mem _ hmem), by simp, by simp⟩

/-- A login that is accepted was issued. -/
theorem issued_of_entry (hlogin : Login.Inv w as s) {l : Session}
    (h : entry s.now s.tables.sessions cookie = some l) : Issued as cookie l.csrf := by
  rw [hlogin.memory cookie] at h
  unfold Login.expected at h
  split at h
  · rename_i i err l' hl
    obtain ⟨hl', -⟩ := Option.filter_eq_some_iff.1 h
    cases hl'
    refine ⟨i, err, l', ?_, ?_, rfl⟩
    · exact List.mem_reverse.1 (List.mem_of_find?_eq_some hl)
    · simpa [concerns] using List.find?_some hl
  · cases h

/-! ### The invariant -/

/-- The invariant: logins have cookies and CSRF tokens of their own, and the captures
    of those that were logged out have ended. -/
structure Inv (as : List Step) (s : Web) : Prop where
  drawn : ∀ cookie csrf, Issued as cookie csrf → cookie ∈ s.drawn ∧ csrf ∈ s.drawn
  unique : ∀ cookie csrf cookie' csrf', Issued as cookie csrf → Issued as cookie' csrf' →
    (cookie = cookie' ↔ csrf = csrf')
  done : ∀ i csrf, .op i (.reply (.loggedOut csrf)) () ∈ as → Done as s csrf

/-- A login that is accepted has not been removed. -/
theorem not_gone_of_entry (hlogin : Login.Inv w as s) (hinv : Inv as s) {l : Session}
    (h : entry s.now s.tables.sessions cookie = some l) : ¬ Gone as l.csrf := by
  rintro ⟨cookie', i, err, p, hissued, hmem⟩
  obtain rfl := (hinv.unique _ _ _ _ hissued (issued_of_entry hlogin h)).2 rfl
  rw [hlogin.memory, (hlogin.removed i cookie' err p hmem).2] at h
  cases h

/-- Does the operation remove a login? -/
def Removes : (e : Op) → Result e → Prop
  | .removeSession _ _, (_, true) => True
  | _, _ => False

theorem gone_op (hlogin : Login.Inv w as s) {e : Op} {r : Result e} (hexec : exec w i e s r s')
    (hr : ¬ Removes e r) (h : Gone (as ++ [.op i e r]) csrf) : Gone as csrf := by
  obtain ⟨cookie, j, err, p, hissued, hmem⟩ := h
  rcases mem_snoc.1 hmem with hold | hnew
  · rcases issued_snoc hissued with hissued | hlogs
    · exact ⟨cookie, j, err, p, hissued, hold⟩
    · -- a cookie that was removed was drawn, so it is not the one of a new login
      exact absurd (hlogin.removed j cookie err p hold).1 (exec_logsIn hexec hlogs).1
  · cases hnew
    exact absurd trivial hr

/-- Does the operation make a capture with this owner? -/
def Creates (owner : Bytes) : Op → Prop
  | .capture (.start o _ _ _) => o = owner
  | .capture (.startUser o _ _ _ _) => o = owner
  | _ => False

theorem running_op {e : Op} {r : Result e} (hexec : exec w i e s r s') {id : Bytes}
    {c' : DebugCapture.Session} (hc' : Running s'.capture id c') :
    (∃ c, Running s.capture id c ∧ c.Later c') ∨ Creates c'.owner e := by
  by_cases hcapture : ∃ c, e = .capture c
  · obtain ⟨c, rfl⟩ := hcapture
    obtain ⟨random, -, -, rfl⟩ := hexec
    rcases DebugCapture.Manager.apply_cases c s.now random s.capture with
      hmoves | ⟨owner, _, _, c₀, hstarts, -, hmakes, hcall⟩
    · exact .inl (Captures.running_of_moves hmoves hc')
    · rcases Captures.running_of_makes hmakes hc' with ⟨-, rfl⟩ | ⟨-, hold⟩
      · right
        rcases hcall with ⟨_, rfl⟩ | ⟨_, _, _, rfl, -⟩
        · exact hstarts.owner.symm
        · exact hstarts.owner.symm
      · exact .inl hold
  · rw [(exec_leaves hexec).capture fun c hc => hcapture ⟨c, hc⟩] at hc'
    exact .inl ⟨c', hc', .refl c'⟩

/-- The captures of a login stay ended if none is made for a login that was removed. -/
theorem Done.op (h : Done as s csrf) {e : Op} {r : Result e} (hexec : exec w i e s r s')
    (hnew : ∀ owner, Creates owner e → ¬ Gone as owner) : Done (as ++ [.op i e r]) s' csrf := by
  refine ⟨h.1.append _, fun id c' hc' howner => ?_⟩
  rcases running_op hexec hc' with ⟨c, hc, hlater⟩ | hcreates
  · exact h.2 id c hc (hlater.owner.symm.trans howner)
  · exact hnew c'.owner hcreates (howner ▸ h.1)

/-- The captures of an owner do not run after `StopOwner`. -/
theorem running_stopOwner {owner : Bytes} {m : DebugCapture.Manager} {id : Bytes}
    {c : DebugCapture.Session} (h : Running (m.stopOwner owner) id c) : c.owner ≠ owner := by
  obtain ⟨hlook, hretained⟩ := Option.filter_eq_some_iff.1 h.1
  rw [DebugCapture.Manager.stopOwner, DebugCapture.Manager.lookup_update,
    Option.map_eq_some_iff] at hlook
  obtain ⟨c₀, -, hc⟩ := hlook
  split_ifs at hc with hstop
  · rw [← hc] at h
    exact absurd h.2 (DebugCapture.Session.stop_state_ne _ _)
  · subst hc
    exact fun ho => hstop ⟨hretained, ho⟩

/-! ### The stages -/

/-- How far a thread has come: it does not hold the mutex; it holds it; it has accepted
    a login too; it has removed the login with the first CSRF token, finding the second
    one; or the captures of the login have ended. -/
inductive Stage
  | free
  | locked
  | owner (cookie csrf : Bytes)
  | ending (csrf previous : Bytes)
  | ended (csrf : Bytes)
  deriving DecidableEq

/-- What a thread may do at a stage. -/
def Allowed (l : Stage) : Op → Prop
  | .lock => l = .free
  | .unlock => l ≠ .free
  | .removeSession cookie _ => ∃ csrf, l = .owner cookie csrf
  | .capture (.startUser owner _ _ _ _) => ∃ cookie, l = .owner cookie owner
  | .reply (.loggedOut csrf) => l = .ended csrf
  | _ => True

/-- The stage after a login is removed. -/
def Stage.removed (w : Setup) (previous : Bytes) : Stage → Stage
  | .owner _ csrf => if w.config.capture = none then .ended csrf else .ending csrf previous
  | l => l

/-- The stage after the captures of an owner are stopped. -/
def Stage.stopped (owner : Bytes) : Stage → Stage
  | .ending csrf previous => if owner = previous then .ended csrf else .ending csrf previous
  | l => l

/-- The stage after an operation. -/
def next (w : Setup) (l : Stage) : (e : Op) → Result e → Stage
  | .lock, _ => .locked
  | .unlock, _ => .free
  | .getSession cookie, some σ => if l = .free then .free else .owner (cookie.getD []) σ.csrf
  | .removeSession _ _, (p, true) => l.removed w p.csrf
  | .capture (.stopOwner owner), _ => l.stopped owner
  | _, _ => l

/-- The stages. -/
def stages (w : Setup) : Stages Op Result Stage := ⟨Allowed, next w⟩

section Following

open scoped Following

attribute [local simp] Allowed next

@[local simp]
theorem stages_allowed (w : Setup) (l : Stage) (e : Op) : (stages w).allowed l e = Allowed l e := rfl

@[local simp]
theorem stages_next (w : Setup) (l : Stage) (e : Op) (r : Result e) :
    (stages w).next l e r = next w l e r := rfl

theorem follows_captureLaunch (w : Setup) (r : Request) (id : Bytes) {l : Stage} (hl : l ≠ .free)
    (Q : Unit → Stage → Prop) (hQ : ∀ l, l ≠ .free → Q () l) :
    (captureLaunch w r id).Follows (stages w) l Q := by
  cases hc : w.config.capture <;> simp [hc, hl, hQ]

theorem follows_userCapture (w : Setup) (r : Request) :
    (userCapture w r).Follows (stages w) .free fun _ _ => True := by
  cases hc : w.config.capture with
  | none => simp [hc]
  | some _ =>
    cases ha : r.around.captureAWG <;> simp [-captureLaunch, ha, follows_captureLaunch, hc]

theorem follows (w : Setup) (q : Query) :
    (handler w q).Follows (stages w) .free fun _ _ => True := by
  cases hc : w.config.capture <;> cases q with
  | userCapture r => exact follows_userCapture w r
  | enroll token => cases token <;> simp
  | qr r image => cases image <;> simp
  | captureStream origin id token around =>
    cases token <;> cases hp : around.peer <;> simp [hp, hc]
  | captureRedeem body => cases body <;> simp [hc]
  | _ => simp [hc, Stage.removed, Stage.stopped]

end Following

/-! ### The outline -/

/-- The web interface, in which all steps are orderly. -/
abbrev orderly (w : Setup) : Machine Web Op Result Query Event := (machine w).guard Orderly

/-- The outline of logouts. -/
def outline (w : Setup) : Outline (orderly w) Stage where
  toStages := stages w
  start _ := .free
  lost := .free
  inv := Inv
  holds i
    | .free, _, _ => True
    | .locked, _, s => s.userCaptureMu = some i
    | .owner cookie csrf, as, s =>
      s.userCaptureMu = some i ∧ Issued as cookie csrf ∧ ¬ Gone as csrf
    | .ending csrf previous, as, s =>
      s.userCaptureMu = some i ∧ Gone as csrf ∧ previous = csrf
    | .ended csrf, as, s => s.userCaptureMu = some i ∧ Done as s csrf

variable {l : Stage}

theorem mutex_of_holds (h : (outline w).holds i l as s) (hl : l ≠ .free) :
    s.userCaptureMu = some i := by
  cases l with
  | free => exact absurd rfl hl
  | locked => exact h
  | owner _ _ => exact h.1
  | ending _ _ => exact h.1
  | ended _ => exact h.1

/-- A step that removes no login, and keeps the captures ended that have. -/
theorem holds_append (h : (outline w).holds i l as s) {a : Step}
    (hmutex : l ≠ .free → s'.userCaptureMu = s.userCaptureMu)
    (hgone : ∀ csrf, Gone (as ++ [a]) csrf → Gone as csrf)
    (hdone : ∀ csrf, Done as s csrf → Done (as ++ [a]) s' csrf) :
    (outline w).holds i l (as ++ [a]) s' := by
  cases l with
  | free => trivial
  | locked => exact (hmutex (fun hc => by cases hc)).trans h
  | owner cookie csrf =>
    exact ⟨(hmutex (fun hc => by cases hc)).trans h.1, h.2.1.append _,
      fun hg => h.2.2 (hgone csrf hg)⟩
  | ending csrf previous =>
    exact ⟨(hmutex (fun hc => by cases hc)).trans h.1, h.2.1.append _, h.2.2⟩
  | ended csrf => exact ⟨(hmutex (fun hc => by cases hc)).trans h.1, hdone csrf h.2⟩

/-- A capture is made only for a login that was not removed. -/
theorem not_gone_of_creates (hlogin : Login.Inv w as s) (hinv : Inv as s)
    (h : (outline w).holds i l as s) {e : Op} (hallowed : Allowed l e) (ho : Orderly e s)
    {owner : Bytes} (hc : Creates owner e) : ¬ Gone as owner := by
  cases e with
  | capture c =>
    cases c with
    | start o kind user startup =>
      cases hc
      obtain ⟨cookie, σ, hσ, rfl⟩ := ho
      rw [getSession_eq] at hσ
      exact not_gone_of_entry hlogin hinv hσ
    | startUser o user iface ip visited =>
      cases hc
      obtain ⟨cookie, rfl⟩ := hallowed
      exact h.2.2
    | _ => exact hc.elim
  | _ => exact hc.elim

theorem Inv.op (hlogin : Login.Inv w as s) (hinv : Inv as s) (h : (outline w).holds i l as s)
    {e : Op} {r : Result e} (hallowed : Allowed l e) (ho : Orderly e s) (hexec : exec w i e s r s') :
    Inv (as ++ [.op i e r]) s' where
  drawn cookie csrf hissued := by
    rcases issued_snoc hissued with hold | hnew
    · have hsub := (exec_leaves hexec).drawn
      exact ⟨hsub (hinv.drawn cookie csrf hold).1, hsub (hinv.drawn cookie csrf hold).2⟩
    · obtain ⟨-, -, hcookie, hcsrf⟩ := exec_logsIn hexec hnew
      exact ⟨hcookie, hcsrf⟩
  unique cookie csrf cookie' csrf' hissued hissued' := by
    -- what is new differs from all that was drawn before
    have hdiffer : ∀ {c k c' k' : Bytes}, Issued as c k → LogsIn c' k' (.op i e r) →
        c ≠ c' ∧ k ≠ k' := by
      rintro c k c' k' hold hnew
      obtain ⟨hc', hk', -, -⟩ := exec_logsIn hexec hnew
      obtain ⟨hc, hk⟩ := hinv.drawn c k hold
      exact ⟨fun heq => hc' (heq ▸ hc), fun heq => hk' (heq ▸ hk)⟩
    rcases issued_snoc hissued with hold | hnew <;> rcases issued_snoc hissued' with hold' | hnew'
    · exact hinv.unique _ _ _ _ hold hold'
    · exact iff_of_false (hdiffer hold hnew').1 (hdiffer hold hnew').2
    · exact iff_of_false (hdiffer hold' hnew).1.symm (hdiffer hold' hnew).2.symm
    · obtain ⟨_, _, l₁, h₁, rfl, rfl⟩ := hnew
      obtain ⟨_, _, l₂, h₂, rfl, rfl⟩ := hnew'
      cases h₁
      cases h₂
      exact iff_of_true rfl rfl
  done j csrf hmem := by
    refine Done.op ?_ hexec fun owner hc => not_gone_of_creates hlogin hinv h hallowed ho hc
    rcases mem_snoc.1 hmem with hold | hnew
    · exact hinv.done j csrf hold
    · cases hnew
      have hl : l = .ended csrf := hallowed
      subst hl
      exact h.2

/-- A step of nobody logs in or out. -/
theorem Inv.quiet (hinv : Inv as s) (s' : Web) {a : Step} (ha : ∀ i e r, a ≠ .op i e r)
    (hdrawn : s'.drawn = s.drawn)
    (hrunning : ∀ id c', Running s'.capture id c' → ∃ c, Running s.capture id c ∧ c.Later c') :
    Inv (as ++ [a]) s' ∧ (∀ csrf, Gone (as ++ [a]) csrf → Gone as csrf) ∧
      ∀ csrf, Done as s csrf → Done (as ++ [a]) s' csrf := by
  have hissued : ∀ {cookie csrf}, Issued (as ++ [a]) cookie csrf → Issued as cookie csrf := by
    intro cookie csrf h
    exact (issued_snoc h).resolve_right fun ⟨i, err, l, heq, _⟩ => ha _ _ _ heq
  have hmem : ∀ {i e r}, .op i e r ∈ as ++ [a] → .op i e r ∈ as := by
    intro i e r h
    exact (List.mem_append.1 h).resolve_right fun hnew => ha i e r (List.mem_singleton.1 hnew).symm
  have hdone : ∀ csrf, Done as s csrf → Done (as ++ [a]) s' csrf := by
    intro csrf h
    refine ⟨h.1.append _, fun id c' hc' => ?_⟩
    obtain ⟨c, hc, hlater⟩ := hrunning id c' hc'
    rw [hlater.owner]
    exact h.2 id c hc
  refine ⟨⟨fun cookie csrf h => ?_, fun _ _ _ _ h h' => hinv.unique _ _ _ _ (hissued h) (hissued h'),
    fun i csrf h => hdone csrf (hinv.done i csrf (hmem h))⟩, fun csrf h => ?_, hdone⟩
  · rw [hdrawn]
    exact hinv.drawn cookie csrf (hissued h)
  · obtain ⟨cookie, i, err, p, h, hrem⟩ := h
    exact ⟨cookie, i, err, p, hissued h, hmem hrem⟩

/-- The login removed is the one that is accepted. -/
theorem removeSession_previous {t : Tables} {now : Time} {σ : Session} (credential : Bytes)
    (err : Option String) (h : entry now t.sessions cookie = some σ) :
    (t.removeSession credential err cookie).1.1 = σ := by
  obtain ⟨hlook, -⟩ := Option.filter_eq_some_iff.1 h
  have hprevious : (t.removeSession credential err cookie).1.1 =
      (t.sessions.lookup cookie).getD ⟨[], 0⟩ := by
    cases err <;> rfl
  rw [hprevious, hlook]
  rfl

/-- A thread removes the login it has accepted. -/
theorem holds_removed (hlogin : Login.Inv w as s) (hinv : Inv as s)
    (hunused : w.config.capture = none → s.capture.sessions = ∅)
    (h : (outline w).holds i (.owner cookie csrf) as s) {err : Option String} {p : Session}
    (ho : Orderly (.removeSession cookie err) s)
    (hexec : exec w i (.removeSession cookie err) s (p, true) s') :
    (outline w).holds i ((Stage.owner cookie csrf).removed w p.csrf)
      (as ++ [.op i (.removeSession cookie err) (p, true)]) s' := by
  obtain ⟨hmutex, hissued, -⟩ := h
  have hleaves := exec_leaves hexec
  have hmutex' := (hleaves.mutex (fun hc => by cases hc) (fun hc => by cases hc)).trans hmutex
  have hgone : Gone (as ++ [.op i (.removeSession cookie err) (p, true)]) csrf :=
    ⟨cookie, i, err, p, hissued.append _, List.mem_append_right _ (List.mem_singleton.2 rfl)⟩
  unfold Stage.removed
  split_ifs with hc
  · refine ⟨hmutex', hgone, fun id c hrun => ?_⟩
    have hlook := (Option.filter_eq_some_iff.1 hrun.1).1
    rw [hleaves.capture fun c hc => (by cases hc), hunused hc, Finmap.lookup_empty] at hlook
    cases hlook
  · refine ⟨hmutex', hgone, ?_⟩
    obtain ⟨σ, hσ⟩ := Option.ne_none_iff_exists'.1 ho
    rw [getSession_eq] at hσ
    have hp : p = σ := by
      rw [← removeSession_previous w.credential err hσ, ← hexec.1]
    rw [hp]
    exact (hinv.unique _ _ _ _ (issued_of_entry hlogin hσ) hissued).1 rfl

/-- A thread that holds the mutex goes on. -/
theorem holds_next (hlogin : Login.Inv w as s) (hinv : Inv as s)
    (hunused : w.config.capture = none → s.capture.sessions = ∅)
    (h : (outline w).holds i l as s) (hl : l ≠ .free) {e : Op} {r : Result e}
    (hallowed : Allowed l e) (ho : Orderly e s) (hexec : exec w i e s r s') :
    (outline w).holds i (next w l e r) (as ++ [.op i e r]) s' := by
  have hsame : e ≠ .lock → e ≠ .unlock → ¬ Removes e r →
      (outline w).holds i l (as ++ [.op i e r]) s' := fun hlock hunlock hr =>
    holds_append h (fun _ => (exec_leaves hexec).mutex hlock hunlock)
      (fun _ => gone_op hlogin hexec hr)
      fun _ hd => hd.op hexec fun _ hc => not_gone_of_creates hlogin hinv h hallowed ho hc
  cases e with
  | lock => exact absurd hallowed hl
  | unlock => trivial
  | getSession cookie =>
    have hl' := hsame (fun hc => by cases hc) (fun hc => by cases hc) (fun hr => hr)
    cases r with
    | none => exact hl'
    | some σ =>
      cases cookie with
      | none => cases hexec.1
      | some cookie =>
        have hentry : entry s.now s.tables.sessions cookie = some σ := by
          rw [← getSession_eq, ← hexec.1]
        have hnext : next w l (.getSession (some cookie)) (some σ) = .owner cookie σ.csrf := by
          simp [next, hl]
        rw [hnext]
        exact ⟨mutex_of_holds hl' hl, (issued_of_entry hlogin hentry).append _, fun hg =>
          not_gone_of_entry hlogin hinv hentry (gone_op hlogin hexec (fun hr => hr) hg)⟩
  | removeSession cookie err =>
    obtain ⟨csrf, rfl⟩ := hallowed
    obtain ⟨p, saved⟩ := r
    cases saved with
    | false => exact hsame (fun hc => by cases hc) (fun hc => by cases hc) (fun hr => hr)
    | true => exact holds_removed hlogin hinv hunused h ho hexec
  | capture c =>
    have hl' := hsame (fun hc => by cases hc) (fun hc => by cases hc) (fun hr => hr)
    cases c with
    | stopOwner owner =>
      cases l with
      | ending csrf previous =>
        simp only [next, Stage.stopped]
        split_ifs with heq
        · subst heq
          obtain ⟨hmutex, hgone, rfl⟩ := hl'
          refine ⟨hmutex, hgone, fun id c hrun => ?_⟩
          obtain ⟨random, -, -, rfl⟩ := hexec
          exact running_stopOwner hrun
        · exact hl'
      | _ => exact hl'
    | _ => exact hl'
  | _ => exact hsame (fun hc => by cases hc) (fun hc => by cases hc) (fun hr => hr)

/-- The steps of the environment are quiet. -/
theorem running_background {c : Event} (h : background w s c s') {id : Bytes}
    {c' : DebugCapture.Session} (hc' : Running s'.capture id c') :
    ∃ c, Running s.capture id c ∧ c.Later c' := by
  cases c with
  | tick t =>
    obtain ⟨-, rfl⟩ := h
    exact ⟨c', hc', .refl c'⟩
  | store =>
    obtain ⟨_, -, rfl⟩ := h
    exact ⟨c', hc', .refl c'⟩
  | record id e =>
    subst h
    exact Captures.running_of_moves (DebugCapture.Manager.moves_record id e s.capture) hc'
  | drop id =>
    subst h
    exact Captures.running_of_moves (DebugCapture.Manager.moves_drop id s.capture) hc'
  | close =>
    subst h
    exact Captures.running_of_moves (DebugCapture.Manager.moves_close s.capture) hc'
  | restart => exact h.elim

theorem valid (w : Setup) : (outline w).Valid where
  follows := follows w
  init _ := by
    have hnone : ∀ {cookie csrf}, ¬ Issued [] cookie csrf := fun ⟨_, _, _, hmem, _⟩ => by cases hmem
    exact ⟨fun _ _ h => absurd h hnone, fun _ _ _ _ h => absurd h hnone, fun _ _ h => by cases h⟩
  spawn {as s i q} hinv :=
    ⟨(hinv.quiet s (a := .spawn i q) (fun _ _ _ hc => by cases hc) rfl
      fun _ c hc => ⟨c, hc, .refl c⟩).1, trivial⟩
  spawn_frame {as s i q j l} hinv hl := by
    obtain ⟨-, hgone, hdone⟩ := hinv.quiet s (a := .spawn i q) (fun _ _ _ hc => by cases hc) rfl
      fun _ c hc => ⟨c, hc, .refl c⟩
    exact holds_append hl (fun _ => rfl) hgone hdone
  op {as x i l e r s'} hrun hinv hl hallowed hexec := by
    have hmachine := Machine.run_of_guard hrun
    have hlogin := ((Login.valid w).run hmachine).1
    have hwithin := ((Captures.valid w).run hmachine).1.within
    obtain ⟨ho, hexec⟩ := hexec
    have hexec' : exec w i e x.shared r s' := hexec
    refine ⟨hinv.op hlogin hl hallowed ho hexec', ?_⟩
    by_cases hfree : l = .free
    · subst hfree
      cases e with
      | lock =>
        obtain ⟨-, rfl⟩ := hexec
        rfl
      | unlock => trivial
      | getSession cookie => cases r <;> trivial
      | removeSession cookie err =>
        obtain ⟨_, hc⟩ := hallowed
        cases hc
      | capture c => cases c <;> trivial
      | _ => trivial
    · exact holds_next hlogin hinv hwithin.unused hl hfree hallowed ho hexec'
  op_frame {as x i l e r s' j l'} hrun hinv hl hallowed hexec hne hl' := by
    by_cases hfree' : l' = .free
    · subst hfree'
      trivial
    have hlogin := ((Login.valid w).run (Machine.run_of_guard hrun)).1
    have hmutex' := mutex_of_holds hl' hfree'
    obtain ⟨ho, hexec⟩ := hexec
    have hexec' : exec w i e x.shared r s' := hexec
    -- the other thread holds the mutex, so this one does not
    have hfree : l = .free := by
      by_contra hc
      exact hne (Option.some.inj (hmutex'.symm.trans (mutex_of_holds hl hc)))
    subst hfree
    have hlock : e ≠ .lock := by
      rintro rfl
      exact absurd (hexec.1.symm.trans hmutex') (fun h => by cases h)
    have hunlock : e ≠ .unlock := by
      rintro rfl
      exact hallowed rfl
    have hremoves : ¬ Removes e r := by
      intro hr
      cases e with
      | removeSession cookie err =>
        obtain ⟨_, hc⟩ := hallowed
        cases hc
      | _ => exact hr
    exact holds_append hl' (fun _ => (exec_leaves hexec').mutex hlock hunlock)
      (fun _ => gone_op hlogin hexec' hremoves)
      fun _ hd => hd.op hexec' fun _ hc => not_gone_of_creates hlogin hinv hl hallowed ho hc
  env {as s c s'} hinv henv :=
    (hinv.quiet s' (a := .env c) (fun _ _ _ hc => by cases hc) (background_leaves henv).1
      fun _ _ => running_background henv).1
  env_frame {as s c s' j l} hinv henv hl := by
    obtain ⟨-, hgone, hdone⟩ := hinv.quiet s' (a := .env c) (fun _ _ _ hc => by cases hc)
      (background_leaves henv).1 fun _ _ => running_background henv
    exact holds_append hl (fun _ => (background_leaves henv).2.2.1) hgone hdone
  crash {as s c s'} hinv hcrash := by
    obtain ⟨-, _, _, _, -, hcapture, hs'⟩ := hcrash
    refine ⟨(hinv.quiet s' (a := .crash c) (fun _ _ _ hc => by cases hc) (by rw [hs'])
      fun id c hc => ?_).1, fun _ => trivial⟩
    rw [hs'] at hc
    have hlook := (Option.filter_eq_some_iff.1 hc.1).1
    rw [Captures.sessions_of_new hcapture, Finmap.lookup_empty] at hlook
    cases hlook

/-! ### Two interleavings -/

/-- The login of the schedules. -/
def cookie₁ : Bytes := Sample.digits 48 1

/-- Its CSRF token. -/
def csrf₁ : Bytes := Sample.digits 48 2

/-- A capture is started as thread 1, up to where its login is accepted. -/
def accepted : List Move :=
  Sample.login 0 cookie₁ csrf₁ ++
    [.spawn 1 (.captureStart (Sample.request cookie₁ csrf₁ { kind := str "vpn" })), .op 1 []]

/-- The capture is made. -/
def started : List Move := [.op 1 [Sample.digits 64 3], .op 1 []]

/-- The login logs out, as thread 2. -/
def loggedOut : List Move :=
  [.spawn 2 (.logout (Sample.request cookie₁ csrf₁ {})), .op 2 [], .op 2 [], .op 2 [],
    .op 2 [Sample.digits 64 4], .op 2 [], .op 2 []]

theorem overtaken_isSome :
    (schedule Sample.setup (accepted ++ loggedOut ++ started) Sample.start).isSome := by
  decide +kernel

/-- The logout overtakes the start. -/
def overtaken : List Step × Pool Web Op Result :=
  (schedule Sample.setup (accepted ++ loggedOut ++ started) Sample.start).get overtaken_isSome

theorem overtaken_run : (machine Sample.setup).system.Run overtaken.1 overtaken.2 :=
  run_of_schedule Sample.start_run (Option.some_get overtaken_isSome).symm

theorem inOrder_isSome :
    (schedule Sample.setup (accepted ++ started ++ loggedOut) Sample.start).isSome := by
  decide +kernel

/-- The logout follows the start. -/
def inOrder : List Step × Pool Web Op Result :=
  (schedule Sample.setup (accepted ++ started ++ loggedOut) Sample.start).get inOrder_isSome

/-- Is the step the answer to a logout? -/
def answers (csrf : Bytes) : Step → Bool
  | .op _ (.reply (.loggedOut c)) _ => c = csrf
  | _ => false

theorem mem_of_answers (h : as.any (answers csrf)) :
    ∃ i, .op i (.reply (.loggedOut csrf)) () ∈ as := by
  obtain ⟨a, hmem, ha⟩ := List.any_eq_true.1 h
  unfold answers at ha
  split at ha
  · rename_i i c r
    obtain rfl : c = csrf := of_decide_eq_true ha
    exact ⟨i, hmem⟩
  · cases ha

/-- `Orderly`, to be evaluated. -/
def isOrderly : Op → Web → Bool
  | .capture (.start owner _ _ _), s =>
    (s.tables.prune s.now).sessions.Any fun _ l => l.csrf = owner
  | .removeSession cookie _, s => (s.tables.getSession (some cookie) s.now).1.isSome
  | _, _ => true

theorem orderly_of_isOrderly (e : Op) (s : Web) (h : isOrderly e s) : Orderly e s := by
  cases e with
  | removeSession cookie err => exact Option.isSome_iff_ne_none.1 h
  | capture c =>
    cases c with
    | start owner kind user startup => exact Map.any_iff.1 (of_decide_eq_true h)
    | _ => trivial
  | _ => trivial

theorem inOrder_run : (orderly Sample.setup).system.Run inOrder.1 inOrder.2 :=
  run_of_checked orderly_of_isOrderly (.init ⟨Sample.started, rfl⟩)
    (Option.some_get inOrder_isSome).symm (by decide +kernel)

end Logout

/-- A logout stops the captures of its login, if a capture is started, and a login is
    removed, only while the login is accepted: in every state after the answer to a
    logout, the captures in the table whose owner is the login do not run, and they can
    be neither redeemed nor attached. -/
theorem logout_stops {w : Setup} {as : List Step} {x : Pool Web Op Result}
    (h : ((machine w).guard Orderly).system.Run as x) {i : ℕ} {csrf : Bytes}
    (hout : .op i (.reply (.loggedOut csrf)) () ∈ as) {id : Bytes} {c : DebugCapture.Session}
    (hc : x.shared.capture.find id = some c) (howner : c.owner = csrf) :
    c.state ≠ .running ∧
    (∀ ticket now random, ∃ e, (x.shared.capture.redeem id ticket now random).1 = .error e) ∧
    ∀ token, (x.shared.capture.attach id token).1 = false := by
  have hdone := ((Logout.valid w).run h).1.done i csrf hout
  have hstate : c.state ≠ .running := fun hrunning => hdone.2 id c ⟨hc, hrunning⟩ howner
  refine ⟨hstate, fun ticket now random => ?_, fun token => ?_⟩
  · simp [DebugCapture.Manager.redeem, hc, DebugCapture.Session.redeem, hstate]
  · simp [DebugCapture.Manager.attach, hc, DebugCapture.Session.attach, hstate]

/-- A capture has ended with its login. -/
theorem logout_stops_inOrder :
    ∃ c, Logout.inOrder.2.shared.capture.find (Sample.digits 64 3) = some c ∧
      c.owner = Logout.csrf₁ ∧ c.state ≠ .running := by
  have hfind : (Logout.inOrder.2.shared.capture.find (Sample.digits 64 3)).map (·.owner) =
      some Logout.csrf₁ := by decide +kernel
  obtain ⟨c, hc, howner⟩ := Option.map_eq_some_iff.1 hfind
  have hanswered : Logout.inOrder.1.any (Logout.answers Logout.csrf₁) := by decide +kernel
  obtain ⟨i, hout⟩ := Logout.mem_of_answers hanswered
  exact ⟨c, hc, howner, (logout_stops Logout.inOrder_run hout hc howner).1⟩

/-- A login is accepted to start a capture, logs out, and then its capture is started. -/
theorem logout_overtaken :
    (machine Sample.setup).system.Run Logout.overtaken.1 Logout.overtaken.2 ∧
    (∃ i, .op i (.reply (.loggedOut Logout.csrf₁)) () ∈ Logout.overtaken.1) ∧
    ∃ id c, Logout.overtaken.2.shared.capture.find id = some c ∧ c.owner = Logout.csrf₁ ∧
      c.state = .running := by
  refine ⟨Logout.overtaken_run, Logout.mem_of_answers (by decide +kernel), ?_⟩
  have hfind : (Logout.overtaken.2.shared.capture.find (Sample.digits 64 3)).map
      (fun c => (c.owner, c.state)) = some (Logout.csrf₁, .running) := by decide +kernel
  obtain ⟨c, hc, hfields⟩ := Option.map_eq_some_iff.1 hfind
  obtain ⟨howner, hstate⟩ := Prod.mk.inj hfields
  exact ⟨_, c, hc, howner, hstate⟩

end QuicLab.Admin.Web
