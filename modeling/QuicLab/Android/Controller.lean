import QuicLab.Android.VpnSession
import Mathlib.Data.Finset.Insert

/-!
# Several VPNs at once

A `MultipleVpnController` runs a session for each profile of its plan, and one router
for all of them. On the main thread, a profile is paused and resumed, sessions are told
to start, and all is closed. A resumed profile has a new session; the worker of the old
one may still be busy. Sessions are told apart by a token, the generation they were
started in, and a worker hands a gateway to the router only after it has found its token
to be the current generation of the profile.

* `Controller.next`: a step of the main thread, of a worker, or of the thread that
  closes the router. Each access to what the threads share is a step of its own;
* `Controller.Inv`: the gateways of the router are held by sessions of their profiles;
* `stopped_never_routed`: what holds of stopped tunnels under every interleaving.
-/

namespace QuicLab.Android

open Go Mobile

/-- A plan, with the router made for it: its rules are those of the profiles. -/
structure MultipleVpnPlan where
  profiles : List Bytes
  router : MultiRouter Gateway
  made : ∃ unmarshal raw dnsProfile owner,
    newMultiRouter unmarshal raw dnsProfile owner true .direct = .ok router
  rules : ∀ id ∈ profiles, id ∈ router.policy.rules.map (·.id)

/-- Where the main thread is: it waits for a message; it starts the profiles left at the
    beginning; it resumes a profile, before `setProfileEnabled` or before `start`; it
    pauses one, before `setProfileEnabled`, before the new generation, or before the
    session is closed; or it closes the sessions that are left. -/
inductive Controller.Main
  | idle
  | init (rest : List Bytes)
  | enable (id : Bytes)
  | start (id : Bytes)
  | disable (id : Bytes)
  | renew (id : Bytes)
  | closeSession (id : Bytes)
  | closing (rest : List ℕ)
  deriving DecidableEq

/-- A `MultipleVpnController`. `workers` has all the sessions made so far by their
    tokens, and `sessions` the tokens of the sessions in use, in the order they were put
    there. `closer` says whether the thread that closes the router is still to do so. -/
structure Controller where
  router : MultiRouter Gateway
  closed : Bool
  generation : ℕ
  generations : Map Bytes ℕ
  paused : Finset Bytes
  sessions : List (Bytes × ℕ)
  workers : Map ℕ VpnSession
  main : Controller.Main
  closer : Bool

namespace Controller

/-- The session with a token is changed. -/
def modify (token : ℕ) (f : VpnSession → VpnSession) (x : Controller) : Controller :=
  { x with workers := x.workers.update fun t s => if t = token then f s else s }

/-- `sessions[id] = token`. -/
def put (id : Bytes) (token : ℕ) (sessions : List (Bytes × ℕ)) : List (Bytes × ℕ) :=
  if sessions.any (·.1 = id) then sessions.map fun e => if e.1 = id then (id, token) else e
  else sessions ++ [(id, token)]

/-- `start`. -/
def start (id : Bytes) (x : Controller) : Controller :=
  { x with
    generation := x.generation + 1
    generations := x.generations.insert id (x.generation + 1)
    workers := x.workers.insert (x.generation + 1) { id := id }
    sessions := put id (x.generation + 1) x.sessions }

/-- The new generation when a profile is paused. -/
def renew (id : Bytes) (x : Controller) : Controller :=
  { x with
    generation := x.generation + 1
    generations := x.generations.insert id (x.generation + 1) }

/-- The session of a paused profile is closed. -/
def closeSession (id : Bytes) (x : Controller) : Controller :=
  match x.sessions.lookup id with
  | none => x
  | some token => { x with sessions := x.sessions.filter (·.1 ≠ id) }.modify token .close

/-- A message of the main thread. -/
inductive Message
  | toggle (id : Bytes)
  | startOrMigrate (id : Bytes)
  | close

/-- What may happen: the main thread takes a message, or goes on with it; the worker of
    a session takes a step, in which what may fail succeeds or not; or the thread that
    closes the router does so. -/
inductive Act
  | message (m : Message)
  | main
  | worker (token : ℕ) (ok : Bool)
  | closeRouter

/-- The main thread takes a message: `toggle`, a call of `startOrMigrate` when a network
    becomes available, when a timer fires or in `move`, or `close`, also when the
    beginning fails. -/
def message (plan : List Bytes) (x : Controller) : Message → Option Controller
  | .toggle id =>
    if x.main = .idle then
      some (if x.closed ∨ id ∉ plan then x
        else if id ∈ x.paused then { x with paused := x.paused.erase id, main := .enable id }
        else { x with paused := insert id x.paused, main := .disable id })
    else none
  | .startOrMigrate id =>
    if x.main = .idle then
      some (match x.sessions.lookup id with
        | none => x
        | some token => x.modify token (·.submit .startOrMigrate))
    else none
  | .close =>
    match x.main with
    | .idle =>
      some (if x.closed then x
        else { x with closed := true, main := .closing (x.sessions.map (·.2)) })
    | .init _ => some { x with closed := true, main := .closing (x.sessions.map (·.2)) }
    | _ => none

/-- The main thread goes on. -/
def mainStep (x : Controller) : Option (Option RouterCall × Controller) :=
  match x.main with
  | .idle => none
  | .init [] => some (none, { x with main := .idle })
  | .init (id :: rest) => some (none, { x.start id with main := .init rest })
  | .enable id =>
    some (some (.setProfileEnabled id true, none),
      { x with router := x.router.setProfileEnabled id true, main := .start id })
  | .start id => some (none, { x.start id with main := .idle })
  | .disable id =>
    some (some (.setProfileEnabled id false, none),
      { x with router := x.router.setProfileEnabled id false, main := .renew id })
  | .renew id => some (none, { x.renew id with main := .closeSession id })
  | .closeSession id => some (none, { x.closeSession id with main := .idle })
  | .closing [] => some (none, { x with sessions := [], main := .idle, closer := true })
  | .closing (token :: rest) => some (none, { x.modify token .close with main := .closing rest })

/-- A step: the call of the router in it, if any, and the controller after it. -/
def next (plan : List Bytes) (x : Controller) : Act → Option (Option RouterCall × Controller)
  | .message m => (x.message plan m).map fun x' => (none, x')
  | .main => x.mainStep
  | .worker token ok =>
    match x.workers.lookup token with
    | none => none
    | some s =>
      -- the check in `attached`, if the worker is there
      let current := decide (x.closed = false ∧ x.generations.lookup s.id = some token)
      (s.step token ok current x.router).map fun y =>
        (y.1, { x with router := y.2.1, workers := x.workers.insert token y.2.2 })
  | .closeRouter =>
    if x.closer then some (some (.close, none), { x with router := x.router.close, closer := false })
    else none

/-- The labels of steps. -/
abbrev Step := Act × Option RouterCall

end Controller

namespace MultipleVpnPlan

variable (p : MultipleVpnPlan)

/-- The controller at its beginning. -/
def initial : Controller where
  router := p.router
  closed := false
  generation := 0
  generations := ∅
  paused := ∅
  sessions := []
  workers := ∅
  main := .init p.profiles
  closer := false

/-- The controller of the plan, with the calls of its router as labels. -/
def system : System Controller Controller.Step where
  init x := x = p.initial
  step x a x' := x.next p.profiles a.1 = some (a.2, x')

theorem ne_direct {id : Bytes} (h : id ∈ p.profiles) : id ≠ Routing.direct := by
  obtain ⟨r, hr, hid⟩ := List.mem_map.1 (p.rules id h)
  exact hid ▸ (p.router.policy.id_ne r hr).2

end MultipleVpnPlan

namespace Controller

/-! ### The calls of the router -/

/-- The calls of the router in a history. -/
def calls (as : List Step) : List RouterCall := as.filterMap (·.2)

theorem calls_snoc (as : List Step) (a : Step) : calls (as ++ [a]) = calls as ++ a.2.toList := by
  obtain ⟨_, c⟩ := a
  rw [calls, List.filterMap_append, calls]
  cases c <;> rfl

variable {plan : List Bytes} {x x' : Controller} {a : Act} {c : Option RouterCall}

theorem closeSession_router (id : Bytes) : (x.closeSession id).router = x.router := by
  unfold closeSession
  split <;> rfl

theorem message_router {m : Message} (h : x.message plan m = some x') : x'.router = x.router := by
  cases m with
  | toggle id =>
    simp only [message] at h
    split_ifs at h <;> cases h <;> rfl
  | startOrMigrate id =>
    simp only [message] at h
    split_ifs at h
    cases h
    split <;> rfl
  | close =>
    simp only [message] at h
    split at h
    · split_ifs at h <;> cases h <;> rfl
    · cases h
      rfl
    · cases h

/-- A step does to the router what its call does. -/
theorem next_router (h : x.next plan a = some (c, x')) : Called x.router x'.router c := by
  cases a with
  | message m =>
    obtain ⟨y, hy, he⟩ := Option.map_eq_some_iff.1 h
    cases he
    exact message_router hy
  | main =>
    simp only [next, mainStep] at h
    split at h <;> cases h <;> try rfl
    exact closeSession_router _
  | worker token ok =>
    simp only [next] at h
    split at h
    · cases h
    · obtain ⟨⟨c', router', s'⟩, hs, he⟩ := Option.map_eq_some_iff.1 h
      cases he
      exact VpnSession.step_router hs
  | closeRouter =>
    simp only [next] at h
    split_ifs at h
    cases h
    rfl

/-- The router runs under the calls of the controller. -/
theorem router_run {p : MultipleVpnPlan} {as : List Step} (h : p.system.Run as x) :
    (routing p.router).Run (calls as) x.router := by
  induction h with
  | init h =>
    cases h
    exact .init rfl
  | @step as y y' a _ hs ih =>
    obtain ⟨a, c⟩ := a
    have hcall := next_router hs
    rw [calls_snoc]
    cases c with
    | none =>
      rw [Option.toList_none, List.append_nil, show y'.router = y.router from hcall]
      exact ih
    | some c => exact ih.step hcall

/-! ### Steps of no worker -/

/-- No worker moves from `x` to `x'`: a session may be told something, and one may be made. -/
structure Quiet (x x' : Controller) : Prop where
  old : ∀ t s', x'.workers.lookup t = some s' →
    (∃ s, x.workers.lookup t = some s ∧ s.Same s') ∨
      t = x.generation + 1 ∧ t ≤ x'.generation ∧ ∃ id, s' = { id := id }
  kept : ∀ t s, t ≤ x.generation → x.workers.lookup t = some s →
    ∃ s', x'.workers.lookup t = some s' ∧ s.Same s'
  generation : x.generation ≤ x'.generation

theorem quiet_of_workers (hw : x'.workers = x.workers) (hg : x.generation ≤ x'.generation) :
    Quiet x x' :=
  ⟨fun _ s' hs' => .inl ⟨s', hw ▸ hs', .refl s'⟩, fun _ s _ hs => ⟨s, hw ▸ hs, .refl s⟩, hg⟩

theorem quiet_modify (token : ℕ) {f : VpnSession → VpnSession}
    (hf : ∀ s : VpnSession, s.Same (f s)) (hw : x'.workers = (x.modify token f).workers)
    (hg : x.generation ≤ x'.generation) : Quiet x x' := by
  have hlook : ∀ t, x'.workers.lookup t =
      (x.workers.lookup t).map fun s => if t = token then f s else s := by
    intro t
    rw [hw]
    exact Map.lookup_update _ _ _
  have hsame : ∀ t (s : VpnSession), s.Same (if t = token then f s else s) := by
    intro t s
    split_ifs
    · exact hf s
    · exact .refl s
  refine ⟨fun t s' hs' => .inl ?_, fun t s _ hs => ?_, hg⟩
  · rw [hlook, Option.map_eq_some_iff] at hs'
    obtain ⟨s, hs, rfl⟩ := hs'
    exact ⟨s, hs, hsame t s⟩
  · exact ⟨_, by rw [hlook, hs]; rfl, hsame t s⟩

theorem quiet_start (id : Bytes) (hw : x'.workers = (x.start id).workers)
    (hg : x'.generation = x.generation + 1) : Quiet x x' := by
  have hlook : ∀ t, x'.workers.lookup t =
      if t = x.generation + 1 then some { id := id } else x.workers.lookup t := by
    intro t
    rw [hw]
    exact Map.lookup_insert' _ _ _ _
  refine ⟨fun t s' hs' => ?_, fun t s ht hs => ?_, by omega⟩
  · rw [hlook] at hs'
    split_ifs at hs' with heq
    · cases hs'
      exact .inr ⟨heq, by omega, id, rfl⟩
    · exact .inl ⟨s', hs', .refl s'⟩
  · exact ⟨s, by rw [hlook, if_neg (by omega), hs], .refl s⟩

theorem message_quiet {m : Message} (h : x.message plan m = some x') : Quiet x x' := by
  cases m with
  | toggle id =>
    simp only [message] at h
    split_ifs at h <;> cases h <;> exact quiet_of_workers rfl le_rfl
  | startOrMigrate id =>
    simp only [message] at h
    split_ifs at h
    cases h
    split
    · exact quiet_of_workers rfl le_rfl
    · exact quiet_modify _ (VpnSession.same_submit .startOrMigrate) rfl le_rfl
  | close =>
    simp only [message] at h
    split at h
    · split_ifs at h <;> cases h <;> exact quiet_of_workers rfl le_rfl
    · cases h
      exact quiet_of_workers rfl le_rfl
    · cases h

theorem mainStep_quiet (h : x.mainStep = some (c, x')) : Quiet x x' := by
  unfold mainStep at h
  split at h
  · cases h
  · cases h
    exact quiet_of_workers rfl le_rfl
  · cases h
    exact quiet_start _ rfl rfl
  · cases h
    exact quiet_of_workers rfl le_rfl
  · cases h
    exact quiet_start _ rfl rfl
  · cases h
    exact quiet_of_workers rfl le_rfl
  · cases h
    exact quiet_of_workers rfl (Nat.le_succ _)
  · cases h
    unfold closeSession
    split
    · exact quiet_of_workers rfl le_rfl
    · exact quiet_modify _ VpnSession.same_close rfl le_rfl
  · cases h
    exact quiet_of_workers rfl le_rfl
  · cases h
    exact quiet_modify _ VpnSession.same_close rfl le_rfl

/-- A gateway is neither set nor detached by the call. -/
def Passive (c : RouterCall) : Prop := (∃ id enabled, c.1 = .setProfileEnabled id enabled) ∨ c.1 = .close

theorem mainStep_passive (h : x.mainStep = some (c, x')) : ∀ call, c = some call → Passive call := by
  rintro call rfl
  unfold mainStep at h
  split at h <;> cases h
  · exact .inl ⟨_, _, rfl⟩
  · exact .inl ⟨_, _, rfl⟩

/-- A step is one of a worker, or no worker moves. -/
theorem next_cases (h : x.next plan a = some (c, x')) :
    (∃ t ok s s' current, a = .worker t ok ∧ x.workers.lookup t = some s ∧
      current = decide (x.closed = false ∧ x.generations.lookup s.id = some t) ∧
      s.step t ok current x.router = some (c, x'.router, s') ∧
      x' = { x with router := x'.router, workers := x.workers.insert t s' }) ∨
    (∀ t ok, a ≠ .worker t ok) ∧ Quiet x x' ∧ ∀ call, c = some call → Passive call := by
  cases a with
  | message m =>
    obtain ⟨y, hy, he⟩ := Option.map_eq_some_iff.1 h
    cases he
    exact .inr ⟨fun _ _ hc => (by cases hc), message_quiet hy, fun _ hc => by cases hc⟩
  | main => exact .inr ⟨fun _ _ hc => (by cases hc), mainStep_quiet h, mainStep_passive h⟩
  | worker t ok =>
    simp only [next] at h
    split at h
    · cases h
    · rename_i s hs
      obtain ⟨⟨c', router', s'⟩, hstep, he⟩ := Option.map_eq_some_iff.1 h
      cases he
      exact .inl ⟨t, ok, s, s', _, rfl, hs, rfl, hstep, rfl⟩
  | closeRouter =>
    simp only [next] at h
    split_ifs at h
    cases h
    refine .inr ⟨fun _ _ hc => (by cases hc), quiet_of_workers rfl le_rfl, fun call hc => .inr ?_⟩
    cases hc
    rfl

/-- A passive call only removes gateways. -/
theorem lookup_of_passive {m m' : MultiRouter Gateway} {call : RouterCall} (hp : Passive call)
    (h : call.1.apply m = (call.2, m')) {id : Bytes} {hd : TunHandler Gateway}
    (hl : m'.profiles.lookup id = some hd) : m.profiles.lookup id = some hd := by
  have hm : m' = (call.1.apply m).2 := by rw [h]
  rcases hp with ⟨id', enabled, heq⟩ | heq
  · rw [heq] at hm
    subst hm
    rw [Op.apply, MultiRouter.setProfileEnabled] at hl
    split_ifs at hl
    · exact hl
    · exact hl
    · rw [show ∀ hs (m : MultiRouter Gateway), (MultiRouter.stop hs m).profiles = m.profiles from
        fun _ _ => rfl, Map.lookup_erase'] at hl
      split_ifs at hl
      exact hl
  · rw [heq] at hm
    subst hm
    rw [Op.apply, MultiRouter.close] at hl
    split_ifs at hl
    · exact hl
    · cases hl

/-! ### Schedules -/

/-- What comes of a sequence of acts, if they can be taken: the steps, and the state reached. -/
def perform (plan : List Bytes) : List Act → Controller → Option (List Step × Controller)
  | [], x => some ([], x)
  | a :: acts, x =>
    match x.next plan a with
    | none => none
    | some (c, x') => (perform plan acts x').map fun y => ((a, c) :: y.1, y.2)

theorem run_of_perform {p : MultipleVpnPlan} {acts : List Act} {as bs : List Step}
    {y : Controller} (hrun : p.system.Run as x) (h : perform p.profiles acts x = some (bs, y)) :
    p.system.Run (as ++ bs) y := by
  induction acts generalizing as bs x with
  | nil =>
    cases h
    rwa [List.append_nil]
  | cons a acts ih =>
    simp only [perform] at h
    split at h
    · cases h
    · rename_i c x' hnext
      obtain ⟨⟨bs', y'⟩, hrest, he⟩ := Option.map_eq_some_iff.1 h
      cases he
      have hstep : p.system.step x (a, c) x' := hnext
      have hall := ih (hrun.step hstep) hrest
      rwa [List.append_assoc, List.singleton_append] at hall

/-! ### The gateways of the router -/

/-- The invariant: the gateways in the router are held by sessions of their profiles,
    and a gateway that was detached is held by none. -/
structure Inv (as : List Step) (x : Controller) : Prop where
  wf : ∀ t s, x.workers.lookup t = some s → s.WF t
  tokens : ∀ t s, x.workers.lookup t = some s → t ≤ x.generation
  owned : ∀ id h, id ≠ Routing.direct → x.router.profiles.lookup id = some h →
    ∃ t s, x.workers.lookup t = some s ∧ s.id = id ∧ s.Holds h.g
  called : ∀ a id g e, (a, some (.detachGateway id (some g), e)) ∈ as ∨
      (a, some (.setGateway id (some g), e)) ∈ as →
    ∃ t ok s n, a = .worker t ok ∧ x.workers.lookup t = some s ∧ g = .made t n ∧ n < s.made
  detached : ∀ a id g e, (a, some (.detachGateway id (some g), e)) ∈ as →
    ∀ t s, x.workers.lookup t = some s → ¬ s.Holds g

variable {p : MultipleVpnPlan} {as : List Step}

theorem Inv.init : Inv [] p.initial := by
  have hnone : ∀ t s, (∅ : Map ℕ VpnSession).lookup t ≠ some s := by
    intro t s hs
    rw [Finmap.lookup_empty] at hs
    cases hs
  refine ⟨fun t s hs => absurd hs (hnone t s), fun t s hs => absurd hs (hnone t s),
    fun id h hid hl => ?_, fun _ _ _ _ hmem => ?_, fun _ _ _ _ hmem => by cases hmem⟩
  · obtain ⟨_, _, _, _, hnew⟩ := p.made
    obtain ⟨_, _, heq, -⟩ := (inv_new hnew).attached id h hid hl
    simp at heq
  · rcases hmem with hmem | hmem <;> cases hmem

theorem Inv.quiet (hinv : Inv as x) (hq : Quiet x x') {a : Act}
    (hp : ∀ call, c = some call → Passive call) (hcalled : Called x.router x'.router c) :
    Inv (as ++ [(a, c)]) x' := by
  have hold : ∀ {b : Act} {call : RouterCall}, ¬ Passive call → (b, some call) ∈ as ++ [(a, c)] →
      (b, some call) ∈ as := by
    intro b call hne hmem
    rcases mem_snoc.1 hmem with hold | hnew
    · exact hold
    · cases hnew
      exact absurd (hp call rfl) hne
  have hset : ∀ {id : Bytes} {g : Option Gateway} {e : Option Error},
      ¬ Passive (.setGateway id g, e) := by
    rintro id g e (⟨_, _, heq⟩ | heq) <;> cases heq
  have hdetach : ∀ {id : Bytes} {g : Option Gateway} {e : Option Error},
      ¬ Passive (.detachGateway id g, e) := by
    rintro id g e (⟨_, _, heq⟩ | heq) <;> cases heq
  refine ⟨fun t s' hs' => ?_, fun t s' hs' => ?_, fun id h hid hl => ?_,
    fun b id g e hmem => ?_, fun b id g e hmem t s' hs' => ?_⟩
  · rcases hq.old t s' hs' with ⟨s, hs, hsame⟩ | ⟨-, -, id, rfl⟩
    · exact hsame.wf (hinv.wf t s hs)
    · exact .new t id
  · rcases hq.old t s' hs' with ⟨s, hs, -⟩ | ⟨-, ht, -⟩
    · exact (hinv.tokens t s hs).trans hq.generation
    · exact ht
  · have hl' : x.router.profiles.lookup id = some h := by
      cases c with
      | none => rwa [show x'.router = x.router from hcalled] at hl
      | some call => exact lookup_of_passive (hp call rfl) hcalled hl
    obtain ⟨t, s, hs, rfl, hholds⟩ := hinv.owned id h hid hl'
    obtain ⟨s', hs', hsame⟩ := hq.kept t s (hinv.tokens t s hs) hs
    exact ⟨t, s', hs', hsame.id, (hsame.holds_iff _).2 hholds⟩
  · obtain ⟨t, ok, s, n, rfl, hs, rfl, hn⟩ :=
      hinv.called b id g e (hmem.imp (hold hdetach) (hold hset))
    obtain ⟨s', hs', hsame⟩ := hq.kept t s (hinv.tokens t s hs) hs
    exact ⟨t, ok, s', n, rfl, hs', rfl, hsame.made ▸ hn⟩
  · rcases hq.old t s' hs' with ⟨s, hs, hsame⟩ | ⟨-, -, id', rfl⟩
    · rw [hsame.holds_iff]
      exact hinv.detached b id g e (hold hdetach hmem) t s hs
    · exact fun hholds => by cases hholds.1

section Worker

variable {t : ℕ} {ok current : Bool} {s s' : VpnSession} {router' : MultiRouter Gateway}

/-- The gateways in the router stay held when a worker moves. -/
theorem Inv.owned_worker (hinv : Inv as x) (hs : x.workers.lookup t = some s)
    (hstep : s.step t ok current x.router = some (c, router', s')) {id : Bytes}
    {h : TunHandler Gateway} (hid : id ≠ Routing.direct)
    (hl : router'.profiles.lookup id = some h) :
    ∃ t' s'', (x.workers.insert t s').lookup t' = some s'' ∧ s''.id = id ∧ s''.Holds h.g := by
  obtain ⟨hid', -⟩ := VpnSession.step_frame hstep
  have hwf := hinv.wf t s hs
  -- a gateway that was there is still held, unless this step detaches it
  have hkeep : x.router.profiles.lookup id = some h →
      c ≠ some (.detachGateway id (some h.g), none) →
      ∃ t' s'', (x.workers.insert t s').lookup t' = some s'' ∧ s''.id = id ∧ s''.Holds h.g := by
    intro hold hc
    obtain ⟨t₀, s₀, hs₀, hid₀, hholds⟩ := hinv.owned id h hid hold
    by_cases ht : t₀ = t
    · subst ht
      obtain rfl : s₀ = s := Option.some.inj (hs₀.symm.trans hs)
      refine ⟨t₀, s', by rw [Map.lookup_insert', if_pos rfl], hid'.trans hid₀, ?_⟩
      exact (hholds.step hwf hstep).resolve_right (hid₀ ▸ hc)
    · exact ⟨t₀, s₀, by rw [Map.lookup_insert', if_neg ht, hs₀], hid₀, hholds⟩
  have hcalled := VpnSession.step_router hstep
  cases c with
  | none =>
    rw [show router' = x.router from hcalled] at hl
    exact hkeep hl (fun hc => by cases hc)
  | some call =>
    obtain ⟨g, hg, ⟨rfl, -⟩ | ⟨e, rfl, -, hg'⟩⟩ := VpnSession.step_call hwf hstep
    · obtain rfl : x.router.detachGateway s.id (some g) = router' := congrArg Prod.snd hcalled
      by_cases hdirect : s.id = Routing.direct
      · rw [MultiRouter.detachGateway, MultiRouter.removeGatewayOf, if_pos hdirect] at hl
        refine hkeep hl fun hc => hid ?_
        cases hc
        exact hdirect
      · rw [MultiRouter.lookup_detachGateway _ _ _ hdirect] at hl
        split_ifs at hl
        · obtain ⟨hold, hne⟩ := Option.filter_eq_some_iff.1 hl
          refine hkeep hold fun hc => of_decide_eq_true hne ?_
          cases hc
          rfl
        · rename_i hne
          refine hkeep hl fun hc => hne ?_
          cases hc
          rfl
    · obtain rfl : (x.router.setGateway s.id (some g)).2 = router' := congrArg Prod.snd hcalled
      rcases x.router.setGateway_cases s.id g with ⟨_, he⟩ | ⟨-, -, -, hprofiles, -⟩
      · rw [he] at hl
        exact hkeep hl (fun hc => by cases hc)
      · rw [hprofiles, Map.lookup_insert'] at hl
        split_ifs at hl with heq
        · cases hl
          exact ⟨t, s', by rw [Map.lookup_insert', if_pos rfl], hid'.trans heq.symm, hg'⟩
        · exact hkeep hl (fun hc => by cases hc)

theorem Inv.worker (hinv : Inv as x) (hs : x.workers.lookup t = some s)
    (hstep : s.step t ok current x.router = some (c, router', s')) :
    Inv (as ++ [(.worker t ok, c)]) { x with router := router', workers := x.workers.insert t s' } := by
  have hwf := hinv.wf t s hs
  obtain ⟨-, hmade⟩ := VpnSession.step_frame hstep
  have hlook : ∀ t', (x.workers.insert t s').lookup t' = if t' = t then some s' else x.workers.lookup t' :=
    fun t' => Map.lookup_insert' _ _ _ _
  have hnew : ∀ {call : RouterCall}, c = some call → ∃ g n, g = .made t n ∧ n < s'.made ∧
      ((call = (.detachGateway s.id (some g), none) ∧ ¬ s'.Holds g) ∨
        ∃ e, call = (.setGateway s.id (some g), e)) := by
    rintro call rfl
    obtain ⟨g, hg, hcall⟩ := VpnSession.step_call hwf hstep
    obtain ⟨n, hn, rfl⟩ := hwf.client g hg.1
    exact ⟨_, n, rfl, hn.trans_le hmade, hcall.imp_right fun ⟨e, he, _⟩ => ⟨e, he⟩⟩
  refine ⟨fun t' s'' hs'' => ?_, fun t' s'' hs'' => ?_, fun id h hid hl => ?_,
    fun b id g e hmem => ?_, fun b id g e hmem t' s'' hs'' hholds => ?_⟩
  · rw [hlook] at hs''
    split_ifs at hs'' with heq
    · cases hs''
      exact heq ▸ hwf.step hstep
    · exact hinv.wf t' s'' hs''
  · rw [hlook] at hs''
    split_ifs at hs'' with heq
    · exact heq ▸ hinv.tokens t s hs
    · exact hinv.tokens t' s'' hs''
  · exact hinv.owned_worker hs hstep hid hl
  · -- an old call, or the one of this step
    have hcases : ((b, some (.detachGateway id (some g), e)) ∈ as ∨
        (b, some (.setGateway id (some g), e)) ∈ as) ∨ b = .worker t ok ∧
        (c = some (.detachGateway id (some g), e) ∨ c = some (.setGateway id (some g), e)) := by
      rcases hmem with hmem | hmem
      · rcases mem_snoc.1 hmem with hold | hnew
        · exact .inl (.inl hold)
        · cases hnew
          exact .inr ⟨rfl, .inl rfl⟩
      · rcases mem_snoc.1 hmem with hold | hnew
        · exact .inl (.inr hold)
        · cases hnew
          exact .inr ⟨rfl, .inr rfl⟩
    rcases hcases with hold | ⟨rfl, hc⟩
    · obtain ⟨t', ok', s₀, n, rfl, hs₀, rfl, hn⟩ := hinv.called b id g e hold
      by_cases heq : t' = t
      · subst heq
        obtain rfl : s₀ = s := Option.some.inj (hs₀.symm.trans hs)
        exact ⟨t', ok', s', n, rfl, by rw [hlook, if_pos rfl], rfl, hn.trans_le hmade⟩
      · exact ⟨t', ok', s₀, n, rfl, by rw [hlook, if_neg heq, hs₀], rfl, hn⟩
    · have hgateway : ∃ n, g = .made t n ∧ n < s'.made := by
        rcases hc with hc | hc
        · obtain ⟨g', n, hg', hn, ⟨heq, -⟩ | ⟨_, heq⟩⟩ := hnew hc
          · cases heq
            exact ⟨n, hg', hn⟩
          · cases heq
        · obtain ⟨g', n, hg', hn, ⟨heq, -⟩ | ⟨_, heq⟩⟩ := hnew hc
          · cases heq
          · cases heq
            exact ⟨n, hg', hn⟩
      obtain ⟨n, hg, hn⟩ := hgateway
      exact ⟨t, ok, s', n, rfl, by rw [hlook, if_pos rfl], hg, hn⟩
  · rw [hlook] at hs''
    rcases mem_snoc.1 hmem with hold | hlast
    · split_ifs at hs'' with heq
      · cases hs''
        subst heq
        rcases VpnSession.holds_of_step hstep hholds with hheld | rfl
        · exact hinv.detached b id g e hold t' s hs hheld
        · -- a gateway that is made now was not detached before
          obtain ⟨t₁, -, s₁, n, -, hs₁, hg, hn⟩ := hinv.called b id _ e (.inl hold)
          cases hg
          obtain rfl : s₁ = s := Option.some.inj (hs₁.symm.trans hs)
          exact absurd hn (lt_irrefl _)
      · exact hinv.detached b id g e hold t' s'' hs'' hholds
    · cases hlast
      obtain ⟨g', n, hg', -, ⟨heq, hnot⟩ | ⟨_, heq⟩⟩ := hnew rfl
      · cases heq
        split_ifs at hs'' with ht
        · cases hs''
          exact hnot hholds
        · obtain ⟨n', -, hg''⟩ := (hinv.wf t' s'' hs'').client g hholds.1
          cases hg'.symm.trans hg''
          exact ht rfl
      · cases heq

end Worker

theorem Inv.step (hinv : Inv as x) {b : Step} (h : p.system.step x b x') : Inv (as ++ [b]) x' := by
  obtain ⟨a, c⟩ := b
  rcases next_cases h with ⟨t, ok, s, s', current, rfl, hs, -, hstep, hx'⟩ | ⟨-, hquiet, hpassive⟩
  · rw [hx']
    exact hinv.worker hs hstep
  · exact hinv.quiet hquiet hpassive (next_router h)

theorem inv_of_run (h : p.system.Run as x) : Inv as x :=
  h.invariant (P := Inv) (fun _ hx => by cases hx; exact .init) fun _ _ _ _ hinv hs => hinv.step hs

end Controller

open Controller in
/-- A stopped tunnel is never left in the router. Whatever the main thread and the
    workers do, in any order: once a session has detached a gateway, the router never
    gives a flow a handler of that gateway again; detaching a gateway removes none that
    another session has set; and from pausing a profile to resuming it, the router has no
    gateway for it. -/
theorem stopped_never_routed {p : MultipleVpnPlan} {as : List Step} {x : Controller}
    (h : p.system.Run as x) :
    (∀ a id g e, (a, some (.detachGateway id (some g), e)) ∈ as →
      ∀ protocol src sp dst dp hd ev,
        x.router.selectFlow protocol src sp dst dp = (some hd, ev) → hd.g ≠ g) ∧
    (∀ t ok id g e x', p.system.step x (.worker t ok, some (.detachGateway id (some g), e)) x' →
      ∀ t' ok' id' hd, t' ≠ t → (.worker t' ok', some (.setGateway id' (some hd.g), none)) ∈ as →
        x.router.profiles.lookup id' = some hd → x'.router.profiles.lookup id' = some hd) ∧
    ∀ id ∈ p.profiles, ∀ e,
      latest (switches id) (calls as) = some (.setProfileEnabled id false, e) →
        x.router.profiles.lookup id = none := by
  have hinv := inv_of_run h
  have hrun := router_run h
  obtain ⟨unmarshal, raw, dnsProfile, owner, hnew⟩ := p.made
  refine ⟨fun a id g e hmem protocol src sp dst dp hd ev hsel hg => ?_,
    fun t ok id g e x' hstep t' ok' id' hd hne hmem hl => ?_, fun id hid e hl => ?_⟩
  · obtain ⟨t, _, _, n, -, -, rfl, -⟩ := hinv.called a id g e (.inl hmem)
    obtain ⟨y, hl⟩ := lookup_of_selectFlow hsel
    by_cases hy : y = Routing.direct
    · have hrouter : Mobile.Inv p.router .direct (calls as) x.router :=
        hrun.invariant (P := Mobile.Inv p.router .direct) (fun m hm => by cases hm; exact inv_new hnew)
          fun _ _ _ _ hi hs => hi.step hs
      cases (hrouter.direct hd (hy ▸ hl)).symm.trans hg
    · obtain ⟨t', s, hs, -, hholds⟩ := hinv.owned y hd hy hl
      exact hinv.detached a id _ e hmem t' s hs (hg ▸ hholds)
  · obtain ⟨_, _, _, n', ha', -, hg', -⟩ := hinv.called _ id' hd.g none (.inr hmem)
    obtain ⟨_, _, _, n, ha, -, hg, -⟩ := (hinv.step hstep).called (.worker t ok) id g e
      (.inl (List.mem_append_right _ (List.mem_singleton.2 rfl)))
    cases ha
    cases ha'
    have hdiffer : hd.g ≠ g := by
      rw [hg, hg']
      exact fun hc => by cases hc; exact hne rfl
    have hrouter : x'.router = x.router.detachGateway id (some g) :=
      (congrArg Prod.snd (next_router hstep)).symm
    rw [hrouter]
    by_cases hdirect : id = Routing.direct
    · rw [MultiRouter.detachGateway, MultiRouter.removeGatewayOf, if_pos hdirect, hl]
    · rw [MultiRouter.lookup_detachGateway _ _ _ hdirect, hl]
      split_ifs
      · simp [Option.filter, hdiffer]
      · rfl
  · have hpausing : Pausing id (calls as) x.router :=
      hrun.invariant (P := Pausing id) (fun m hm => by cases hm; exact pausing_new hnew id)
        fun _ _ _ _ hp hs => hp.step (p.ne_direct hid) hs
    exact hpausing.lookup hl

namespace Sample

/-- The router of a plan with the profile `home`. -/
def router : MultiRouter Gateway where
  policy := homeRouter.policy
  owner := some homeOwner
  profiles := (∅ : Map Bytes (TunHandler Gateway)).insert Routing.direct ⟨.direct, 0⟩
  dnsProfile := str "home"
  disabled := ∅
  closed := false
  contexts := 1
  cancelled := []

/-- A plan with one profile. -/
def plan : MultipleVpnPlan where
  profiles := [str "home"]
  router := router
  made := ⟨homeRules, [], str "home", some homeOwner, rfl⟩
  rules := by decide

/-- The worker of a session takes `n` steps. -/
def steps (token n : ℕ) : List Controller.Act := List.replicate n (.worker token true)

/-- The profile is started, and its session is told to start, up to its `n`th step. -/
def begun (n : ℕ) : List Controller.Act :=
  [.main, .main, .message (.startOrMigrate (str "home"))] ++ steps 1 n

/-- The profile is paused. -/
def paused : List Controller.Act := [.message (.toggle (str "home")), .main, .main, .main]

theorem stopped_isSome :
    (Controller.perform plan.profiles (begun 5 ++ paused ++ steps 1 2) plan.initial).isSome := by
  decide +kernel

/-- A profile is started and paused, and its session stops the tunnel. -/
def stopped : List Controller.Step × Controller :=
  (Controller.perform plan.profiles (begun 5 ++ paused ++ steps 1 2) plan.initial).get stopped_isSome

theorem stopped_run : plan.system.Run stopped.1 stopped.2 :=
  Controller.run_of_perform (.init rfl) (Option.some_get stopped_isSome).symm

end Sample

/-- A tunnel was set, detached, and is not used. -/
theorem stopped_never_routed_sample :
    (.worker 1 true, some (.setGateway (str "home") (some (.made 1 0)), none)) ∈ Sample.stopped.1 ∧
    ∀ protocol src sp dst dp hd ev,
      Sample.stopped.2.router.selectFlow protocol src sp dst dp = (some hd, ev) →
        hd.g ≠ .made 1 0 := by
  have hset : Sample.stopped.1[7]? =
      some (.worker 1 true, some (.setGateway (str "home") (some (.made 1 0)), none)) := rfl
  have hdetach : Sample.stopped.1[13]? =
      some (.worker 1 true, some (.detachGateway (str "home") (some (.made 1 0)), none)) := rfl
  exact ⟨List.mem_of_getElem? hset,
    (stopped_never_routed Sample.stopped_run).1 _ _ _ _ (List.mem_of_getElem? hdetach)⟩

end QuicLab.Android
