import QuicLab.Mobile.Multiple

/-!
# Sessions of a profile

A `VpnSession` keeps the tunnel of one profile. All it does is done by its worker, a
single thread that takes queued actions one at a time. An action that starts a tunnel
stops the one before, makes a new gateway, starts it, and hands it to the router; the
session is *alive* from then on, until the tunnel is stopped.

Only what decides about gateways is modelled. The worker does more (it follows the
networks, migrates and reconnects the gateway it has), which may fail, but leaves the
gateway in place.

* `VpnSession.step`: a step of the worker. The call of the router in it, if any, is one
  step, and so is the check that precedes `setGateway`;
* `VpnSession.WF`: what the worker knows of its gateway where it is;
* `VpnSession.Holds`: the session has a gateway, and has not detached it.
-/

namespace QuicLab.Android

open Go Mobile

/-- The gateways, told apart: the one of the router for the direct traffic, and the
    ones made by a session, numbered. -/
inductive Gateway
  | direct
  | made (session number : ℕ)
  deriving DecidableEq

/-- A call of the router, with the error it returns. -/
abbrev RouterCall := Mobile.Op Gateway × Option Error

/-- The router before and after a call, if there is one. -/
def Called (router router' : MultiRouter Gateway) : Option RouterCall → Prop
  | none => router' = router
  | some c => c.1.apply router = (c.2, router')

/-- The actions that may be queued. -/
inductive VpnSession.Action
  | startOrMigrate
  | stop
  | close

/-- Where the worker is: it has no action; in `stopInternal`, before `detached` or before
    `stop`, to `restart` or not; in `startOrMigrate`, before the new gateway is made,
    before it is started, before the check in `attached`, or before `setGateway`. -/
inductive VpnSession.Pc
  | idle
  | detach (g : Gateway) (restart : Bool)
  | stop (g : Gateway) (restart : Bool)
  | create
  | start (g : Gateway)
  | check (g : Gateway)
  | set (g : Gateway)

/-- A `VpnSession` of the profile `id`. `made` counts its gateways. -/
structure VpnSession where
  id : Bytes
  client : Option Gateway := none
  alive : Bool := false
  closed : Bool := false
  queue : List VpnSession.Action := []
  pc : VpnSession.Pc := .idle
  made : ℕ := 0

namespace VpnSession

/-- `submit`. -/
def submit (a : Action) (s : VpnSession) : VpnSession :=
  if s.closed then s else { s with queue := s.queue ++ [a] }

/-- `close`. -/
def close (s : VpnSession) : VpnSession :=
  if s.closed then s else { s with closed := true, queue := s.queue ++ [.close] }

/-- What follows `stopInternal`. -/
def afterStop (restart : Bool) : Pc := if restart then .create else .idle

/-- The beginning of `stopInternal`. -/
def stopInternal (restart : Bool) (s : VpnSession) : VpnSession :=
  { s with
    alive := false
    pc := match s.client with
      | some g => .detach g restart
      | none => afterStop restart }

/-- The worker takes an action. If the session is alive, `startOrMigrate` migrates; if
    there is no network, `ok` is false. -/
def take (ok : Bool) (a : Action) (s : VpnSession) : VpnSession :=
  match a with
  | .close => s.stopInternal false
  | .stop => if s.closed then s else s.stopInternal false
  | .startOrMigrate => if s.closed ∨ ¬ ok ∨ s.alive then s else s.stopInternal true

/-- A step of the worker of the session with a token: the call of the router in it, the
    router and the session after it. `ok` says whether what may fail succeeds, and
    `current` whether the check in `attached` does. -/
def step (token : ℕ) (ok current : Bool) (router : MultiRouter Gateway) (s : VpnSession) :
    Option (Option RouterCall × MultiRouter Gateway × VpnSession) :=
  match s.pc with
  | .idle =>
    match s.queue with
    | [] => none
    | a :: queue => some (none, router, { s with queue }.take ok a)
  | .detach g restart =>
    some (some (.detachGateway s.id (some g), none), router.detachGateway s.id (some g),
      { s with pc := .stop g restart })
  | .stop _ restart => some (none, router, { s with client := none, pc := afterStop restart })
  | .create =>
    some (none, router,
      { s with
        client := some (.made token s.made)
        made := s.made + 1
        pc := .start (.made token s.made) })
  | .start g => some (none, router, { s with pc := if ok then .check g else .idle })
  | .check g => some (none, router, { s with pc := if current then .set g else .idle })
  | .set g =>
    some (some (.setGateway s.id (some g), (router.setGateway s.id (some g)).1),
      (router.setGateway s.id (some g)).2,
      { s with alive := (router.setGateway s.id (some g)).1.isNone, pc := .idle })

/-- The gateway the worker is busy with. -/
def Pc.gateway : Pc → Option Gateway
  | .idle => none
  | .create => none
  | .detach g _ => some g
  | .stop g _ => some g
  | .start g => some g
  | .check g => some g
  | .set g => some g

/-- The gateway of the session with a token is one it has made, and the worker is busy
    with it; while the worker is busy, the session is not alive. -/
structure WF (token : ℕ) (s : VpnSession) : Prop where
  client : ∀ g, s.client = some g → ∃ n < s.made, g = .made token n
  gateway : ∀ g, s.pc.gateway = some g → s.client = some g
  create : s.pc = .create → s.client = none
  busy : s.pc ≠ .idle → s.alive = false

/-- The session has the gateway, and has not detached it. -/
def Holds (s : VpnSession) (g : Gateway) : Prop :=
  s.client = some g ∧ ∀ restart, s.pc ≠ .stop g restart

variable {token : ℕ} {ok current : Bool} {router router' : MultiRouter Gateway} {s s' : VpnSession}
  {c : Option RouterCall}

theorem WF.new (token : ℕ) (id : Bytes) : WF token { id := id } :=
  ⟨fun _ h => (by cases h), fun _ h => (by cases h), fun h => (by cases h), fun h => absurd rfl h⟩

/-- A session with the same gateway, at the same place. -/
theorem WF.congr (h : WF token s) (hclient : s'.client = s.client) (hmade : s'.made = s.made)
    (hpc : s'.pc = s.pc) (halive : s'.alive = s.alive) : WF token s' :=
  ⟨by rw [hclient, hmade]; exact h.client, by rw [hclient, hpc]; exact h.gateway,
    by rw [hclient, hpc]; exact h.create, by rw [hpc, halive]; exact h.busy⟩

theorem WF.stopInternal (h : WF token s) (restart : Bool) : WF token (s.stopInternal restart) := by
  refine ⟨h.client, fun g hg => ?_, fun hc => ?_, fun _ => rfl⟩
  · unfold VpnSession.stopInternal at hg ⊢
    cases hclient : s.client with
    | none =>
      simp only [hclient, afterStop] at hg
      split_ifs at hg <;> cases hg
    | some g' =>
      simp only [hclient] at hg
      cases hg
      rfl
  · unfold VpnSession.stopInternal at hc ⊢
    cases hclient : s.client with
    | none => rfl
    | some g' =>
      simp only [hclient] at hc
      cases hc

theorem WF.take (h : WF token s) (ok : Bool) (a : Action) : WF token (s.take ok a) := by
  cases a with
  | close => exact h.stopInternal false
  | stop =>
    simp only [VpnSession.take]
    split_ifs
    · exact h
    · exact h.stopInternal false
  | startOrMigrate =>
    simp only [VpnSession.take]
    split_ifs
    · exact h
    · exact h.stopInternal true

theorem afterStop_gateway (restart : Bool) : (afterStop restart).gateway = none := by
  cases restart <;> rfl

theorem WF.step (h : WF token s) (hs : s.step token ok current router = some (c, router', s')) :
    WF token s' := by
  have hbusy : s.pc ≠ .idle → s'.alive = s.alive → s'.alive = false := fun hpc ha =>
    ha.trans (h.busy hpc)
  unfold VpnSession.step at hs
  split at hs
  · split at hs
    · cases hs
    · rename_i a queue _
      cases hs
      have hwf : WF token { s with queue } := h.congr rfl rfl rfl rfl
      exact hwf.take ok a
  · rename_i g restart hpc
    cases hs
    refine ⟨h.client, fun g' hg' => ?_, fun hc => (by cases hc), fun _ => hbusy (by simp [hpc]) rfl⟩
    exact h.gateway g' (by rw [hpc]; exact hg')
  · rename_i g restart hpc
    cases hs
    refine ⟨fun g' hg' => (by cases hg'), fun g' hg' => ?_, fun _ => rfl,
      fun _ => hbusy (by simp [hpc]) rfl⟩
    rw [afterStop_gateway] at hg'
    cases hg'
  · rename_i hpc
    cases hs
    refine ⟨fun g hg => ?_, fun g hg => hg, fun hc => (by cases hc),
      fun _ => hbusy (by simp [hpc]) rfl⟩
    cases hg
    exact ⟨s.made, Nat.lt_succ_self _, rfl⟩
  · rename_i g hpc
    cases hs
    refine ⟨h.client, fun g' hg' => ?_, fun hc => ?_, fun _ => hbusy (by simp [hpc]) rfl⟩
    · cases ok <;> cases hg'
      exact h.gateway g (by rw [hpc]; rfl)
    · cases ok <;> cases hc
  · rename_i g hpc
    cases hs
    refine ⟨h.client, fun g' hg' => ?_, fun hc => ?_, fun _ => hbusy (by simp [hpc]) rfl⟩
    · cases current <;> cases hg'
      exact h.gateway g (by rw [hpc]; rfl)
    · cases current <;> cases hc
  · cases hs
    exact ⟨h.client, fun g' hg' => (by cases hg'), fun hc => (by cases hc), fun hc => absurd rfl hc⟩

/-- Nothing but the queue has changed. -/
structure Same (s s' : VpnSession) : Prop where
  id : s'.id = s.id
  client : s'.client = s.client
  made : s'.made = s.made
  pc : s'.pc = s.pc
  alive : s'.alive = s.alive

theorem Same.refl (s : VpnSession) : s.Same s := ⟨rfl, rfl, rfl, rfl, rfl⟩

theorem same_submit (a : Action) (s : VpnSession) : s.Same (s.submit a) := by
  unfold submit
  split_ifs <;> exact ⟨rfl, rfl, rfl, rfl, rfl⟩

theorem same_close (s : VpnSession) : s.Same s.close := by
  unfold close
  split_ifs <;> exact ⟨rfl, rfl, rfl, rfl, rfl⟩

theorem Same.wf (h : s.Same s') (hwf : WF token s) : WF token s' :=
  hwf.congr h.client h.made h.pc h.alive

theorem Same.holds_iff (h : s.Same s') (g : Gateway) : s'.Holds g ↔ s.Holds g := by
  rw [Holds, Holds, h.client, h.pc]

/-! ### What a step does -/

/-- A step does to the router what its call does. -/
theorem step_router (hs : s.step token ok current router = some (c, router', s')) :
    Called router router' c := by
  unfold step at hs
  split at hs
  · split at hs
    · cases hs
    · cases hs
      rfl
  all_goals
    cases hs
    rfl

theorem stopInternal_frame (restart : Bool) (s : VpnSession) :
    (s.stopInternal restart).id = s.id ∧ (s.stopInternal restart).client = s.client ∧
      (s.stopInternal restart).made = s.made ∧
      ∀ g r, (s.stopInternal restart).pc ≠ .stop g r := by
  refine ⟨rfl, rfl, rfl, fun g r => ?_⟩
  unfold stopInternal afterStop
  split
  · exact fun hc => by cases hc
  · cases restart <;> exact fun hc => by cases hc

/-- Taking an action leaves the gateway in place. -/
theorem take_frame (ok : Bool) (a : Action) (s : VpnSession) (hidle : s.pc = .idle) :
    (s.take ok a).id = s.id ∧ (s.take ok a).client = s.client ∧ (s.take ok a).made = s.made ∧
      ∀ g r, (s.take ok a).pc ≠ .stop g r := by
  have hsame : ∀ g r, s.pc ≠ .stop g r := fun g r hc => by
    rw [hidle] at hc
    cases hc
  cases a with
  | close => exact stopInternal_frame false s
  | stop =>
    simp only [take]
    split_ifs
    · exact ⟨rfl, rfl, rfl, hsame⟩
    · exact stopInternal_frame false s
  | startOrMigrate =>
    simp only [take]
    split_ifs
    · exact ⟨rfl, rfl, rfl, hsame⟩
    · exact stopInternal_frame true s

theorem step_frame (hs : s.step token ok current router = some (c, router', s')) :
    s'.id = s.id ∧ s.made ≤ s'.made := by
  unfold step at hs
  split at hs
  · rename_i hidle
    split at hs
    · cases hs
    · rename_i a queue _
      cases hs
      obtain ⟨hid, -, hmade, -⟩ := take_frame ok a { s with queue } hidle
      exact ⟨hid, hmade.ge⟩
  · cases hs
    exact ⟨rfl, le_rfl⟩
  · cases hs
    exact ⟨rfl, le_rfl⟩
  · cases hs
    exact ⟨rfl, Nat.le_succ _⟩
  · cases hs
    exact ⟨rfl, le_rfl⟩
  · cases hs
    exact ⟨rfl, le_rfl⟩
  · cases hs
    exact ⟨rfl, le_rfl⟩

variable {g : Gateway}

/-- A session comes to hold a gateway only when it makes it. -/
theorem holds_of_step (hs : s.step token ok current router = some (c, router', s'))
    (hg : s'.Holds g) : s.Holds g ∨ g = .made token s.made := by
  have hnot : ∀ {pc : Pc}, s.pc = pc → (∀ r, pc ≠ .stop g r) → s.client = some g → s.Holds g :=
    fun hpc hne hclient => ⟨hclient, fun r => hpc ▸ hne r⟩
  unfold step at hs
  split at hs
  · rename_i hidle
    split at hs
    · cases hs
    · rename_i a queue _
      cases hs
      obtain ⟨-, hclient, -, -⟩ := take_frame ok a { s with queue } hidle
      exact .inl (hnot hidle (fun _ hc => by cases hc) (hclient ▸ hg.1))
  · rename_i hpc
    cases hs
    exact .inl (hnot hpc (fun _ hc => by cases hc) hg.1)
  · cases hs
    cases hg.1
  · cases hs
    exact .inr (Option.some.inj hg.1).symm
  · rename_i hpc
    cases hs
    exact .inl (hnot hpc (fun _ hc => by cases hc) hg.1)
  · rename_i hpc
    cases hs
    exact .inl (hnot hpc (fun _ hc => by cases hc) hg.1)
  · rename_i hpc
    cases hs
    exact .inl (hnot hpc (fun _ hc => by cases hc) hg.1)

/-- A session holds a gateway until it detaches it. -/
theorem Holds.step (hwf : WF token s) (hg : s.Holds g)
    (hs : s.step token ok current router = some (c, router', s')) :
    s'.Holds g ∨ c = some (.detachGateway s.id (some g), none) := by
  obtain ⟨hclient, hpc⟩ := hg
  unfold VpnSession.step at hs
  split at hs
  · rename_i hidle
    split at hs
    · cases hs
    · rename_i a queue _
      cases hs
      obtain ⟨-, hclient', -, hpc'⟩ := take_frame ok a { s with queue } hidle
      exact .inl ⟨hclient'.trans hclient, hpc' g⟩
  · rename_i g' _ heq
    cases hs
    have hg' := hwf.gateway g' (by rw [heq]; rfl)
    cases hclient.symm.trans hg'
    exact .inr rfl
  · rename_i g' r heq
    cases hs
    have hg' := hwf.gateway g' (by rw [heq]; rfl)
    cases hclient.symm.trans hg'
    exact absurd heq (hpc r)
  · rename_i heq
    cases hs
    rw [hwf.create heq] at hclient
    cases hclient
  · cases hs
    exact .inl ⟨hclient, fun r hc => by cases ok <;> cases hc⟩
  · cases hs
    exact .inl ⟨hclient, fun r hc => by cases current <;> cases hc⟩
  · cases hs
    exact .inl ⟨hclient, fun r hc => by cases hc⟩

/-- The call of a step is about the gateway of the session. -/
theorem step_call (hwf : WF token s) {call : RouterCall}
    (hs : s.step token ok current router = some (some call, router', s')) :
    ∃ g, s.Holds g ∧
      ((call = (.detachGateway s.id (some g), none) ∧ ¬ s'.Holds g) ∨
        ∃ e, call = (.setGateway s.id (some g), e) ∧ s.pc = .set g ∧ s'.Holds g) := by
  unfold step at hs
  split at hs
  · split at hs <;> cases hs
  · rename_i g r heq
    cases hs
    have hclient := hwf.gateway g (by rw [heq]; rfl)
    refine ⟨g, ⟨hclient, fun r' hc => ?_⟩, .inl ⟨rfl, fun hg => hg.2 r rfl⟩⟩
    rw [heq] at hc
    cases hc
  · cases hs
  · cases hs
  · cases hs
  · cases hs
  · rename_i g heq
    cases hs
    have hclient := hwf.gateway g (by rw [heq]; rfl)
    refine ⟨g, ⟨hclient, fun r' hc => ?_⟩, .inr ⟨_, rfl, heq, hclient, fun r' hc => by cases hc⟩⟩
    rw [heq] at hc
    cases hc

end VpnSession

end QuicLab.Android
