import QuicLab.Go.Map
import QuicLab.Routing.Policy
import QuicLab.System

/-!
# Routing over multiple VPNs

A `MultiRouter` hands the flows of one TUN to the gateways of several profiles.
Gateways come and go, and profiles are paused and resumed; the rules do not
change while the router runs.

* `MultiRouter.target`: the profile a flow belongs to. It depends on the rules,
  the DNS profile and the flow alone.
* `selectFlow_no_fallback`: in every state the router can reach, a flow is given
  a handler of its target, or none. The handler is there because a gateway was
  set for the profile, and neither replaced, removed, detached nor paused since;
  for the direct traffic, it is the one the router was made with.

Gateways are compared by identity, so their type is a parameter.
-/

namespace QuicLab.Mobile

open Go Routing

variable {G : Type*} [DecidableEq G]

/-- `FlowOwner`: the UID of a flow by protocol, source and destination, negative
    when unknown. -/
abbrev FlowOwner := ℤ → Bytes → ℤ → Bytes → ℤ → ℤ

/-- A `tunHandler`: its gateway, and its context, told apart by a number. -/
structure TunHandler (G : Type*) where
  g : G
  ctx : ℕ
  deriving DecidableEq

/-- A `MultiRouter`. The contexts made so far are numbered from 0, and
    `cancelled` are those that were cancelled. -/
structure MultiRouter (G : Type*) where
  policy : Policy
  owner : Option FlowOwner
  profiles : Map Bytes (TunHandler G)
  dnsProfile : Bytes
  disabled : Map Bytes Bool
  closed : Bool
  contexts : ℕ
  cancelled : List ℕ

/-- An event given to the sink. -/
structure Event where
  name : Bytes
  profileID : Bytes
  reason : Bytes
  destination : Bytes
  uid : ℤ
  deriving DecidableEq

/-- `NewMultiRouter`, with the gateway `g` it makes for the direct traffic;
    `directBinder` says whether there is a binder. -/
def newMultiRouter (unmarshal : Bytes → Except Error (List RuleJSON)) (raw dnsProfile : Bytes)
    (owner : Option FlowOwner) (directBinder : Bool) (g : G) : Except Error (MultiRouter G) :=
  match parse unmarshal raw with
  | .error e => .error e
  | .ok p =>
    if ¬ p.rules.any (·.id = dnsProfile) then .error (.new "choose a DNS profile")
    else if ¬ directBinder then .error (.new "direct sockets require a VPN bypass binder")
    else .ok
      { policy := p
        owner
        profiles := (∅ : Map Bytes (TunHandler G)).insert direct ⟨g, 0⟩
        dnsProfile
        disabled := ∅
        closed := false
        contexts := 1
        cancelled := [] }

namespace MultiRouter

/-- `multiProfile.stop` of the handlers given. -/
def stop (hs : List (TunHandler G)) (m : MultiRouter G) : MultiRouter G :=
  { m with cancelled := hs.map (·.ctx) ++ m.cancelled }

/-- `SetGateway`. -/
def setGateway (id : Bytes) (g : Option G) (m : MultiRouter G) : Option Error × MultiRouter G :=
  match g with
  | none => (some (.new "nil gateway"), m)
  | some g =>
    if m.closed ∨ m.disabled.lookup id = some true then
      (some (.new "router or profile stopped"), m)
    else if ¬ m.policy.rules.any (·.id = id) then (some (.new "unknown profile"), m)
    else
      (none, stop (m.profiles.lookup id).toList
        { m with
          profiles := m.profiles.insert id ⟨g, m.contexts⟩
          contexts := m.contexts + 1 })

/-- `SetProfileEnabled`. -/
def setProfileEnabled (id : Bytes) (enabled : Bool) (m : MultiRouter G) : MultiRouter G :=
  if id = direct ∨ m.closed then m
  else if enabled then { m with disabled := m.disabled.insert id false }
  else
    stop (m.profiles.lookup id).toList
      { m with
        disabled := m.disabled.insert id true
        profiles := m.profiles.erase id }

/-- The method `removeGateway`, of any gateway or of the one given. -/
def removeGatewayOf (id : Bytes) (g : Option G) (m : MultiRouter G) : MultiRouter G :=
  if id = direct then m
  else if ∃ g' ∈ g, ∀ h ∈ m.profiles.lookup id, h.g ≠ g' then m
  else stop (m.profiles.lookup id).toList { m with profiles := m.profiles.erase id }

/-- `RemoveGateway`. -/
def removeGateway (id : Bytes) (m : MultiRouter G) : MultiRouter G := removeGatewayOf id none m

/-- `DetachGateway`. -/
def detachGateway (id : Bytes) (g : Option G) (m : MultiRouter G) : MultiRouter G :=
  match g with
  | none => m
  | some g => removeGatewayOf id (some g) m

/-- `Close`. -/
def close (m : MultiRouter G) : MultiRouter G :=
  if m.closed then m
  else
    { m with
      closed := true
      profiles := ∅
      cancelled := (List.range m.contexts).filter (fun c => m.profiles.Any fun _ h => h.ctx = c) ++
        m.cancelled }

/-- The UID a flow is known by. -/
def uid (protocol : ℤ) (src : Bytes) (sp : ℤ) (dst : Bytes) (dp : ℤ) (m : MultiRouter G) : ℤ :=
  match m.owner with
  | none => -1
  | some owner => owner protocol src sp dst dp

/-- The handler of the profile decided on, if it is ready, and the event given to
    the sink. -/
def handler (d : Decision) (dst : Bytes) (uid : ℤ) (m : MultiRouter G) :
    Option (TunHandler G) × Option Event :=
  match m.profiles.lookup d.profile with
  | none => (none, some ⟨str "route_blocked", d.profile, d.reason, dst, uid⟩)
  | some h =>
    if m.closed ∨ m.disabled.lookup d.profile = some true ∨ h.ctx ∈ m.cancelled ∨
        d.profile = [] then
      (none, some ⟨str "route_blocked", d.profile, d.reason, dst, uid⟩)
    else (some h, some ⟨str "route_selected", d.profile, d.reason, dst, uid⟩)

/-- `selectFlow`: the handler of a new flow, and the event given to the sink. -/
def selectFlow (protocol : ℤ) (src : Bytes) (sp : ℤ) (dst : Bytes) (dp : ℤ) (m : MultiRouter G) :
    Option (TunHandler G) × Option Event :=
  match Netip.parseAddr dst with
  | none => (none, none)
  | some ip =>
    if ip.is4 then
      let uid := m.uid protocol src sp dst dp
      let d := if dp = 53 then ⟨m.dnsProfile, str "dns_profile"⟩ else m.policy.choose ip uid
      m.handler d dst uid
    else (none, none)

/-! ## What the calls do to the profiles -/

section Calls

variable (id : Bytes) (g : G) (m : MultiRouter G)

/-- Does the router take gateways for the profile? -/
def Enabled (id : Bytes) (m : MultiRouter G) : Prop :=
  m.closed = false ∧ m.disabled.lookup id ≠ some true

omit [DecidableEq G] in
/-- `SetGateway` fails, and leaves the router as it is, or it sets the gateway. -/
theorem setGateway_cases :
    (∃ e, m.setGateway id (some g) = (some e, m)) ∨
    (m.setGateway id (some g)).1 = none ∧ m.Enabled id ∧ id ∈ m.policy.rules.map (·.id) ∧
      (m.setGateway id (some g)).2.profiles = m.profiles.insert id ⟨g, m.contexts⟩ ∧
      (m.setGateway id (some g)).2.closed = m.closed ∧
      (m.setGateway id (some g)).2.disabled = m.disabled := by
  unfold setGateway
  dsimp only
  split_ifs with hstop hrule
  · exact .inl ⟨_, rfl⟩
  · rw [not_or, Bool.not_eq_true] at hstop
    obtain ⟨r, hr, hid⟩ := List.any_eq_true.1 hrule
    exact .inr ⟨rfl, hstop, List.mem_map.2 ⟨r, hr, of_decide_eq_true hid⟩, rfl, rfl, rfl⟩
  · exact .inl ⟨_, rfl⟩

/-- `DetachGateway` removes the gateway given, and no other. -/
theorem lookup_detachGateway (hid : id ≠ direct) (x : Bytes) :
    (m.detachGateway id (some g)).profiles.lookup x =
      if x = id then (m.profiles.lookup x).filter (·.g ≠ g) else m.profiles.lookup x := by
  rw [detachGateway, removeGatewayOf, if_neg hid]
  split_ifs with hother hx
  · subst hx
    obtain ⟨g', hg', hne⟩ := hother
    obtain rfl := Option.mem_some_iff.1 hg'
    cases hl : m.profiles.lookup x with
    | none => rfl
    | some h => simp [Option.filter, hne h hl]
  · rfl
  · rename_i hx
    change (m.profiles.erase id).lookup x = _
    rw [Map.lookup_erase', if_pos hx]
    push Not at hother
    obtain ⟨h, hl, hg⟩ := hother g rfl
    subst hx
    rw [hl]
    simp [Option.filter, hg]
  · rename_i hx
    change (m.profiles.erase id).lookup x = _
    rw [Map.lookup_erase', if_neg hx]

theorem detachGateway_frame : (m.detachGateway id (some g)).closed = m.closed ∧
    (m.detachGateway id (some g)).disabled = m.disabled := by
  rw [detachGateway, removeGatewayOf]
  split_ifs <;> exact ⟨rfl, rfl⟩

omit [DecidableEq G] in
/-- A profile that takes gateways after `SetProfileEnabled` was resumed by it, or it was
    left alone. -/
theorem enabled_of_setProfileEnabled {enabled : Bool} {x : Bytes}
    (h : (m.setProfileEnabled id enabled).Enabled x) :
    (x = id ∧ enabled = true) ∨ m.Enabled x ∧
      (m.setProfileEnabled id enabled).profiles.lookup x = m.profiles.lookup x := by
  rw [setProfileEnabled] at h ⊢
  split_ifs at h ⊢ with hstop hen
  · exact .inr ⟨h, rfl⟩
  · by_cases hx : x = id
    · exact .inl ⟨hx, hen⟩
    · refine .inr ⟨⟨h.1, fun hd => h.2 ?_⟩, rfl⟩
      rwa [Map.lookup_insert', if_neg hx]
  · by_cases hx : x = id
    · refine absurd ?_ h.2
      change (m.disabled.insert id true).lookup x = some true
      rw [Map.lookup_insert', if_pos hx]
    · refine .inr ⟨⟨h.1, fun hd => h.2 ?_⟩, ?_⟩
      · change (m.disabled.insert id true).lookup x = some true
        rwa [Map.lookup_insert', if_neg hx]
      · change (m.profiles.erase id).lookup x = _
        rw [Map.lookup_erase', if_neg hx]

end Calls

end MultiRouter

/-! ## Runs -/

/-- The calls of a router. -/
inductive Op (G : Type*)
  | setGateway (id : Bytes) (g : Option G)
  | setProfileEnabled (id : Bytes) (enabled : Bool)
  | removeGateway (id : Bytes)
  | detachGateway (id : Bytes) (g : Option G)
  | close

/-- The error a call returns, and the state after it. -/
def Op.apply : Op G → MultiRouter G → Option Error × MultiRouter G
  | .setGateway id g, m => m.setGateway id g
  | .setProfileEnabled id enabled, m => (none, m.setProfileEnabled id enabled)
  | .removeGateway id, m => (none, m.removeGateway id)
  | .detachGateway id g, m => (none, m.detachGateway id g)
  | .close, m => (none, m.close)

/-- The router `m₀` under any calls, each with the error it returned. -/
def routing (m₀ : MultiRouter G) : System (MultiRouter G) (Op G × Option Error) where
  init m := m = m₀
  step m c m' := c.1.apply m = (c.2, m')

variable {m m₀ m' : MultiRouter G} {x : Bytes} {h : TunHandler G}

/-- Does the call end the attachment of `g` to the profile `x`? -/
def Ends (x : Bytes) (g : G) : Op G × Option Error → Prop
  | (.setGateway id _, e) => id = x ∧ e = none
  | (.setProfileEnabled id enabled, _) => id = x ∧ enabled = false
  | (.removeGateway id, _) => id = x
  | (.detachGateway id g', _) => id = x ∧ g' = some g
  | (.close, _) => True

/-- `g` was set for the profile `x`, and no call since has ended that. -/
def Attached (x : Bytes) (g : G) (calls : List (Op G × Option Error)) : Prop :=
  ∃ before after, calls = before ++ (.setGateway x (some g), none) :: after ∧
    ∀ c ∈ after, ¬ Ends x g c

/-- What a call can do to a router: set a handler for a profile of the rules,
    remove the handler of a profile, close, or leave the profiles as they are. -/
inductive Effect (m : MultiRouter G) (c : Op G × Option Error) (m' : MultiRouter G) : Prop
  | set {x : Bytes} {g : G} (call : c = (.setGateway x (some g), none))
      (rule : x ∈ m.policy.rules.map (·.id)) (before : m.closed = false) (after : m'.closed = false)
      (profiles : m'.profiles = m.profiles.insert x ⟨g, m.contexts⟩)
  | removed {x : Bytes} (ends : ∀ y g, Ends y g c → y = x) (closed : m'.closed = m.closed)
      (ne : x ≠ direct) (profiles : m'.profiles = m.profiles.erase x)
  | closed (closed : m'.closed = true) (profiles : m'.profiles = ∅)
  | kept (ends : ∀ y h, m.profiles.lookup y = some h → Ends y h.g c → y = direct ∨ m.closed = true)
      (closed : m'.closed = m.closed) (profiles : m'.profiles = m.profiles)

variable {c : Op G × Option Error}

theorem removeGatewayOf_effect {x : Bytes} {g : Option G} (m : MultiRouter G)
    (ends : ∀ y h, Ends y h c → y = x ∧ ∀ g' ∈ g, g' = h) :
    Effect m c (m.removeGatewayOf x g) := by
  rw [MultiRouter.removeGatewayOf]
  split_ifs with hx hg
  · exact .kept (fun y h _ he => .inl ((ends y _ he).1.trans hx)) rfl rfl
  · -- A stale detach: the handler in place is of another gateway.
    obtain ⟨g', hg', hne⟩ := hg
    refine .kept (fun y h hy he => absurd ?_ (hne h ?_)) rfl rfl
    · exact ((ends y _ he).2 g' hg').symm
    · rwa [← (ends y _ he).1]
  · exact .removed (fun y h he => (ends y h he).1) rfl hx rfl

theorem Op.apply_effect (op : Op G) (m : MultiRouter G) :
    Effect m (op, (op.apply m).1) (op.apply m).2 := by
  cases op with
  | setGateway id g =>
    cases g with
    | none => exact .kept (fun y h _ he => nomatch he.2) rfl rfl
    | some g =>
      rw [apply, MultiRouter.setGateway]
      split_ifs with hstop hrule
      · exact .kept (fun y h _ he => nomatch he.2) rfl rfl
      · refine .set rfl ?_ (Bool.not_eq_true _ ▸ fun hc => hstop (.inl hc))
          (Bool.not_eq_true _ ▸ fun hc => hstop (.inl hc)) rfl
        rw [List.any_eq_true] at hrule
        obtain ⟨r, hr, hid⟩ := hrule
        exact List.mem_map.2 ⟨r, hr, of_decide_eq_true hid⟩
      · exact .kept (fun y h _ he => nomatch he.2) rfl rfl
  | setProfileEnabled id enabled =>
    rw [apply, MultiRouter.setProfileEnabled]
    split_ifs with hstop hen
    · refine .kept (fun y h _ he => hstop.imp_left fun hid => ?_) rfl rfl
      exact he.1.symm.trans hid
    · exact .kept (fun y h _ he => nomatch hen.symm.trans he.2) rfl rfl
    · exact .removed (fun y g he => he.1.symm) rfl (fun hid => hstop (.inl hid)) rfl
  | removeGateway id =>
    exact removeGatewayOf_effect m fun y h he => ⟨he.symm, fun _ h => nomatch h⟩
  | detachGateway id g =>
    cases g with
    | none => exact .kept (fun y h _ he => nomatch he.2) rfl rfl
    | some g =>
      refine removeGatewayOf_effect m fun y h he => ⟨he.1.symm, fun g' hg' => ?_⟩
      exact Option.some.inj (hg'.symm.trans he.2)
  | close =>
    rw [apply, MultiRouter.close]
    split_ifs with hc
    · exact .kept (fun _ _ _ _ => .inr hc) rfl rfl
    · exact .closed rfl rfl

/-- What every call leaves unchanged. -/
theorem Op.apply_frame (op : Op G) (m : MultiRouter G) : (op.apply m).2.policy = m.policy ∧
    (op.apply m).2.dnsProfile = m.dnsProfile ∧ (op.apply m).2.owner = m.owner := by
  have hremove : ∀ id g, (m.removeGatewayOf id g).policy = m.policy ∧
      (m.removeGatewayOf id g).dnsProfile = m.dnsProfile ∧
      (m.removeGatewayOf id g).owner = m.owner := fun id g => by
    rw [MultiRouter.removeGatewayOf]
    split_ifs <;> exact ⟨rfl, rfl, rfl⟩
  cases op with
  | setGateway id g =>
    cases g with
    | none => exact ⟨rfl, rfl, rfl⟩
    | some g =>
      rw [apply, MultiRouter.setGateway]
      split_ifs <;> exact ⟨rfl, rfl, rfl⟩
  | setProfileEnabled id enabled =>
    rw [apply, MultiRouter.setProfileEnabled]
    split_ifs <;> exact ⟨rfl, rfl, rfl⟩
  | removeGateway id => exact hremove id none
  | detachGateway id g =>
    cases g with
    | none => exact ⟨rfl, rfl, rfl⟩
    | some g => exact hremove id (some g)
  | close =>
    rw [apply, MultiRouter.close]
    split_ifs <;> exact ⟨rfl, rfl, rfl⟩

/-! ## The invariant -/

/-- The invariant of a router made with the gateway `g₀` for the direct traffic:
    its rules stay, a closed router has no profile, the direct handler stays the
    same, and every other handler is of the gateway attached by the calls. -/
structure Inv (m₀ : MultiRouter G) (g₀ : G) (calls : List (Op G × Option Error))
    (m : MultiRouter G) : Prop where
  policy : m.policy = m₀.policy
  dnsProfile : m.dnsProfile = m₀.dnsProfile
  owner : m.owner = m₀.owner
  closed : m.closed = true → m.profiles = ∅
  direct : ∀ h, m.profiles.lookup direct = some h → h.g = g₀
  attached : ∀ x h, x ≠ Routing.direct → m.profiles.lookup x = some h → Attached x h.g calls

variable {calls : List (Op G × Option Error)}

omit [DecidableEq G] in
theorem Attached.snoc {g : G} (h : Attached x g calls) (hc : ¬ Ends x g c) :
    Attached x g (calls ++ [c]) := by
  obtain ⟨before, after, rfl, hafter⟩ := h
  refine ⟨before, after ++ [c], by simp, fun d hd => ?_⟩
  rcases mem_snoc.1 hd with hd | hd
  · exact hafter d hd
  · exact hd ▸ hc

theorem Inv.step {g₀ : G} (hi : Inv m₀ g₀ calls m) (hs : (routing m₀).step m c m') :
    Inv m₀ g₀ (calls ++ [c]) m' := by
  obtain ⟨op, e⟩ := c
  have heff := op.apply_effect m
  obtain ⟨hpolicy, hdns, howner⟩ := op.apply_frame m
  rw [show op.apply m = (e, m') from hs] at heff hpolicy hdns howner
  have hrules := And.intro (hpolicy.trans hi.policy)
    (And.intro (hdns.trans hi.dnsProfile) (howner.trans hi.owner))
  cases heff with
  | @set x g hcall hrule hbefore hafter hprofiles =>
    -- The direct handler is not replaced: `direct` is not an id of the rules.
    have hne : Routing.direct ≠ x := fun heq => by
      obtain ⟨r, hr, hid⟩ := List.mem_map.1 hrule
      exact (m.policy.id_ne r hr).2 (hid.trans heq.symm)
    refine ⟨hrules.1, hrules.2.1, hrules.2.2, fun hc => (nomatch hafter.symm.trans hc),
      fun h hh => ?_, fun y h hy hh => ?_⟩
    · rw [hprofiles, Map.lookup_insert', if_neg hne] at hh
      exact hi.direct h hh
    · rw [hprofiles, Map.lookup_insert'] at hh
      split_ifs at hh with hyx
      · cases hh
        exact ⟨calls, [], by rw [hcall, hyx], List.forall_mem_nil _⟩
      · refine (hi.attached y h hy hh).snoc fun he => hyx ?_
        rw [hcall] at he
        exact he.1.symm
  | @removed x hends hclosed hne hprofiles =>
    refine ⟨hrules.1, hrules.2.1, hrules.2.2, fun hc => ?_, fun h hh => ?_, fun y h hy hh => ?_⟩
    · rw [hprofiles, hi.closed (hclosed.symm.trans hc)]
      rfl
    · rw [hprofiles, Map.lookup_erase', if_neg hne.symm] at hh
      exact hi.direct h hh
    · rw [hprofiles, Map.lookup_erase'] at hh
      split_ifs at hh with hyx
      exact (hi.attached y h hy hh).snoc fun he => hyx (hends y _ he)
  | closed hclosed hprofiles =>
    refine ⟨hrules.1, hrules.2.1, hrules.2.2, fun _ => hprofiles, fun h hh => ?_,
      fun y h _ hh => ?_⟩ <;>
    · rw [hprofiles] at hh
      cases hh
  | kept hends hclosed hprofiles =>
    refine ⟨hrules.1, hrules.2.1, hrules.2.2, fun hc => ?_, fun h hh => ?_, fun y h hy hh => ?_⟩
    · rw [hprofiles, hi.closed (hclosed.symm.trans hc)]
    · rw [hprofiles] at hh
      exact hi.direct h hh
    · rw [hprofiles] at hh
      refine (hi.attached y h hy hh).snoc fun he => ?_
      rcases hends y h hh he with hdir | hc
      · exact hy hdir
      · rw [hi.closed hc] at hh
        cases hh

/-! ## Paused profiles -/

/-- Does the call pause or resume the profile `x`? -/
def switches (x : Bytes) : Op G × Option Error → Bool
  | (.setProfileEnabled id _, _) => id = x
  | _ => false

/-- After the calls, a profile that is paused has no gateway, and neither has one of a
    router that is closed. -/
structure Pausing (x : Bytes) (calls : List (Op G × Option Error)) (m : MultiRouter G) : Prop where
  closed : m.closed = true → m.profiles = ∅
  disabled : m.disabled.lookup x = some true → m.profiles.lookup x = none
  paused : ∀ e, latest (switches x) calls = some (.setProfileEnabled x false, e) →
    m.closed = true ∨ m.disabled.lookup x = some true

omit [DecidableEq G] in
theorem Pausing.lookup (h : Pausing x calls m) {e : Option Error}
    (hl : latest (switches x) calls = some (.setProfileEnabled x false, e)) :
    m.profiles.lookup x = none := by
  rcases h.paused e hl with hc | hd
  · rw [h.closed hc]
    exact Finmap.lookup_empty x
  · exact h.disabled hd

omit [DecidableEq G] in
/-- A call that pauses and resumes nothing, and does not close the router. -/
theorem Pausing.same (h : Pausing x calls m) (hc : switches x c = false)
    (hclosed : m'.closed = m.closed) (hdisabled : m'.disabled = m.disabled)
    (hempty : m.profiles = ∅ → m'.profiles = ∅)
    (hnone : m.profiles.lookup x = none → m'.profiles.lookup x = none) :
    Pausing x (calls ++ [c]) m' := by
  refine ⟨fun h' => hempty (h.closed (hclosed ▸ h')), fun h' => ?_, fun e he => ?_⟩
  · rw [hdisabled] at h'
    exact hnone (h.disabled h')
  · rw [latest_snoc, hc, if_neg Bool.false_ne_true] at he
    rw [hclosed, hdisabled]
    exact h.paused e he

theorem Pausing.removeGatewayOf (h : Pausing x calls m) (hc : switches x c = false) (id : Bytes)
    (g : Option G) :
    Pausing x (calls ++ [c]) (m.removeGatewayOf id g) := by
  rw [MultiRouter.removeGatewayOf]
  split_ifs
  · exact h.same hc rfl rfl (fun hm => hm) fun hm => hm
  · exact h.same hc rfl rfl (fun hm => hm) fun hm => hm
  · refine h.same hc rfl rfl (fun hm => ?_) fun hm => ?_
    · change m.profiles.erase id = ∅
      rw [hm]
      rfl
    · change (m.profiles.erase id).lookup x = none
      rw [Map.lookup_erase', hm, ite_self]

omit [DecidableEq G] in
theorem Pausing.setProfileEnabled (hx : x ≠ direct) (h : Pausing x calls m) (id : Bytes)
    (enabled : Bool) (e : Option Error) :
    Pausing x (calls ++ [(.setProfileEnabled id enabled, e)]) (m.setProfileEnabled id enabled) := by
  by_cases hid : id = x
  · subst hid
    have hsw : switches id ((.setProfileEnabled id enabled, e) : Op G × Option Error) = true :=
      decide_eq_true rfl
    rw [MultiRouter.setProfileEnabled]
    split_ifs with hstop hen
    · have hclosed := hstop.resolve_left hx
      exact ⟨h.closed, h.disabled, fun _ _ => .inl hclosed⟩
    · refine ⟨h.closed, fun h' => ?_, fun e' he' => ?_⟩
      · rw [Map.lookup_insert', if_pos rfl] at h'
        cases h'
      · rw [latest_snoc, hsw, if_pos rfl, hen] at he'
        cases he'
    · refine ⟨fun h' => absurd h' fun hc => hstop (.inr hc), fun _ => ?_, fun _ _ => .inr ?_⟩
      · change (m.profiles.erase id).lookup id = none
        rw [Map.lookup_erase', if_pos rfl]
      · change (m.disabled.insert id true).lookup id = some true
        rw [Map.lookup_insert', if_pos rfl]
  · have hsw : switches x ((.setProfileEnabled id enabled, e) : Op G × Option Error) = false :=
      decide_eq_false hid
    have hlatest : ∀ e', latest (switches x) (calls ++ [(.setProfileEnabled id enabled, e)]) =
        some (.setProfileEnabled x false, e') → m.closed = true ∨ m.disabled.lookup x = some true := by
      intro e' he'
      rw [latest_snoc, hsw, if_neg Bool.false_ne_true] at he'
      exact h.paused e' he'
    have hlook : ∀ b, (m.disabled.insert id b).lookup x = m.disabled.lookup x := by
      intro b
      rw [Map.lookup_insert', if_neg fun heq => hid heq.symm]
    rw [MultiRouter.setProfileEnabled]
    split_ifs with hstop hen
    · exact ⟨h.closed, h.disabled, hlatest⟩
    · refine ⟨h.closed, fun h' => h.disabled ((hlook _).symm.trans h'), fun e' he' => ?_⟩
      exact (hlatest e' he').imp_right (hlook _).trans
    · refine ⟨fun h' => absurd h' fun hc => hstop (.inr hc), fun h' => ?_, fun e' he' => ?_⟩
      · change (m.profiles.erase id).lookup x = none
        rw [Map.lookup_erase', h.disabled ((hlook _).symm.trans h'), ite_self]
      · exact (hlatest e' he').imp_right (hlook _).trans

theorem Pausing.step (hx : x ≠ direct) (h : Pausing x calls m) (hs : (routing m₀).step m c m') :
    Pausing x (calls ++ [c]) m' := by
  obtain ⟨op, e⟩ := c
  obtain rfl : (op.apply m).2 = m' := congrArg Prod.snd hs
  cases op with
  | setGateway id g =>
    cases g with
    | none => exact h.same rfl rfl rfl (fun hm => hm) fun hm => hm
    | some g =>
      rw [Op.apply]
      rcases m.setGateway_cases id g with ⟨_, he⟩ | ⟨-, hen, -, hprofiles, hclosed, hdisabled⟩
      · rw [he]
        exact h.same rfl rfl rfl (fun hm => hm) fun hm => hm
      · -- the gateway is set for a profile that is not paused
        refine ⟨fun hc => ?_, fun hd => ?_, fun e' he' => ?_⟩
        · rw [hclosed, hen.1] at hc
          cases hc
        · rw [hdisabled] at hd
          rw [hprofiles, Map.lookup_insert', if_neg fun heq : x = id => hen.2 (heq ▸ hd)]
          exact h.disabled hd
        · rw [latest_snoc, if_neg (by simp [switches])] at he'
          rw [hclosed, hdisabled]
          exact h.paused e' he'
  | setProfileEnabled id enabled => exact h.setProfileEnabled hx id enabled e
  | removeGateway id => exact h.removeGatewayOf rfl id none
  | detachGateway id g =>
    cases g with
    | none => exact h.same rfl rfl rfl (fun hm => hm) fun hm => hm
    | some g => exact h.removeGatewayOf rfl id (some g)
  | close =>
    rw [Op.apply, MultiRouter.close]
    split_ifs with hclosed
    · exact h.same rfl rfl rfl (fun hm => hm) fun hm => hm
    · exact ⟨fun _ => rfl, fun _ => Finmap.lookup_empty x, fun _ _ => .inl rfl⟩

/-! ## No fallback -/

/-- The profile a flow to `ip` belongs to: the DNS profile on port 53, and what
    the rules give on any other. -/
def MultiRouter.target (protocol : ℤ) (src : Bytes) (sp : ℤ) (dst : Bytes) (dp : ℤ)
    (ip : Netip.Addr) (m : MultiRouter G) : Option Bytes :=
  if dp = 53 then some m.dnsProfile else m.policy.route ip (m.uid protocol src sp dst dp)

variable {ev : Option Event}

omit [DecidableEq G] in
theorem handler_some {d : Decision} {dst : Bytes} {uid : ℤ}
    (hsel : m.handler d dst uid = (some h, ev)) :
    m.profiles.lookup d.profile = some h ∧ m.closed = false ∧
      m.disabled.lookup d.profile ≠ some true ∧ d.profile ≠ [] := by
  rw [MultiRouter.handler] at hsel
  split at hsel
  · cases hsel
  · rename_i h' hlook
    split_ifs at hsel with hstop
    · cases hsel
    · cases hsel
      rw [not_or, not_or, not_or, Bool.not_eq_true] at hstop
      exact ⟨hlook, hstop.1, hstop.2.1, hstop.2.2.2⟩

omit [DecidableEq G] in
/-- A flow is only given the handler of its target, when the router is open and
    the target is not paused. -/
theorem selectFlow_some {protocol sp dp : ℤ} {src dst : Bytes} {ip : Netip.Addr}
    (hip : Netip.parseAddr dst = some ip)
    (hsel : m.selectFlow protocol src sp dst dp = (some h, ev)) :
    ∃ x, m.target protocol src sp dst dp ip = some x ∧ m.profiles.lookup x = some h ∧
      m.closed = false ∧ m.disabled.lookup x ≠ some true := by
  rw [MultiRouter.selectFlow, hip] at hsel
  simp only at hsel
  split_ifs at hsel with h4 hdns
  · obtain ⟨hlook, hopen, hdis, _⟩ := handler_some hsel
    exact ⟨m.dnsProfile, if_pos hdns, hlook, hopen, hdis⟩
  · obtain ⟨hlook, hopen, hdis, hne⟩ := handler_some hsel
    rw [Policy.choose_profile] at hlook hdis hne
    cases hr : m.policy.route ip (m.uid protocol src sp dst dp) with
    | none => exact absurd (by rw [hr]; rfl) hne
    | some x =>
      rw [hr] at hlook hdis
      exact ⟨x, (if_neg hdns).trans hr, hlook, hopen, hdis⟩
  · cases hsel

omit [DecidableEq G] in
/-- A flow is only given a handler that is in the table. -/
theorem lookup_of_selectFlow {protocol sp dp : ℤ} {src dst : Bytes}
    (hsel : m.selectFlow protocol src sp dst dp = (some h, ev)) :
    ∃ x, m.profiles.lookup x = some h := by
  cases hip : Netip.parseAddr dst with
  | none =>
    rw [MultiRouter.selectFlow, hip] at hsel
    cases hsel
  | some ip =>
    obtain ⟨x, -, hlook, -⟩ := selectFlow_some hip hsel
    exact ⟨x, hlook⟩

omit [DecidableEq G] in
theorem inv_new {unmarshal : Bytes → Except Error (List RuleJSON)} {raw dnsProfile : Bytes}
    {owner : Option FlowOwner} {directBinder : Bool} {g₀ : G}
    (hnew : newMultiRouter unmarshal raw dnsProfile owner directBinder g₀ = .ok m₀) :
    Inv m₀ g₀ [] m₀ := by
  rw [newMultiRouter] at hnew
  split at hnew
  · cases hnew
  · split_ifs at hnew
    cases hnew
    refine ⟨rfl, rfl, rfl, fun hc => (by cases hc), fun h hh => ?_, fun x h hx hh => ?_⟩
    · rw [Map.lookup_insert', if_pos rfl] at hh
      cases hh
      rfl
    · rw [Map.lookup_insert', if_neg hx] at hh
      cases hh

omit [DecidableEq G] in
theorem pausing_new {unmarshal : Bytes → Except Error (List RuleJSON)} {raw dnsProfile : Bytes}
    {owner : Option FlowOwner} {directBinder : Bool} {g₀ : G}
    (hnew : newMultiRouter unmarshal raw dnsProfile owner directBinder g₀ = .ok m₀) (x : Bytes) :
    Pausing x [] m₀ := by
  rw [newMultiRouter] at hnew
  split at hnew
  · cases hnew
  · split_ifs at hnew
    cases hnew
    exact ⟨fun hc => (by cases hc), fun hd => (by cases hd), fun _ hl => by cases hl⟩

/-- Routing never falls back. A flow has one target, whatever is called: in every
    state the router can reach, the flow is given the handler of its target or
    none, and the former only if the router is open, the target is not paused, and
    the handler's gateway is the one attached to the target, or the one the router
    was made with for the direct traffic. -/
theorem selectFlow_no_fallback {unmarshal : Bytes → Except Error (List RuleJSON)}
    {raw dnsProfile : Bytes} {owner : Option FlowOwner} {directBinder : Bool} {g₀ : G}
    (hnew : newMultiRouter unmarshal raw dnsProfile owner directBinder g₀ = .ok m₀)
    (protocol : ℤ) (src : Bytes) (sp : ℤ) (dst : Bytes) (dp : ℤ) {ip : Netip.Addr}
    (hip : Netip.parseAddr dst = some ip) :
    ∃ target : Option Bytes,
      (dp = 53 → target = some dnsProfile) ∧
      (dp ≠ 53 → ∃ policy, parse unmarshal raw = .ok policy ∧
        target = policy.route ip (m₀.uid protocol src sp dst dp)) ∧
      ∀ calls m, (routing m₀).Run calls m →
        ∀ h ev, m.selectFlow protocol src sp dst dp = (some h, ev) →
          ∃ x, target = some x ∧ m.profiles.lookup x = some h ∧ m.closed = false ∧
            m.disabled.lookup x ≠ some true ∧
            if x = direct then h.g = g₀ else Attached x h.g calls := by
  refine ⟨m₀.target protocol src sp dst dp ip, fun hdns => ?_, fun hdns => ?_,
    fun calls m hrun h ev hsel => ?_⟩
  · rw [newMultiRouter] at hnew
    split at hnew
    · cases hnew
    · split_ifs at hnew
      cases hnew
      exact if_pos hdns
  · rw [newMultiRouter] at hnew
    split at hnew
    · cases hnew
    · rename_i p hp
      split_ifs at hnew
      cases hnew
      exact ⟨p, hp, if_neg hdns⟩
  · have hinit : ∀ m, m = m₀ → Inv m₀ g₀ [] m := by
      rintro _ rfl
      exact inv_new hnew
    have hi := hrun.invariant (P := Inv m₀ g₀) hinit fun _ _ _ _ hi hs => hi.step hs
    obtain ⟨x, htarget, hlook, hopen, hdis⟩ := selectFlow_some hip hsel
    refine ⟨x, ?_, hlook, hopen, hdis, ?_⟩
    · rw [← htarget, MultiRouter.target, MultiRouter.target, MultiRouter.uid, MultiRouter.uid,
        hi.policy, hi.dnsProfile, hi.owner]
    · split_ifs with hx
      · exact hi.direct h (hx ▸ hlook)
      · exact hi.attached x h hx hlook

/-! ### A router with one rule

The profile `home` is for the application 10; flows are owned by the application
of their source port. -/

/-- The rules of the router. -/
def homeRules (_ : Bytes) : Except Error (List RuleJSON) :=
  .ok [⟨str "home", str "apps", [10], []⟩]

/-- The owners of the flows. -/
def homeOwner : FlowOwner := fun _ _ sp _ _ => sp

/-- The router, with the gateway 7 for the direct traffic. -/
def homeRouter : MultiRouter ℕ where
  policy := ⟨[⟨str "home", .apps, [10], []⟩], by decide, by decide, by decide, by decide⟩
  owner := some homeOwner
  profiles := (∅ : Map Bytes (TunHandler ℕ)).insert direct ⟨7, 0⟩
  dnsProfile := str "home"
  disabled := ∅
  closed := false
  contexts := 1
  cancelled := []

theorem newMultiRouter_home :
    newMultiRouter homeRules [] (str "home") (some homeOwner) true 7 = .ok homeRouter := rfl

/-- The gateway of the direct traffic was never given to `SetGateway`. -/
theorem direct_gateway_not_set : ¬ ∀ (unmarshal : Bytes → Except Error (List RuleJSON))
    (raw dnsProfile : Bytes) (owner : Option FlowOwner) (directBinder : Bool) (g₀ : ℕ)
    (m₀ : MultiRouter ℕ), newMultiRouter unmarshal raw dnsProfile owner directBinder g₀ = .ok m₀ →
    ∀ calls m, (routing m₀).Run calls m → ∀ protocol src sp dst dp h ev,
      m.selectFlow protocol src sp dst dp = (some h, ev) →
      ∃ x e, (.setGateway x (some h.g), e) ∈ calls := by
  intro hall
  obtain ⟨x, e, hmem⟩ := hall _ _ _ _ _ _ _ newMultiRouter_home [] homeRouter (.init rfl) 6 []
    11 (str "1.1.1.1") 443 _ _ rfl
  exact absurd hmem List.not_mem_nil

/-- A gateway is set for `home`, and a flow of its application is given it. -/
theorem selectFlow_no_fallback_home : ∃ m : MultiRouter ℕ, ∃ h ev,
    (routing homeRouter).Run [(.setGateway (str "home") (some 3), none)] m ∧
    m.selectFlow 6 [] 10 (str "1.1.1.1") 443 = (some h, ev) ∧ h.g = 3 ∧
    ∃ x, m.profiles.lookup x = some h ∧ (if x = direct then h.g = 7
      else Attached x h.g [(.setGateway (str "home") (some 3), none)]) := by
  have hrun : (routing homeRouter).Run [(.setGateway (str "home") (some 3), none)]
      (homeRouter.setGateway (str "home") (some 3)).2 :=
    .step (.init rfl) (show (Op.setGateway _ _).apply homeRouter = _ from rfl)
  obtain ⟨_, _, _, hall⟩ :=
    selectFlow_no_fallback newMultiRouter_home 6 [] 10 (str "1.1.1.1") 443 rfl
  obtain ⟨x, _, hlook, _, _, hx⟩ := hall _ _ hrun _ _ rfl
  exact ⟨_, _, _, hrun, rfl, rfl, x, hlook, hx⟩

end QuicLab.Mobile
