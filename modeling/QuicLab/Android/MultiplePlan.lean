import Mathlib.Logic.Equiv.List
import QuicLab.Android.Routes
import QuicLab.Android.VpnProfiles
import QuicLab.Mobile.Multiple

/-!
# The plan of multiple VPNs

The app turns what is stored about the enabled profiles into a plan for the router
(`MultipleVpnPlan.load`): the rules as JSON, the profiles, and the one that resolves
names.

The rules pass from the app to Go code. How `JSONArray` writes them and `json.Unmarshal`
reads them is given (`Codec`), and known for rules of ASCII characters.

`load_routing` says that the typed routes mean the same to the app and to the router.
-/

namespace QuicLab.Android.MultipleVpnPlan

open Go Kotlin VpnProfiles

/-! ## Loading -/

/-- A rule as the app writes it. -/
structure RuleObject where
  id : Text
  mode : Text
  uids : Option (List Int64)
  subnets : Option (List Text)

namespace RuleObject

/-- All characters are ASCII. -/
def Ascii (r : RuleObject) : Prop :=
  (∀ c ∈ r.id, c.toNat < 128) ∧ (∀ c ∈ r.mode, c.toNat < 128) ∧
    ∀ t ∈ r.subnets.getD [], ∀ c ∈ t, c.toNat < 128

/-- The rule as Go code gets it. -/
def decoded (P : Platform) (r : RuleObject) : Routing.RuleJSON :=
  ⟨P.encode r.id, P.encode r.mode, (r.uids.getD []).map Int64.toInt,
    (r.subnets.getD []).map P.encode⟩

end RuleObject

/-- The JSON of rules, as `JSONArray.toString` writes it and as `json.Unmarshal` reads
    it. -/
structure Codec (P : Platform) where
  write : List RuleObject → Text
  unmarshal : Bytes → Except Error (List Routing.RuleJSON)
  unmarshal_write : ∀ rules, (∀ r ∈ rules, r.Ascii) →
    unmarshal (P.encode (write rules)) = .ok (rules.map (·.decoded P))

/-- The device: the name of the app's package, and the UIDs of the packages
    installed. -/
structure Device where
  packageName : Text
  uid : Text → Option Int32

/-- The configuration of a profile: its identity, with what `load` puts into it. -/
structure ProfileConfig where
  identity : JSONObject
  transport : Text
  ca : Text
  dns : Text
  transitEndpoint : Text
  probeExitIP : Bool

/-- A `MultipleProfile`. -/
structure MultipleProfile where
  id : Text
  name : Text
  endpoint : Text
  hostname : Text
  config : ProfileConfig

/-- A `MultipleVpnPlan`. -/
structure Plan where
  profiles : List MultipleProfile
  rules : Text
  dnsProfile : Text
  dns : Text

/-- The names of the modes. -/
def modes : List Text := [txt "all", txt "apps", txt "exclude", txt "subnets"]

/-- The name of a mode. -/
def modeAt (mode : ℤ) : Except Failure Text :=
  if 0 ≤ mode then modes[mode.toNat]?.elim (.error (.outOfBounds mode)) .ok
  else .error (.outOfBounds mode)

/-- The UIDs of the applications of a profile. -/
def uidsOf (D : Device) (s : Store) (profile : Profile) : Except Failure (List Int64) := do
  let names ← thrown (apps s profile.id)
  let uids ← (names.filter (· ≠ D.packageName)).mapM fun app =>
    match D.uid app with
    | some uid => .ok uid.toInt64
    | none => .error (.thrown (.illegalArgument
        (profile.name ++ txt ": приложение " ++ app ++ txt " не установлено")))
  .ok (VpnRoutes.distinct uids)

/-- The member `uids` of a rule. -/
def ruleUids (D : Device) (s : Store) (profile : Profile) (mode : ℤ) :
    Except Failure (Option (List Int64)) :=
  if mode = 1 ∨ mode = 2 then do
    let uids ← uidsOf D s profile
    thrown (require (mode ≠ 1 ∨ uids ≠ []) (profile.name ++ txt ": выберите приложения"))
    .ok (some uids)
  else .ok none

/-- The member `subnets` of a rule. -/
def ruleSubnets (P : Platform) (p : Preferences) (mode : ℤ) :
    Except Failure (Option (List Text)) :=
  if mode = 3 then do
    let routes ← thrown (VpnRoutes.parse P (p.routes.getD []))
    .ok (some (routes.map VpnRoutes.render))
  else .ok none

/-- The rule of a profile. -/
def rule (P : Platform) (D : Device) (s : Store) (profile : Profile) (p : Preferences) :
    Except Failure RuleObject := do
  let mode := p.mode.getD 0
  let name ← modeAt mode
  let uids ← ruleUids D s profile mode
  let subnets ← ruleSubnets P p mode
  .ok ⟨profile.id, name, uids, subnets⟩

/-- A profile of the plan, and its rule. -/
def loadProfile (P : Platform) (D : Device) (s : Store) (profile : Profile) :
    Except Failure (RuleObject × MultipleProfile) := do
  let p ← thrown (preferences s profile.id)
  let r ← rule P D s profile p
  let endpoint := p.endpoint.getD []
  thrown (require (!P.isBlank endpoint) (profile.name ++ txt ": задайте сервер"))
  let dns := p.dns.getD (txt "1.1.1.1")
  let _ ← thrown (VpnRoutes.parse P (dns ++ txt "/32"))
  match s.identity profile.id with
  | none => .error (.identity profile.id)
  | some identity =>
    let config : ProfileConfig :=
      ⟨identity, p.transport.getD (txt "quic"), p.ca.getD [], dns, p.transitEndpoint.getD [], false⟩
    .ok (r, ⟨profile.id, profile.name, endpoint, p.hostname.getD [], config⟩)

/-- The plan for the profiles given. -/
def plan {P : Platform} (C : Codec P) (D : Device) (s : Store) (listed : List Profile) :
    Except Failure Plan := do
  let ps := listed.filter (·.id ∈ enabled s)
  thrown (require (ps ≠ []) (txt "Выберите профили multiple"))
  let loaded ← ps.mapM (loadProfile P D s)
  let profiles : List MultipleProfile := loaded.map (·.2)
  let resolver : Text :=
    if P.isBlank (dnsProfile s) then (profiles.head?.map (·.id)).getD [] else dnsProfile s
  thrown (require (∃ p ∈ profiles, p.id = resolver) (txt "DNS-профиль должен быть включён"))
  let p ← thrown (preferences s resolver)
  .ok ⟨profiles, C.write (loaded.map (·.1)), resolver, p.dns.getD (txt "1.1.1.1")⟩

/-- `MultipleVpnPlan.load`. -/
def load {P : Platform} (C : Codec P) (D : Device) (k : Commits) : Act Plan := do
  let listed ← list k
  let s ← Command.get
  result (plan C D s listed)

/-! ## What is loaded -/

section Loaded

variable {P : Platform} {D : Device} {s : Store} {profile : Profile}

theorem thrown_eq_ok_iff {α : Type} {r : Except Exception α} {a : α} :
    thrown r = .ok a ↔ r = .ok a := by
  cases r <;> simp [thrown]

theorem thrown_require_eq_ok_iff {value : Prop} [Decidable value] {message : Text} {u : Unit} :
    thrown (require value message) = .ok u ↔ value := by
  rw [thrown_eq_ok_iff, require]
  split_ifs with h
  · exact ⟨fun _ => h, fun _ => rfl⟩
  · exact ⟨(fun h' => by cases h'), fun h' => absurd h' h⟩

variable {p : Preferences}

theorem preferences_eq_ok_iff {id : Text} :
    preferences s id = .ok p ↔ isProfileId id = true ∧ p = s.preferences id := by
  rw [preferences, require_bind_eq_ok_iff, Except.ok.injEq, eq_comm (a := p)]

/-- The rules that are loaded for a profile, by its mode. -/
inductive RuleOf (P : Platform) (D : Device) (s : Store) (profile : Profile) (p : Preferences) :
    RuleObject → Prop
  | all (h : p.mode.getD 0 = 0) : RuleOf P D s profile p ⟨profile.id, txt "all", none, none⟩
  | apps (h : p.mode.getD 0 = 1) {uids : List Int64} (huids : uidsOf D s profile = .ok uids)
      (hne : uids ≠ []) : RuleOf P D s profile p ⟨profile.id, txt "apps", some uids, none⟩
  | exclude (h : p.mode.getD 0 = 2) {uids : List Int64} (huids : uidsOf D s profile = .ok uids) :
      RuleOf P D s profile p ⟨profile.id, txt "exclude", some uids, none⟩
  | subnets (h : p.mode.getD 0 = 3) {routes : List (Text × ℤ)}
      (hroutes : VpnRoutes.parse P (p.routes.getD []) = .ok routes) :
      RuleOf P D s profile p
        ⟨profile.id, txt "subnets", none, some (routes.map VpnRoutes.render)⟩

theorem modeAt_eq_ok {mode : ℤ} {name : Text} (h : modeAt mode = .ok name) :
    (mode = 0 ∧ name = txt "all") ∨ (mode = 1 ∧ name = txt "apps") ∨
      (mode = 2 ∧ name = txt "exclude") ∨ (mode = 3 ∧ name = txt "subnets") := by
  rw [modeAt] at h
  split_ifs at h with hmode
  lift mode to ℕ using hmode
  rw [Int.toNat_natCast] at h
  match mode, h with
  | 0, h => exact .inl ⟨rfl, (Except.ok.inj h).symm⟩
  | 1, h => exact .inr (.inl ⟨rfl, (Except.ok.inj h).symm⟩)
  | 2, h => exact .inr (.inr (.inl ⟨rfl, (Except.ok.inj h).symm⟩))
  | 3, h => exact .inr (.inr (.inr ⟨rfl, (Except.ok.inj h).symm⟩))
  | n + 4, h => cases h

theorem ruleUids_eq_ok {mode : ℤ} {o : Option (List Int64)}
    (h : ruleUids D s profile mode = .ok o) (hmode : mode = 1 ∨ mode = 2) :
    ∃ uids, o = some uids ∧ uidsOf D s profile = .ok uids ∧ (mode = 1 → uids ≠ []) := by
  rw [ruleUids, if_pos hmode, bind_eq_ok_iff] at h
  obtain ⟨uids, huids, h⟩ := h
  obtain ⟨_, hne, h⟩ := bind_eq_ok_iff.1 h
  rw [thrown_require_eq_ok_iff] at hne
  exact ⟨uids, (Except.ok.inj h).symm, huids, fun h1 => hne.resolve_left (not_not.2 h1)⟩

theorem ruleSubnets_eq_ok {o : Option (List Text)} (h : ruleSubnets P p 3 = .ok o) : ∃ routes,
      VpnRoutes.parse P (p.routes.getD []) = .ok routes ∧
        o = some (routes.map VpnRoutes.render) := by
  rw [ruleSubnets, if_pos rfl, bind_eq_ok_iff] at h
  obtain ⟨routes, hroutes, h⟩ := h
  exact ⟨routes, thrown_eq_ok_iff.1 hroutes, (Except.ok.inj h).symm⟩

variable {r : RuleObject}

theorem ruleOf_of_ok (h : rule P D s profile p = .ok r) :
    RuleOf P D s profile p r := by
  rw [rule] at h
  obtain ⟨name, hname, h⟩ := bind_eq_ok_iff.1 h
  obtain ⟨uids, huids, h⟩ := bind_eq_ok_iff.1 h
  obtain ⟨subnets, hsubnets, h⟩ := bind_eq_ok_iff.1 h
  obtain rfl := Except.ok.inj h
  rcases modeAt_eq_ok hname with ⟨hm, rfl⟩ | ⟨hm, rfl⟩ | ⟨hm, rfl⟩ | ⟨hm, rfl⟩ <;>
    rw [hm] at huids hsubnets
  · cases huids
    cases hsubnets
    exact .all hm
  · obtain ⟨l, rfl, hl, hne⟩ := ruleUids_eq_ok huids (.inl rfl)
    cases hsubnets
    exact .apps hm hl (hne rfl)
  · obtain ⟨l, rfl, hl, _⟩ := ruleUids_eq_ok huids (.inr rfl)
    cases hsubnets
    exact .exclude hm hl
  · cases huids
    obtain ⟨routes, hroutes, rfl⟩ := ruleSubnets_eq_ok hsubnets
    exact .subnets hm hroutes

theorem RuleOf.id_eq (h : RuleOf P D s profile p r) :
    r.id = profile.id := by cases h <;> rfl

/-- A profile that is loaded. -/
theorem loadProfile_eq_ok {x : RuleObject × MultipleProfile}
    (h : loadProfile P D s profile = .ok x) : isProfileId profile.id = true ∧
      RuleOf P D s profile (s.preferences profile.id) x.1 ∧ x.2.id = profile.id := by
  rw [loadProfile] at h
  obtain ⟨p, hp, h⟩ := bind_eq_ok_iff.1 h
  obtain ⟨hid, rfl⟩ := preferences_eq_ok_iff.1 (thrown_eq_ok_iff.1 hp)
  obtain ⟨r, hr, h⟩ := bind_eq_ok_iff.1 h
  obtain ⟨_, _, h⟩ := bind_eq_ok_iff.1 h
  obtain ⟨_, _, h⟩ := bind_eq_ok_iff.1 h
  cases hidentity : s.identity profile.id with
  | none =>
    rw [hidentity] at h
    cases h
  | some identity =>
    rw [hidentity] at h
    obtain rfl := Except.ok.inj h
    exact ⟨hid, ruleOf_of_ok hr, rfl⟩

/-- A plan that is loaded: its profiles with their rules, and the one that resolves
    names among them. -/
theorem plan_eq_ok {C : Codec P} {listed : List Profile} {pl : Plan}
    (h : plan C D s listed = .ok pl) : ∃ loaded,
      (listed.filter (·.id ∈ enabled s)) ≠ [] ∧
      (listed.filter (·.id ∈ enabled s)).mapM (loadProfile P D s) = .ok loaded ∧
      pl.profiles = loaded.map (·.2) ∧ pl.rules = C.write (loaded.map (·.1)) ∧
      ∃ p ∈ pl.profiles, p.id = pl.dnsProfile := by
  rw [plan] at h
  obtain ⟨_, hne, h⟩ := bind_eq_ok_iff.1 h
  obtain ⟨loaded, hloaded, h⟩ := bind_eq_ok_iff.1 h
  obtain ⟨_, hdns, h⟩ := bind_eq_ok_iff.1 h
  obtain ⟨_, _, h⟩ := bind_eq_ok_iff.1 h
  obtain rfl := Except.ok.inj h
  rw [thrown_require_eq_ok_iff] at hne hdns
  exact ⟨loaded, hne, hloaded, rfl, rfl, hdns⟩

/-! ## The rules of the router -/

/-- Go code gets the characters of an ASCII text. -/
theorem map_unit_encode (P : Platform) {t : Text} (h : ∀ c ∈ t, c.toNat < 128) :
    (P.encode t).map unit = t := by
  have hnat : ∀ c ∈ t, c.toUInt8.toNat = c.toNat := by
    intro c hc
    have := h c hc
    rw [UInt16.toNat_toUInt8]
    omega
  have hunit : (t.map UInt16.toUInt8).map unit = t := by
    rw [List.map_map]
    refine (List.map_congr_left fun c hc => ?_).trans (List.map_id t)
    refine UInt16.toNat_inj.1 ?_
    rw [Function.comp_apply, toNat_unit, hnat c hc, id]
  have hascii : ∀ c ∈ t.map UInt16.toUInt8, isAscii c = true := by
    intro c hc
    obtain ⟨u, hu, rfl⟩ := List.mem_map.1 hc
    exact decide_eq_true (by rw [hnat u hu]; exact h u hu)
  rw [← hunit, P.encode_ascii hascii]

theorem ascii_of_all {t : Text} (h : (t.all fun c => decide (c.toNat < 128)) = true) :
    ∀ c ∈ t, c.toNat < 128 := fun c hc => of_decide_eq_true (List.all_eq_true.1 h c hc)

theorem isProfileId_ascii {id : Text} (h : isProfileId id = true) : ∀ c ∈ id, c.toNat < 128 := by
  rw [isProfileId, decide_eq_true_eq] at h
  rcases h with rfl | ⟨_, hall⟩
  · exact ascii_of_all (by decide)
  · intro c hc
    have hclass := List.all_eq_true.1 hall c hc
    simp only [Bool.or_eq_true, Bool.and_eq_true, decide_eq_true_eq] at hclass
    rcases hclass with (h | h) | rfl
    · omega
    · omega
    · decide

theorem encode_id_ne (P : Platform) {id : Text} (h : isProfileId id = true) :
    P.encode id ≠ [] ∧ P.encode id ≠ Routing.direct := by
  have hid := map_unit_encode P (isProfileId_ascii h)
  constructor <;> intro heq <;> rw [heq] at hid <;> rw [← hid] at h <;> exact absurd h (by decide)

/-- The texts of the routes, as the router reads them: it takes the addresses that agree
    with what was typed. -/
theorem parseSubnets_routes {raw : Text} {routes : List (Text × ℤ)}
    (h : VpnRoutes.parse P raw = .ok routes) : ∃ prefixes,
      Routing.parseSubnets ((routes.map VpnRoutes.render).map P.encode) = .ok prefixes ∧
        ∀ d, prefixes.any (·.contains (.v4 d)) = true ↔ VpnRoutes.Agrees P raw d := by
  -- The prefixes written are those of the networks.
  have hsubnets : ∀ t, t ∈ (routes.map VpnRoutes.render).map P.encode ↔
      ∃ entry ∈ VpnRoutes.entries P raw, ∃ a n, ∃ htyped : VpnRoutes.Typed P entry a n,
        t = (Netip.Prefix.mk (.v4 (VpnRoutes.network a n)) n htyped.le).string := by
    intro t
    have hencode : ∀ (a : BitVec 32) {n : ℕ} (hn : n ≤ 32),
        P.encode (VpnRoutes.render (VpnRoutes.addrText a, (n : ℤ))) =
          (Netip.Prefix.mk (.v4 a) n hn).string := by
      intro a n hn
      rw [VpnRoutes.render_addrText a hn]
      exact P.encode_ascii fun c hc => (VpnRoutes.graphic_of_mem_string rfl hc).1
    rw [List.map_map, List.mem_map]
    constructor
    · rintro ⟨r, hr, rfl⟩
      obtain ⟨entry, hentry, a, n, htyped, rfl⟩ := (VpnRoutes.mem_parse h).1 hr
      exact ⟨entry, hentry, a, n, htyped, hencode _ htyped.le⟩
    · rintro ⟨entry, hentry, a, n, htyped, rfl⟩
      exact ⟨_, (VpnRoutes.mem_parse h).2 ⟨entry, hentry, a, n, htyped, rfl⟩, hencode _ htyped.le⟩
  obtain ⟨prefixes, hprefixes, hmem⟩ := @Routing.parseSubnets_v4
    ((routes.map VpnRoutes.render).map P.encode) (by
      intro t ht
      obtain ⟨_, _, a, n, htyped, rfl⟩ := (hsubnets t).1 ht
      exact ⟨_, rfl, rfl⟩)
  refine ⟨prefixes, hprefixes, fun d => ?_⟩
  rw [List.any_eq_true]
  constructor
  · rintro ⟨q, hq, hcontains⟩
    obtain ⟨p, hp, hs, rfl⟩ := (hmem q).1 hq
    obtain ⟨entry, hentry, a, n, htyped, hstring⟩ := (hsubnets _).1 hs
    obtain ⟨a', ha'⟩ := Netip.Addr.exists_v4 hp
    have hparse := (Netip.Prefix.parsePrefix_eq_v4_iff ha').2 hstring.symm
    rw [(Netip.Prefix.parsePrefix_eq_v4_iff rfl).2 rfl] at hparse
    cases hparse
    exact ⟨entry, hentry, a, n, htyped, (VpnRoutes.contains_network htyped.le a d).1 hcontains⟩
  · rintro ⟨entry, hentry, a, n, htyped, hagree⟩
    refine ⟨_, (hmem _).2 ⟨_, ?_, (hsubnets _).2 ⟨entry, hentry, a, n, htyped, rfl⟩, rfl⟩,
      (VpnRoutes.contains_network htyped.le a d).2 hagree⟩
    rfl

theorem uids_nonneg {uids : List Int64} (huid : ∀ app uid, D.uid app = some uid → 0 ≤ uid.toInt)
    (h : uidsOf D s profile = .ok uids) : ∀ u ∈ uids, 0 ≤ u.toInt := by
  rw [uidsOf] at h
  obtain ⟨names, _, h⟩ := bind_eq_ok_iff.1 h
  obtain ⟨l, hl, h⟩ := bind_eq_ok_iff.1 h
  obtain rfl := Except.ok.inj h
  intro u hu
  obtain ⟨app, _, happ⟩ := (mem_of_mapM hl).1 (VpnRoutes.mem_distinct.1 hu)
  cases happuid : D.uid app with
  | none =>
    rw [happuid] at happ
    cases happ
  | some uid =>
    rw [happuid] at happ
    rw [← Except.ok.inj happ, Int32.toInt_toInt64]
    exact huid app uid happuid

/-- The rule of a profile passes the checks of the router; one on subnets takes the
    addresses that agree with what was typed. -/
theorem parseRule_decoded (huid : ∀ app uid, D.uid app = some uid → 0 ≤ uid.toInt)
    (h : RuleOf P D s profile p r) :
    ∃ rule, Routing.parseRule (r.decoded P) = .ok rule ∧
      (p.mode.getD 0 = 3 → rule.mode = .subnets ∧ ∀ d,
        rule.prefixes.any (·.contains (.v4 d)) = true ↔
          VpnRoutes.Agrees P (p.routes.getD []) d) := by
  have hmode : ∀ m : String, (∀ c ∈ str m, isAscii c = true) → (str m).map unit = txt m →
      P.encode (txt m) = str m := fun m hascii htxt => by rw [← htxt, P.encode_ascii hascii]
  have hnonneg : ∀ {uids : List Int64}, uidsOf D s profile = .ok uids →
      ∀ uid ∈ uids.map Int64.toInt, 0 ≤ uid := by
    intro uids huids uid hmem
    obtain ⟨u, hu, rfl⟩ := List.mem_map.1 hmem
    exact uids_nonneg huid huids u hu
  cases h with
  | all h =>
    rw [RuleObject.decoded, hmode "all" (by decide) (by decide)]
    exact ⟨_, Routing.parseRule_all, fun h3 => by omega⟩
  | apps h huids hne =>
    rw [RuleObject.decoded, hmode "apps" (by decide) (by decide)]
    exact ⟨_, Routing.parseRule_apps (by simpa using hne) (hnonneg huids), fun h3 => by omega⟩
  | exclude h huids =>
    rw [RuleObject.decoded, hmode "exclude" (by decide) (by decide)]
    exact ⟨_, Routing.parseRule_exclude (hnonneg huids), fun h3 => by omega⟩
  | subnets h hroutes =>
    obtain ⟨prefixes, hprefixes, hagrees⟩ := parseSubnets_routes hroutes
    obtain ⟨_, _, _, hne, _⟩ := VpnRoutes.parse_eq_ok_iff.1 hroutes
    rw [RuleObject.decoded, hmode "subnets" (by decide) (by decide)]
    exact ⟨_, Routing.parseRule_subnets (by simpa using hne) hprefixes, fun _ => ⟨rfl, hagrees⟩⟩

theorem RuleOf.ascii (hid : isProfileId profile.id = true) (h : RuleOf P D s profile p r) :
    r.Ascii := by
  have hascii := isProfileId_ascii hid
  have hall : ∀ m ∈ modes, (m.all fun c => decide (c.toNat < 128)) = true := by decide
  have hmodes : ∀ m ∈ modes, ∀ c ∈ m, c.toNat < 128 := fun m hm => ascii_of_all (hall m hm)
  cases h with
  | all h => exact ⟨hascii, hmodes (txt "all") (by decide), by simp⟩
  | apps h huids hne => exact ⟨hascii, hmodes (txt "apps") (by decide), by simp⟩
  | exclude h huids => exact ⟨hascii, hmodes (txt "exclude") (by decide), by simp⟩
  | @subnets h routes hroutes =>
    refine ⟨hascii, hmodes (txt "subnets") (by decide), fun t ht c hc => ?_⟩
    obtain ⟨r, hr, rfl⟩ := List.mem_map.1 (show t ∈ routes.map VpnRoutes.render from ht)
    obtain ⟨_, _, a, n, htyped, rfl⟩ := (VpnRoutes.mem_parse hroutes).1 hr
    rw [VpnRoutes.render_addrText _ htyped.le] at hc
    obtain ⟨b, hb, rfl⟩ := List.mem_map.1 hc
    rw [toNat_unit]
    exact of_decide_eq_true (VpnRoutes.graphic_of_mem_string rfl hb).1

/-- What is loaded is the plan for the profiles there are. -/
theorem plan_of_load {C : Codec P} {k : Commits} {pl : Plan} (h : (load C D k s).1 = .ok pl) :
    plan C D s.withInitial s.listed = .ok pl := by
  have hok : ∀ ps s', list k s = (.ok ps, s') → plan C D s' ps = .ok pl := by
    intro ps s' hlist
    rw [load, Command.bind_ok hlist] at h
    cases hplan : plan C D s' ps with
    | ok pl' =>
      have hres : ((result (plan C D s' ps) : Act Plan) s').1 = .ok pl := h
      rwa [hplan] at hres
    | error e =>
      have hres : ((result (plan C D s' ps) : Act Plan) s').1 = .ok pl := h
      rw [hplan] at hres
      cases hres
  have herror : ∀ e s', list k s ≠ (.error e, s') := by
    intro e s' hlist
    rw [load, Command.bind_error hlist] at h
    cases h
  rcases hs : s.profiles with _ | _ | ps
  · have hlist := list_of_none (k := k) hs
    split_ifs at hlist
    · rw [Store.listed, hs]
      exact hok _ _ hlist
    · exact absurd hlist (herror _ _)
  · exact absurd (list_of_json hs) (herror _ _)
  · rw [Store.withInitial, Store.listed, hs]
    exact hok _ _ (list_of_lists hs)

/-- The ids of the profiles that are enabled. -/
def enabledIds (s : Store) : List Text := (s.listed.filter (·.id ∈ enabled s)).map (·.id)

theorem withInitial_frame (s : Store) : enabled s.withInitial = enabled s ∧
    s.withInitial.preferences = s.preferences := by
  rw [Store.withInitial]
  split <;> exact ⟨rfl, rfl⟩

/-- What there is about a plan that was loaded: the rules, one per enabled profile. -/
structure Loads {P : Platform} (C : Codec P) (D : Device) (s : Store) (pl : Plan)
    (rules : List RuleObject) : Prop where
  ids : pl.profiles.map (·.id) = enabledIds s
  valid : ∀ id ∈ enabledIds s, isProfileId id = true
  nonempty : enabledIds s ≠ []
  rules_ids : rules.map (·.id) = enabledIds s
  written : pl.rules = C.write rules
  ruleOf : ∀ r ∈ rules, ∃ profile : Profile, isProfileId profile.id = true ∧
    RuleOf P D s.withInitial profile (s.preferences profile.id) r
  resolver : pl.dnsProfile ∈ enabledIds s

theorem exists_loads {C : Codec P} {k : Commits} {pl : Plan} (h : (load C D k s).1 = .ok pl) :
    ∃ rules, Loads C D s pl rules := by
  obtain ⟨hen, hpref⟩ := withInitial_frame s
  obtain ⟨loaded, hne, hloaded, hprofiles, hrules, hdns⟩ := plan_eq_ok (plan_of_load h)
  rw [hen] at hne hloaded
  have hmap : ∀ f : RuleObject × MultipleProfile → Text,
      (∀ profile x, loadProfile P D s.withInitial profile = .ok x → profile.id = f x) →
        loaded.map f = enabledIds s := by
    intro f hf
    have hall : List.Forall₂ (· = ·) (enabledIds s) (loaded.map f) :=
      List.forall₂_map_left_iff.2
        (List.forall₂_map_right_iff.2 ((mapM_eq_ok_iff.1 hloaded).imp hf))
    rw [List.forall₂_eq_eq_eq] at hall
    exact hall.symm
  have hids : (loaded.map (·.2)).map (·.id) = enabledIds s := by
    rw [List.map_map]
    exact hmap _ fun profile x hx => (loadProfile_eq_ok hx).2.2.symm
  refine ⟨loaded.map (·.1), ?_, ?_, ?_, ?_, hrules, ?_, ?_⟩
  · rw [hprofiles, hids]
  · intro id hid
    rw [← hids, List.map_map] at hid
    obtain ⟨x, hx, rfl⟩ := List.mem_map.1 hid
    obtain ⟨profile, _, hprofile⟩ := (mem_of_mapM hloaded).1 hx
    obtain ⟨hvalid, _, heq⟩ := loadProfile_eq_ok hprofile
    rwa [Function.comp_apply, heq]
  · simpa [enabledIds] using hne
  · rw [List.map_map]
    exact hmap _ fun profile x hx => (loadProfile_eq_ok hx).2.1.id_eq.symm
  · intro r hr
    obtain ⟨x, hx, rfl⟩ := List.mem_map.1 hr
    obtain ⟨profile, _, hprofile⟩ := (mem_of_mapM hloaded).1 hx
    obtain ⟨hvalid, hruleOf, _⟩ := loadProfile_eq_ok hprofile
    rw [hpref] at hruleOf
    exact ⟨profile, hvalid, hruleOf⟩
  · obtain ⟨p, hp, hpid⟩ := hdns
    rw [← hpid, ← hids, ← hprofiles]
    exact List.mem_map_of_mem hp

namespace Loads

variable {C : Codec P} {pl : Plan} {rules : List RuleObject} (h : Loads C D s pl rules)

include h

/-- The router reads the rules that were written. -/
theorem unmarshal : C.unmarshal (P.encode pl.rules) = .ok (rules.map (·.decoded P)) := by
  rw [h.written]
  refine C.unmarshal_write rules fun r hr => ?_
  obtain ⟨profile, hid, hruleOf⟩ := h.ruleOf r hr
  exact hruleOf.ascii hid

theorem decoded_ids :
    (rules.map (·.decoded P)).map (·.id) = (enabledIds s).map P.encode := by
  rw [← h.rules_ids, List.map_map, List.map_map]
  rfl

/-- Go code tells the ids apart. -/
theorem nodup_encode : ((enabledIds s).map P.encode).Nodup ↔ (enabledIds s).Nodup := by
  refine ⟨List.Nodup.of_map _, List.Nodup.map_on fun id hid id' hid' heq => ?_⟩
  rw [← map_unit_encode P (isProfileId_ascii (h.valid id hid)), heq,
    map_unit_encode P (isProfileId_ascii (h.valid id' hid'))]

variable (huid : ∀ app uid, D.uid app = some uid → 0 ≤ uid.toInt)

include huid

/-- The router accepts the rules if the ids are distinct, and not too many. -/
theorem accepts_iff : (∃ policy, Routing.parse C.unmarshal (P.encode pl.rules) = .ok policy) ↔
    (enabledIds s).Nodup ∧ (enabledIds s).length ≤ 32 := by
  have hlen : (rules.map (·.decoded P)).length = (enabledIds s).length := by
    rw [← h.rules_ids, List.length_map, List.length_map]
  have hne : rules.map (·.decoded P) ≠ [] := by
    rw [ne_eq, ← List.length_eq_zero_iff, hlen, List.length_eq_zero_iff]
    exact h.nonempty
  have hchecks : ∀ r ∈ rules.map (·.decoded P), r.id ≠ [] ∧ r.id ≠ Routing.direct ∧ r.id ∉ [] ∧
      ∃ rule, Routing.parseRule r = .ok rule := by
    intro r hr
    obtain ⟨q, hq, rfl⟩ := List.mem_map.1 hr
    obtain ⟨profile, hid, hruleOf⟩ := h.ruleOf q hq
    obtain ⟨rule, hrule, _⟩ := parseRule_decoded huid hruleOf
    obtain ⟨hempty, hdirect⟩ := encode_id_ne P hid
    rw [← hruleOf.id_eq] at hempty hdirect
    exact ⟨hempty, hdirect, List.not_mem_nil, rule, hrule⟩
  rw [Routing.exists_parse_iff h.unmarshal, Routing.exists_parseRules_iff, h.decoded_ids,
    h.nodup_encode, hlen]
  exact ⟨fun ⟨_, hle, _, hnodup⟩ => ⟨hnodup, hle⟩, fun ⟨hnodup, hle⟩ => ⟨hne, hle, hchecks, hnodup⟩⟩

variable {policy : Routing.Policy}
  (hpolicy : Routing.parse C.unmarshal (P.encode pl.rules) = .ok policy)

include hpolicy

/-- The rule of an enabled profile. -/
theorem exists_rule {id : Text} (hid : id ∈ enabledIds s) : ∃ rule ∈ policy.rules,
    rule.id = P.encode id ∧ ((s.preferences id).mode.getD 0 = 3 → rule.mode = .subnets ∧ ∀ d,
      rule.prefixes.any (·.contains (.v4 d)) = true ↔
        VpnRoutes.Agrees P ((s.preferences id).routes.getD []) d) := by
  obtain ⟨_, _, hrules⟩ := (Routing.parse_eq_ok_iff h.unmarshal).1 hpolicy
  rw [← h.rules_ids] at hid
  obtain ⟨r, hr, rfl⟩ := List.mem_map.1 hid
  obtain ⟨profile, _, hruleOf⟩ := h.ruleOf r hr
  obtain ⟨rule, hmem, hrule⟩ := Routing.mem_parseRules hrules (List.mem_map_of_mem hr)
  obtain ⟨rule', hrule', hsubnets⟩ := parseRule_decoded huid hruleOf
  obtain rfl := Except.ok.inj (hrule.symm.trans hrule')
  rw [hruleOf.id_eq]
  exact ⟨rule, hmem, (Routing.parseRule_id hrule).trans (congrArg P.encode hruleOf.id_eq), hsubnets⟩

/-- The router is made with the profile that resolves names. -/
theorem newMultiRouter_ok {G : Type} (owner : Option Mobile.FlowOwner) (g : G) :
    ∃ m, Mobile.newMultiRouter C.unmarshal (P.encode pl.rules) (P.encode pl.dnsProfile) owner true
      g = .ok m ∧ m.policy = policy := by
  obtain ⟨rule, hmem, hid, _⟩ := h.exists_rule huid hpolicy h.resolver
  have hany : policy.rules.any (·.id = P.encode pl.dnsProfile) = true :=
    List.any_eq_true.2 ⟨rule, hmem, decide_eq_true hid⟩
  simp only [Mobile.newMultiRouter, hpolicy, hany, not_true_eq_false, if_false]
  exact ⟨_, rfl, rfl⟩

end Loads

/-- A rule on subnets takes the destinations that its prefixes contain. -/
theorem chooseRule_subnets {rule : Routing.Rule} (hmode : rule.mode = .subnets) {Q : Prop}
    {d : BitVec 32} (hQ : rule.prefixes.any (·.contains (.v4 d)) = true ↔ Q) (uid : ℤ)
    (rest : List Routing.Rule) :
    (Q → Routing.chooseRule (.v4 d) uid (rule :: rest) = ⟨rule.id, str "subnet"⟩) ∧
      (¬ Q → Routing.chooseRule (.v4 d) uid (rule :: rest) =
        Routing.chooseRule (.v4 d) uid rest) := by
  simp only [Routing.chooseRule, hmode]
  exact ⟨fun h => if_pos (hQ.2 h), fun h => if_neg fun h' => h (hQ.1 h')⟩

end Loaded

namespace Sample

/-- The members of a rule, as numbers. -/
def members (r : RuleObject) : List ℕ × List ℕ × Option (List ℤ) × Option (List (List ℕ)) :=
  (r.id.map UInt16.toNat, r.mode.map UInt16.toNat, r.uids.map (·.map Int64.toInt),
    r.subnets.map (·.map (·.map UInt16.toNat)))

/-- The rule with the members given. -/
def ofMembers (m : List ℕ × List ℕ × Option (List ℤ) × Option (List (List ℕ))) : RuleObject :=
  ⟨m.1.map UInt16.ofNat, m.2.1.map UInt16.ofNat, m.2.2.1.map (·.map Int64.ofInt),
    m.2.2.2.map (·.map (·.map UInt16.ofNat))⟩

theorem ofMembers_members (r : RuleObject) : ofMembers (members r) = r := by
  obtain ⟨id, mode, uids, subnets⟩ := r
  simp [ofMembers, members, Function.comp_def]

/-- The rules as a number, written as so many characters. -/
def codec : Codec .latin where
  write rules := List.replicate (Encodable.encode (rules.map members)) (unit (ascii '1'))
  unmarshal raw :=
    match (Encodable.decode raw.length :
        Option (List (List ℕ × List ℕ × Option (List ℤ) × Option (List (List ℕ))))) with
    | some l => .ok (l.map fun m => (ofMembers m).decoded .latin)
    | none => .error (.new "unexpected end of JSON input")
  unmarshal_write rules _ := by
    have hlen : ∀ t : Text, (Platform.latin.encode t).length = t.length := fun t => List.length_map _
    simp only [hlen, List.length_replicate, Encodable.encodek, List.map_map]
    refine congrArg Except.ok (List.map_congr_left fun r _ => ?_)
    rw [Function.comp_apply, ofMembers_members]

def device : Device := ⟨txt "ru.vpnc.quiclab", fun _ => none⟩

def commits : Commits := ⟨true, true, true⟩

/-- A profile in subnets mode. -/
def homePreferences : Preferences :=
  { Preferences.none with
    mode := some 3
    routes := some (txt "10.1.2.3/8")
    endpoint := some (txt "vpn:443") }

/-- An app with a profile enabled, before its first list of profiles. -/
def home : Store where
  profiles := none
  current := none
  globalApps := none
  multiple := none
  enabled := some [txt "default"]
  dnsProfile := none
  preferences _ := homePreferences
  identity _ := some []

/-- The rule of the profile. -/
def homeRule : RuleObject := ⟨txt "default", txt "subnets", none, some [txt "10.0.0.0/8"]⟩

/-- The profile of the plan. -/
def homeProfile : MultipleProfile where
  id := txt "default"
  name := txt "Основной"
  endpoint := txt "vpn:443"
  hostname := []
  config := ⟨[], txt "quic", [], txt "1.1.1.1", [], false⟩

def homePlan : Plan := ⟨[homeProfile], codec.write [homeRule], txt "default", txt "1.1.1.1"⟩

theorem load_home : (load codec device commits home).1 = .ok homePlan := rfl

theorem uid_device : ∀ app uid, device.uid app = some uid → 0 ≤ uid.toInt := by
  intro app uid h
  cases h

/-- The same with the profile stored twice. -/
def twins : Store := { home with profiles := some (some [initial, initial]) }

def twinsPlan : Plan :=
  ⟨[homeProfile, homeProfile], codec.write [homeRule, homeRule], txt "default", txt "1.1.1.1"⟩

theorem load_twins : (load codec device commits twins).1 = .ok twinsPlan := rfl

end Sample

/-- The routes that are typed mean the same to the app and to the router.

    A text that is accepted gives from 1 to 128 distinct networks, and these, joined by
    separators in any way, give the same networks again. A plan that was loaded is
    accepted by the router if the ids of the enabled profiles are distinct and at most
    32, as they are in every state that the operations on profiles lead to; the router is
    then made with the profile that resolves names, and the rule of a profile in subnets
    mode takes the addresses that agree with a typed one on as many bits as were typed. -/
theorem load_routing :
    (∀ (P : Platform) (raw : Text) (routes : List (Text × ℤ)),
      VpnRoutes.parse P raw = .ok routes →
        1 ≤ routes.length ∧ routes.length ≤ 128 ∧ routes.Nodup ∧
        (∀ r ∈ routes, ∃ (a : BitVec 32) (n : ℕ), n ≤ 32 ∧
          r = (VpnRoutes.addrText a, (n : ℤ)) ∧ 2 ^ (32 - n) ∣ a.toNat) ∧
        ∀ s, VpnRoutes.Joined P (routes.map VpnRoutes.render) s →
          VpnRoutes.parse P s = .ok routes) ∧
    (∀ (P : Platform) (C : Codec P) (D : Device) (k : Commits) (s : Store) (pl : Plan),
      (load C D k s).1 = .ok pl → (∀ app uid, D.uid app = some uid → 0 ≤ uid.toInt) →
        ((∃ policy, Routing.parse C.unmarshal (P.encode pl.rules) = .ok policy) ↔
          (enabledIds s).Nodup ∧ (enabledIds s).length ≤ 32) ∧
        ((app P).Reachable s →
          ∃ policy, Routing.parse C.unmarshal (P.encode pl.rules) = .ok policy) ∧
        ∀ policy, Routing.parse C.unmarshal (P.encode pl.rules) = .ok policy →
          (∀ (G : Type) (owner : Option Mobile.FlowOwner) (g : G), ∃ m,
            Mobile.newMultiRouter C.unmarshal (P.encode pl.rules) (P.encode pl.dnsProfile) owner
              true g = .ok m ∧ m.policy = policy) ∧
          ∀ profile ∈ pl.profiles, (s.preferences profile.id).mode.getD 0 = 3 →
            ∃ rule ∈ policy.rules, rule.id = P.encode profile.id ∧ rule.mode = .subnets ∧
              ∀ d uid rest,
                (VpnRoutes.Agrees P ((s.preferences profile.id).routes.getD []) d →
                  Routing.chooseRule (.v4 d) uid (rule :: rest) = ⟨rule.id, str "subnet"⟩) ∧
                (¬ VpnRoutes.Agrees P ((s.preferences profile.id).routes.getD []) d →
                  Routing.chooseRule (.v4 d) uid (rule :: rest) =
                    Routing.chooseRule (.v4 d) uid rest)) := by
  constructor
  · intro P raw routes h
    obtain ⟨l, _, hl, hne, hle⟩ := VpnRoutes.parse_eq_ok_iff.1 h
    refine ⟨List.length_pos_iff.2 hne, hle, hl ▸ VpnRoutes.nodup_distinct l, fun r hr => ?_,
      fun s hs => VpnRoutes.parse_joined h hs⟩
    obtain ⟨_, _, a, n, htyped, rfl⟩ := (VpnRoutes.mem_parse h).1 hr
    refine ⟨VpnRoutes.network a n, n, htyped.le, rfl, ?_⟩
    rw [VpnRoutes.toNat_network]
    exact Nat.dvd_mul_left _ _
  · intro P C D k s pl hload huid
    obtain ⟨rules, h⟩ := exists_loads hload
    refine ⟨h.accepts_iff huid, fun hreach => ?_, fun policy hpolicy => ⟨fun G owner g => ?_, ?_⟩⟩
    · obtain ⟨hnodup, hle⟩ := good_of_reachable hreach
      refine (h.accepts_iff huid).2 ⟨hnodup.sublist (List.filter_sublist.map _), ?_⟩
      rw [enabledIds, List.length_map]
      exact (List.length_filter_le _ _).trans hle
    · exact h.newMultiRouter_ok huid hpolicy owner g
    · intro profile hprofile hmode
      have hid : profile.id ∈ enabledIds s := h.ids ▸ List.mem_map_of_mem hprofile
      obtain ⟨rule, hmem, hrid, hrule⟩ := h.exists_rule huid hpolicy hid
      obtain ⟨hsubnets, hagrees⟩ := hrule hmode
      exact ⟨rule, hmem, hrid, hsubnets, fun d uid rest =>
        chooseRule_subnets hsubnets (hagrees d) uid rest⟩

/-- The routes of an app after its installation. -/
theorem load_routing_home :
    (load Sample.codec Sample.device Sample.commits Sample.home).1 = .ok Sample.homePlan ∧
      ∃ policy, Routing.parse Sample.codec.unmarshal
        (Platform.latin.encode Sample.homePlan.rules) = .ok policy ∧
        ∃ rule ∈ policy.rules, ∀ uid rest, Routing.chooseRule (.v4 0x0ac80001) uid (rule :: rest) =
          ⟨rule.id, str "subnet"⟩ := by
  obtain ⟨_, hreach, hpolicy⟩ := load_routing.2 .latin Sample.codec Sample.device Sample.commits
    Sample.home Sample.homePlan Sample.load_home Sample.uid_device
  obtain ⟨policy, hp⟩ := hreach (.init rfl)
  obtain ⟨rule, hmem, _, _, hrule⟩ := (hpolicy policy hp).2 Sample.homeProfile
    List.mem_cons_self rfl
  have hagrees : VpnRoutes.Agrees .latin (txt "10.1.2.3/8") 0x0ac80001 :=
    ⟨txt "10.1.2.3/8", by decide, 0x0a010203, 8,
      ⟨txt "10.1.2.3", txt "8", by decide, by decide, by decide, by decide⟩, by decide⟩
  exact ⟨Sample.load_home, policy, hp, rule, hmem, fun uid rest =>
    (hrule 0x0ac80001 uid rest).1 hagrees⟩

/-- A list of profiles with the same id twice is loaded, and the router refuses it. -/
theorem load_twins_refused : ¬ ∀ (P : Platform) (C : Codec P) (D : Device) (k : Commits) (s : Store)
    (pl : Plan), (load C D k s).1 = .ok pl →
      (∀ app uid, D.uid app = some uid → 0 ≤ uid.toInt) →
        ∃ policy, Routing.parse C.unmarshal (P.encode pl.rules) = .ok policy := by
  intro hall
  obtain ⟨rules, h⟩ := exists_loads Sample.load_twins
  have haccepts := hall .latin Sample.codec Sample.device Sample.commits Sample.twins
    Sample.twinsPlan Sample.load_twins Sample.uid_device
  have hnodup := ((h.accepts_iff Sample.uid_device).1 haccepts).1
  exact absurd hnodup (by decide)

end QuicLab.Android.MultipleVpnPlan
