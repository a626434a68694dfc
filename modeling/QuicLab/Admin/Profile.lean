import QuicLab.Admin.Invariant
import QuicLab.AwgServer.Client
import QuicLab.DebugCapture.Capture
import QuicLab.Json

/-!
# Profiles

The configuration of the admin server and its checks (`Web.Config.validate`), and
the profile it issues to a user (`Web.profile`), with its JSON text.
-/

namespace QuicLab

open Go

/-! ## The configuration -/

/-- The configuration of the transit tunnel. -/
structure Transit.Config where
  sourceIP : Bytes
  endpoint : Bytes
  dns : Bytes
  probeSocket : Bytes

/-- `Config.Validate` of the transit tunnel: the error, if any. -/
def Transit.Config.validate (c : Config) : Option Error :=
  if ¬ ∀ v ∈ [c.sourceIP, c.dns], (Netip.parseAddr v).any fun a => a.is4 && !a.isUnspecified then
    some (.new "transit requires IPv4 source and DNS")
  else if ¬ (parseAddrPort c.endpoint).any fun ep => ep.1.is4 && ep.2 ≠ 0 then
    some (.new "transit endpoint must be numeric IPv4:port")
  else if c.probeSocket = [] then some (.new "transit probe socket required")
  else none

namespace Admin

open AwgServer (Identity Peer PeerSeed IdentitySeed Key)

/-- The profile of an app. -/
structure Profile where
  awgEnrollURL : Bytes
  transitEndpoint : Bytes
  transports : List Bytes
  awgConfig : Bytes
  version : ℤ
  kind : Bytes
  name : Bytes
  endpoint : Bytes
  quic : Bytes
  https : Bytes
  hostname : Bytes
  pin : Bytes
  ca : Bytes
  certificate : Bytes
  key : Bytes
  dns : Bytes
  mode : ℤ
  routes : Bytes

/-- The members of a profile in JSON, in the order of its fields. -/
def Profile.members (p : Profile) : List (String × Option (Json Bytes)) :=
  [("awg_enroll_url", Json.omitEmpty (.string p.awgEnrollURL)),
    ("transit_endpoint", Json.omitEmpty (.string p.transitEndpoint)),
    ("transports", Json.omitEmpty (.array p.transports)),
    ("awg_config", Json.omitEmpty (.string p.awgConfig)),
    ("version", some (.int p.version)),
    ("kind", some (.string p.kind)),
    ("name", Json.omitEmpty (.string p.name)),
    ("endpoint", Json.omitEmpty (.string p.endpoint)),
    ("quic", Json.omitEmpty (.string p.quic)),
    ("https", Json.omitEmpty (.string p.https)),
    ("hostname", some (.string p.hostname)),
    ("pin", Json.omitEmpty (.string p.pin)),
    ("ca", Json.omitEmpty (.string p.ca)),
    ("certificate", Json.omitEmpty (.string p.certificate)),
    ("key", Json.omitEmpty (.string p.key)),
    ("dns", Json.omitEmpty (.string p.dns)),
    ("mode", Json.omitEmpty (.int p.mode)),
    ("routes", Json.omitEmpty (.string p.routes))]

/-- A profile as it is encoded. -/
def Profile.json (p : Profile) : Json.Object Bytes := Json.object p.members

/-- A URL, as `url.Parse` returns it; `user` says whether it has user information. -/
structure URL where
  scheme : Bytes
  user : Bool
  host : Bytes
  path : Bytes
  rawQuery : Bytes
  fragment : Bytes

/-- The configuration of the admin server. -/
structure Web.Config where
  capture : Option DebugCapture.Config
  transit : Option Transit.Config
  awg : Option AwgServer.Config
  listen : Bytes
  publicURL : Bytes
  username : Bytes
  password : Bytes
  dataDir : Bytes
  echo : Profile
  vpn : Profile

/-- An endpoint of a profile: a host and a port. -/
def isHostPort (v : Bytes) : Bool :=
  (splitHostPort v).any fun hp =>
    let n := (atoi hp.2).getD 0
    hp.1 ≠ [] ∧ 1 ≤ n ∧ n ≤ 65535

/-- `Config.Validate`, with `url.Parse` given: the error, if any. -/
def Web.Config.validate (parseURL : Bytes → Option URL) (c : Web.Config) : Option Error :=
  match c.capture.bind (·.validate), c.transit.bind (·.validate), c.awg.bind (·.validate) with
  | some e, _, _ => some e
  | none, some e, _ => some e
  | none, none, some e => some e
  | none, none, none =>
    if ¬ (parseURL c.publicURL).any fun u => u.scheme = str "https" ∧ u.host ≠ [] ∧ !u.user ∧
        u.rawQuery = [] ∧ u.fragment = [] ∧ u.path.getLast? = some (ascii '/') then
      some (.new "public_url must be an HTTPS URL ending in /")
    else if c.username = [] ∨ c.password.length < 12 ∨
        c.password = str "CHANGE-ME-BEFORE-START" then
      some (.new "set username and a unique password of at least 12 characters")
    else if ¬ (splitHostPort c.listen).any fun hp => (parseIP hp.1).any isLoopback then
      some (.new "admin listen must be loopback behind HTTPS reverse proxy")
    else if c.dataDir = [] then some (.new "data_dir required")
    else if ¬ ∀ v ∈ [c.echo.endpoint, c.vpn.quic, c.vpn.https], isHostPort v then
      some (.new "echo and VPN endpoints must be host:port")
    else if c.echo.hostname = [] ∨ c.vpn.hostname = [] then some (.new "TLS hostnames required")
    else if c.vpn.mode ≠ 0 ∧ c.vpn.mode ≠ 3 then
      some (.new "provisioning mode must be all apps (0) or routes (3)")
    else if c.echo.key ≠ [] ∨ c.echo.certificate ≠ [] ∨ c.vpn.key ≠ [] ∨
        c.vpn.certificate ≠ [] then
      some (.new "identity material is generated per user, not stored in profiles")
    else none

/-- What the checks say about the profiles of users. -/
structure Web.Config.Valid (c : Web.Config) : Prop where
  transit : ∀ t, c.transit = some t → t.validate = none
  quic : isHostPort c.vpn.quic = true
  https : isHostPort c.vpn.https = true
  mode : c.vpn.mode = 0 ∨ c.vpn.mode = 3

theorem Web.Config.valid_of_validate {parseURL : Bytes → Option URL} {c : Web.Config}
    (h : c.validate parseURL = none) : c.Valid := by
  rw [validate] at h
  split at h
  · cases h
  · cases h
  · cases h
  · rename_i _ htransit _
    split_ifs at h with _ _ _ _ hendpoints _ hmode
    refine ⟨fun t ht => ?_, ?_, ?_, ?_⟩
    · rwa [ht, Option.bind_some] at htransit
    · exact hendpoints _ (by simp)
    · exact hendpoints _ (by simp)
    · by_contra hne
      rw [not_or] at hne
      exact hmode hne

/-! ## The profile of a user -/

/-- `Store.Profile`. -/
def Store.profile (id : Bytes) (now : Time) (s : Store) : Except Error User :=
  match s.state.users.lookup id with
  | none => .error (.new "user unavailable")
  | some u => if u.disabled ∨ u.expires < now then .error (.new "user unavailable") else .ok u

/-- `Store.AWGProfile`. -/
def Store.awgProfile (id : Bytes) (now : Time) (s : Store) : Except Error Bytes :=
  match s.state.users.lookup id with
  | none => .error (.new "AWG unavailable for this user")
  | some u =>
    match u.awg, s.awgConfig, s.state.awg with
    | some p, some c, some i =>
      if u.disabled ∨ u.expires ≤ now ∨ ¬ u.allows (str "awg") then
        .error (.new "AWG unavailable for this user")
      else .ok (c.client i p)
    | _, _, _ => .error (.new "AWG unavailable for this user")

/-- The profile of a user but for AWG. -/
def Web.baseProfile (cfg : Web.Config) (u : User) : Profile :=
  let named := u.allows (str "quic") || u.allows (str "https")
  { cfg.vpn with
    version := if u.protocols.isSome then 2 else 1
    kind := str "vpn"
    transitEndpoint := (cfg.transit.map (·.endpoint)).getD cfg.vpn.transitEndpoint
    name := u.name
    transports := u.protocols.getD cfg.vpn.transports
    quic := if u.allows (str "quic") then cfg.vpn.quic else []
    https := if u.allows (str "https") then cfg.vpn.https else []
    certificate := if named then u.certificate else []
    key := if named then u.key else [] }

/-- `Web.profile`, with the time and the store at which `AWGProfile` is called. -/
def Web.profile (cfg : Web.Config) (u : User) (now : Time) (s : Store) : Except Error Profile :=
  let p := Web.baseProfile cfg u
  if u.allows (str "awg") then
    match s.awgProfile u.id now with
    | .error e => .error e
    | .ok raw => .ok { p with awgConfig := raw }
  else .ok p

/-! ## Generated keys

Identities and peers are made by `NewIdentity` and `NewPeer` only, also those read
back from the file. -/

/-- The identity and the peers are generated. -/
structure DiskState.Generated (d : DiskState) : Prop where
  identity : ∀ i, d.awg = some i → ∃ seed, i = identityOf seed
  peer : ∀ id u p, d.users.lookup id = some u → u.awg = some p →
    ∃ keys a, p = peerOf keys (Netip.Addr.v4 a).string

namespace DiskState.Generated

variable {d d' : DiskState}

/-- Last connections do not matter. -/
theorem congr (h : d.Generated) (hcore : d.core = d'.core) : d'.Generated := by
  refine ⟨fun i hi => h.identity i ((congrArg DiskState.awg hcore :).trans hi),
    fun id u' p hu' hp => ?_⟩
  obtain ⟨u, hu, huc⟩ := StateInv.lookup_of_core hcore hu'
  exact h.peer id u p hu ((congrArg User.awg huc :).trans hp)

theorem put (h : d.Generated) {id : Bytes} {u : User}
    (hu : ∀ p, u.awg = some p → ∃ keys a, p = peerOf keys (Netip.Addr.v4 a).string) :
    DiskState.Generated { d with users := d.users.insert id u } := by
  refine ⟨h.identity, fun id' u' p hu' hp => ?_⟩
  rw [Map.lookup_insert'] at hu'
  split_ifs at hu'
  · cases hu'
    exact hu p hp
  · exact h.peer id' u' p hu' hp

theorem provisioned {s : Store} {seed : Except String PeerSeed} {ps : Option (List Bytes)}
    {awg awg' : Option Peer}
    (hawg : ∀ p, awg = some p → ∃ keys a, p = peerOf keys (Netip.Addr.v4 a).string)
    (h : Provisioned s seed ps awg awg') (p : Peer) (hp : awg' = some p) :
    ∃ keys a, p = peerOf keys (Netip.Addr.v4 a).string := by
  cases h with
  | same _ => exact hawg p hp
  | @peer _ _ a keys =>
    cases hp
    exact ⟨keys, a, rfl⟩

/-- A call generates what it adds. -/
theorem effect {A : Assumptions} {s s' : Store} {e : Option Error} {r : Option Request}
    (h : s.state.Generated) (heff : Effect A s (e, r, s')) : s'.state.Generated := by
  cases heff with
  | failed hk => rwa [hk.state]
  | noted _ hcore _ => exact h.congr hcore.symm
  | @identity _ seed _ hs =>
    rw [hs.state]
    refine ⟨fun i hi => ?_, h.peer⟩
    cases hi
    exact ⟨seed, rfl⟩
  | created _ _ _ _ _ _ hprov hs =>
    have hnone : ∀ p : Peer, none = some p →
        ∃ keys a, p = peerOf keys (Netip.Addr.v4 a).string := fun p hp => by cases hp
    rw [hs.state]
    exact h.put (provisioned hnone hprov)
  | renamed hold _ _ hs =>
    rw [hs.state]
    exact h.put fun p hp => h.peer _ _ p hold hp
  | set _ hold _ hprov hu hs =>
    rw [hs.state]
    subst hu
    exact h.put (provisioned (fun p hp => h.peer _ _ p hold hp) hprov)
  | deleted _ hstate =>
    rw [hstate]
    refine ⟨h.identity, fun id' u' p hu' hp => ?_⟩
    rw [Map.lookup_erase'] at hu'
    split_ifs at hu'
    exact h.peer id' u' p hu' hp

end DiskState.Generated

/-- The keys of a server, running or stopped, are generated. -/
def Process.Generated : Process → Prop
  | .stopped file => ∀ d, file = some d → d.Generated
  | .running s => s.state.Generated

theorem Server.Step.generated {x : Certs} {A : Assumptions} {v v' : Server} {a : Action}
    (hinv : v.process.Inv A) (h : v.process.Generated) (hs : Server.Step x A v a v') :
    v'.process.Generated := by
  cases hs with
  | «open» hstopped hopen =>
    rw [hstopped] at h
    obtain ⟨d, notAfter, rfl, hd | ⟨_, hawg, _, husers⟩⟩ := openStore_ok hopen
    · exact h d hd
    · refine ⟨fun i hi => ?_, fun id u p hu _ => ?_⟩
      · rw [Store.opened, hawg] at hi
        cases hi
      · rw [Store.opened, husers, Finmap.lookup_empty] at hu
        cases hu
  | stop hrun =>
    rw [hrun] at h hinv
    intro d hd
    obtain ⟨d', hd', hcore⟩ := hinv.file
    obtain rfl : d' = d := Option.some.inj (hd'.symm.trans hd)
    exact h.congr hcore.symm
  | call hrun hassumed hresult =>
    rw [hrun] at h hinv
    have heff := Call.effect hassumed hinv.state.id hinv.valid x
    rw [hresult] at heff
    exact h.effect heff
  | register hrun _ hok =>
    rw [hrun] at h
    obtain ⟨_, _, rfl⟩ := registerProtocol_ok hok
    exact h
  | release hrun _ =>
    rw [hrun] at h
    exact h
  | close _ _ => exact h

theorem generated_of_reachable {x : Certs} {A : Assumptions} {v : Server}
    (h : (Server.system x A).Reachable v) {s : Store} (hs : v.process = .running s) :
    s.state.Generated := by
  have hinv := h.invariant (P := fun v => v.process.Inv A ∧ v.process.Generated) ?_
    fun _ _ _ hv hstep => ⟨Server.Step.inv hv.1 hstep, Server.Step.generated hv.1 hv.2 hstep⟩
  · have hgen := hinv.2
    rwa [hs] at hgen
  · rintro v rfl
    constructor <;> exact fun d hd => absurd hd.symm (Option.some_ne_none d)

end Admin

end QuicLab
