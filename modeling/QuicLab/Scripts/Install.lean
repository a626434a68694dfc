import Mathlib.Data.Rat.Floor
import QuicLab.Go.Strconv
import QuicLab.Guarded

/-!
# The ports of an installation

`install-server.py` finds each of its three ports in layers: an option, the server's own
configuration, the state of the last installation, the configuration of the admin, a default.
They are merged in two places. `resolve_ports` merges all but the configuration of
the server, and refuses ports that conflict; `install` then puts the ports of that
configuration over the others, and checks nothing.

* `resolvePorts_spec`: what `resolve_ports` returns, and what it has checked.
* `installPorts_spec`: the port of each name is that of the configuration of the server,
  where it has one and no option is given, and else what `resolve_ports` returns.

So the ports may conflict after all: exactly if those of the configuration of the
server do, with each other or with the rest (`ServerClash`).
-/

namespace QuicLab.Scripts.Install

open Go

/-! ## Values -/

/-- A value that `json.loads` returns. A number that is not finite is `none`. -/
inductive Value
  | null
  | bool (b : Bool)
  | int (n : ℤ)
  | float (x : Option ℚ)
  | str (s : Bytes)
  | list (l : List Value)
  | dict (d : List (Bytes × Value))

/-- The exceptions. -/
inductive Error
  | argumentType (text : String)
  | value (text : String)
  | key
  | index
  | attribute
  | type
  | notFinite

/-- Truth values. -/
def Value.truthy : Value → Bool
  | .null => false
  | .bool b => b
  | .int n => n ≠ 0
  | .float x => x ≠ some 0
  | .str s => s ≠ []
  | .list l => !l.isEmpty
  | .dict d => !d.isEmpty

/-- `v[key]`. -/
def Value.index (key : Bytes) : Value → Except Error Value
  | .dict d =>
    match d.lookup key with
    | some v => .ok v
    | none => .error .key
  | _ => .error .type

/-- `v.get(key)`. -/
def Value.get (key : Bytes) : Value → Except Error (Option Value)
  | .dict d => .ok (d.lookup key)
  | _ => .error .attribute

/-- `v.rsplit(":", 1)[1]`. -/
def Value.afterColon : Value → Except Error Bytes
  | .str s =>
    if ascii ':' ∈ s then .ok (s.reverse.takeWhile (· ≠ ascii ':')).reverse else .error .index
  | _ => .error .attribute

/-! ## Ports -/

/-- The names of `DEFAULT_PORTS`. -/
inductive Name
  | echoQuic
  | vpnQuic
  | mtls
  deriving DecidableEq

/-- The key of a port in the state of an installation. -/
def Name.key : Name → Bytes
  | .echoQuic => str "echo_quic_port"
  | .vpnQuic => str "vpn_quic_port"
  | .mtls => str "mtls_port"

/-- Where a port is in the configuration of the admin. -/
def Name.adminField : Name → Bytes × Bytes
  | .echoQuic => (str "echo", str "endpoint")
  | .vpnQuic => (str "vpn", str "quic")
  | .mtls => (str "vpn", str "https")

/-- Where a port is in the configuration of the server. -/
def Name.serverField : Name → Bytes
  | .echoQuic => str "listen"
  | .vpnQuic => str "gateway_quic"
  | .mtls => str "gateway_https"

/-- A loop over the names. -/
def eachPort {α : Type} (f : Name → Except Error α) : Except Error (Name → α) := do
  let echoQuic ← f .echoQuic
  let vpnQuic ← f .vpnQuic
  let mtls ← f .mtls
  return fun
    | .echoQuic => echoQuic
    | .vpnQuic => vpnQuic
    | .mtls => mtls

/-- The web server in front. -/
inductive Frontend
  | nginx
  | direct
  deriving DecidableEq

/-- The options of the command line. -/
structure Options where
  frontend : Option Frontend
  port : Name → Option ℤ

/-- The state of the last installation. -/
structure State where
  frontend : Option Value
  ports : List (Bytes × Value)

/-- `resolve_frontend`. -/
def resolveFrontend (which : Bool) (state : Option State) (cfg : Option Value) :
    Except Error Frontend :=
  match state with
  | some s =>
    match s.frontend with
    | none => .ok .nginx
    | some (.str mode) =>
      if mode = str "nginx" then .ok .nginx
      else if mode = str "direct" then .ok .direct
      else .error (.value "frontend must be nginx or direct in install.json")
    | some _ => .error (.value "frontend must be nginx or direct in install.json")
  | none =>
    if cfg.any Value.truthy then .ok .nginx else .ok (if which then .nginx else .direct)

/-- The option, or what is saved. -/
def Options.chooseFrontend (args : Options) (which : Bool) (state : Option State)
    (cfg : Option Value) : Except Error Frontend :=
  match args.frontend with
  | some frontend => .ok frontend
  | none => resolveFrontend which state cfg

/-- The TCP ports that are taken. -/
def reserved : Frontend → List ℤ
  | .nginx => [80, 443, 8081, 8082, 8083]
  | .direct => [80, 8081, 8082, 8083]

/-- `DEFAULT_PORTS`, with another one for mTLS without nginx. -/
def defaultPort (frontend : Frontend) : Name → Value
  | .echoQuic => .int 4433
  | .vpnQuic => .int 4434
  | .mtls => .int (if frontend = .direct then 443 else 8443)

section Python

/-! What `int` makes of a text is that of the language. -/

variable (int : Bytes → Option ℤ)

/-- `int(value)`. -/
def Value.toInt : Value → Except Error ℤ
  | .bool b => .ok (if b then 1 else 0)
  | .int n => .ok n
  | .float (some x) => .ok (if 0 ≤ x then ⌊x⌋ else ⌈x⌉)
  | .float none => .error .notFinite
  | .str s =>
    match int s with
    | some n => .ok n
    | none => .error (.argumentType "Port must be an integer in 1..65535")
  | _ => .error (.argumentType "Port must be an integer in 1..65535")

/-- `port_number`. -/
def portNumber (v : Value) : Except Error ℤ := do
  let number ← v.toInt int
  if 1 ≤ number ∧ number ≤ 65535 then return number
  else .error (.argumentType "Port must be in 1..65535")

/-- A port of the configuration of the admin. -/
def adminPort (cfg : Value) (n : Name) : Except Error Value := do
  let section' ← cfg.index n.adminField.1
  let field ← section'.index n.adminField.2
  let text ← field.afterColon
  let port ← portNumber int (.str text)
  return .int port

/-- The ports before the options. -/
def savedPorts (state : Option State) (cfg : Option Value) (frontend : Frontend) :
    Except Error (Name → Value) := do
  let ports ←
    match cfg with
    | some cfg => if cfg.truthy then eachPort (adminPort int cfg) else .ok (defaultPort frontend)
    | none => .ok (defaultPort frontend)
  return fun n => ((state.bind fun s => s.ports.lookup n.key).getD (ports n))

/-- `resolve_ports`. -/
def resolvePorts (args : Options) (state : Option State) (cfg : Option Value)
    (frontend : Frontend) : Except Error (Name → ℤ) := do
  let saved ← savedPorts int state cfg frontend
  let ports ← eachPort fun n => portNumber int (((args.port n).map Value.int).getD (saved n))
  if ports .echoQuic = ports .vpnQuic then
    .error (.value "Echo QUIC and VPN QUIC must use different UDP ports")
  else if ports .mtls ∈ reserved frontend then
    .error (.value
      "mTLS TCP port conflicts with nginx or a loopback backend (80, 443, 8081-8083)")
  else return ports

/-- A port of the configuration of the server, if it is set there. -/
def serverPort (server : Value) (n : Name) : Except Error (Option ℤ) := do
  match ← server.get n.serverField with
  | none => return none
  | some field =>
    if field.truthy then do
      let text ← field.afterColon
      let port ← portNumber int (.str text)
      return some port
    else return none

/-- The ports of the configuration of the server over those that were resolved. -/
def overlay (args : Options) (server : Option Value) (ports : Name → ℤ) :
    Except Error (Name → ℤ) :=
  match server with
  | none => .ok ports
  | some server =>
    if server.truthy then
      eachPort fun n =>
        match args.port n with
        | some _ => .ok (ports n)
        | none => do return (← serverPort int server n).getD (ports n)
    else .ok ports

/-- The part of `install` about the frontend and the ports. -/
def installPorts (args : Options) (which : Bool) (state : Option State)
    (cfg server : Option Value) : Except Error (Frontend × (Name → ℤ)) := do
  let frontend ← args.chooseFrontend which state cfg
  let ports ← resolvePorts int args state cfg frontend
  let ports ← overlay int args server ports
  return (frontend, ports)

end Python

/-! ## Conflicts -/

section Conflicts

variable (int : Bytes → Option ℤ) (args : Options) (state : Option State) (cfg : Option Value)
  (frontend : Frontend) (server : Option Value)

/-- The port of the layers that are checked. -/
def Checked (n : Name) (p : ℤ) : Prop :=
  ∃ saved, savedPorts int state cfg frontend = .ok saved ∧
    portNumber int (((args.port n).map Value.int).getD (saved n)) = .ok p

/-- The configuration of the server has a port that no option replaces. -/
def Overrides (n : Name) (p : ℤ) : Prop :=
  args.port n = none ∧ ∃ v, server = some v ∧ v.truthy = true ∧ serverPort int v n = .ok (some p)

/-- The ports of the configuration of the server conflict, with each other or with those of
    the other layers. -/
inductive ServerClash : Prop
  | both (p : ℤ) (echo : Overrides int args server .echoQuic p)
    (vpn : Overrides int args server .vpnQuic p)
  | echo (p : ℤ) (echo : Overrides int args server .echoQuic p)
    (vpn : ∀ q, ¬ Overrides int args server .vpnQuic q)
    (saved : Checked int args state cfg frontend .vpnQuic p)
  | vpn (p : ℤ) (vpn : Overrides int args server .vpnQuic p)
    (echo : ∀ q, ¬ Overrides int args server .echoQuic q)
    (saved : Checked int args state cfg frontend .echoQuic p)
  | mtls (p : ℤ) (mtls : Overrides int args server .mtls p) (taken : p ∈ reserved frontend)

variable {int args state cfg frontend server}

theorem Checked.unique {n : Name} {p q : ℤ} (hp : Checked int args state cfg frontend n p)
    (hq : Checked int args state cfg frontend n q) : p = q := by
  obtain ⟨saved, hsaved, hport⟩ := hp
  obtain ⟨saved', hsaved', hport'⟩ := hq
  cases hsaved.symm.trans hsaved'
  exact Except.ok.inj (hport.symm.trans hport')

theorem Overrides.unique {n : Name} {p q : ℤ} (hp : Overrides int args server n p)
    (hq : Overrides int args server n q) : p = q := by
  obtain ⟨_, v, hv, _, hport⟩ := hp
  obtain ⟨_, v', hv', _, hport'⟩ := hq
  cases hv.symm.trans hv'
  exact Option.some.inj (Except.ok.inj (hport.symm.trans hport'))

/-- A loop that ends has done what it does for each name. -/
theorem eachPort_eq_ok {α : Type} {f : Name → Except Error α} {ports : Name → α}
    (h : eachPort f = .ok ports) (n : Name) : f n = .ok (ports n) := by
  rw [eachPort] at h
  obtain ⟨echoQuic, hecho, h⟩ := bind_eq_ok_iff.1 h
  obtain ⟨vpnQuic, hvpn, h⟩ := bind_eq_ok_iff.1 h
  obtain ⟨mtls, hmtls, h⟩ := bind_eq_ok_iff.1 h
  cases h
  cases n with
  | echoQuic => exact hecho
  | vpnQuic => exact hvpn
  | mtls => exact hmtls

/-- What `resolve_ports` returns is checked. -/
theorem resolvePorts_spec {ports : Name → ℤ}
    (h : resolvePorts int args state cfg frontend = .ok ports) :
    (∀ n, Checked int args state cfg frontend n (ports n)) ∧
      ports .echoQuic ≠ ports .vpnQuic ∧ ports .mtls ∉ reserved frontend := by
  rw [resolvePorts] at h
  obtain ⟨saved, hsaved, h⟩ := bind_eq_ok_iff.1 h
  obtain ⟨ports', hports, h⟩ := bind_eq_ok_iff.1 h
  split_ifs at h with hquic hmtls
  cases h
  exact ⟨fun n => ⟨saved, hsaved, eachPort_eq_ok hports n⟩, hquic, hmtls⟩

/-- A port is that of the configuration of the server, or the one that was resolved. -/
theorem overlay_spec {ports ports' : Name → ℤ} (h : overlay int args server ports = .ok ports')
    (n : Name) : Overrides int args server n (ports' n) ∨
      (∀ p, ¬ Overrides int args server n p) ∧ ports' n = ports n := by
  cases server with
  | none =>
    cases h
    refine .inr ⟨fun p hp => ?_, rfl⟩
    obtain ⟨_, v, hv, _⟩ := hp
    cases hv
  | some v =>
    simp only [overlay] at h
    split_ifs at h with htruthy
    · have hn := eachPort_eq_ok h n
      cases hoption : args.port n with
      | some p =>
        simp only [hoption] at hn
        refine .inr ⟨fun p hp => ?_, (Except.ok.inj hn).symm⟩
        rw [hp.1] at hoption
        cases hoption
      | none =>
        simp only [hoption] at hn
        obtain ⟨port, hport, hn⟩ := bind_eq_ok_iff.1 hn
        have hn := Except.ok.inj hn
        cases port with
        | some p => exact .inl ⟨hoption, v, rfl, htruthy, hn ▸ hport⟩
        | none =>
          refine .inr ⟨fun p hp => ?_, hn.symm⟩
          obtain ⟨_, v', hv', _, hport'⟩ := hp
          cases hv'
          cases hport.symm.trans hport'
    · refine .inr ⟨fun p hp => ?_, congrFun (Except.ok.inj h).symm n⟩
      obtain ⟨_, v', hv', htrue, _⟩ := hp
      cases hv'
      exact htruthy htrue

theorem installPorts_spec {which : Bool} {ports : Name → ℤ}
    (h : installPorts int args which state cfg server = .ok (frontend, ports)) :
    ∃ resolved, resolvePorts int args state cfg frontend = .ok resolved ∧
      overlay int args server resolved = .ok ports := by
  rw [installPorts] at h
  obtain ⟨frontend', _, h⟩ := bind_eq_ok_iff.1 h
  obtain ⟨resolved, hresolved, h⟩ := bind_eq_ok_iff.1 h
  obtain ⟨ports', hports, h⟩ := bind_eq_ok_iff.1 h
  cases h
  exact ⟨resolved, hresolved, hports⟩

section Merged

variable {resolved ports : Name → ℤ}
  (hchecked : ∀ n, Checked int args state cfg frontend n (resolved n))
  (hoverlay : overlay int args server resolved = .ok ports)

include hoverlay

theorem overlay_of_overrides {n : Name} {p : ℤ} (hp : Overrides int args server n p) :
    ports n = p := by
  rcases overlay_spec hoverlay n with h | ⟨hnone, _⟩
  · exact h.unique hp
  · exact absurd hp (hnone p)

theorem overlay_of_forall_not {n : Name} (hnone : ∀ p, ¬ Overrides int args server n p) :
    ports n = resolved n := by
  rcases overlay_spec hoverlay n with h | ⟨_, heq⟩
  · exact absurd h (hnone _)
  · exact heq

include hchecked

/-- A clash shows in the ports. -/
theorem conflict_of_serverClash (h : ServerClash int args state cfg frontend server) :
    ports .echoQuic = ports .vpnQuic ∨ ports .mtls ∈ reserved frontend := by
  cases h with
  | both p echo vpn =>
    exact .inl ((overlay_of_overrides hoverlay echo).trans (overlay_of_overrides hoverlay vpn).symm)
  | echo p echo vpn saved =>
    refine .inl ?_
    rw [overlay_of_overrides hoverlay echo, overlay_of_forall_not hoverlay vpn]
    exact saved.unique (hchecked .vpnQuic)
  | vpn p vpn echo saved =>
    refine .inl ?_
    rw [overlay_of_overrides hoverlay vpn, overlay_of_forall_not hoverlay echo]
    exact (hchecked .echoQuic).unique saved
  | mtls p mtls taken => exact .inr (overlay_of_overrides hoverlay mtls ▸ taken)

/-- Ports that were checked conflict only by a clash. -/
theorem serverClash_of_conflict (hquic : resolved .echoQuic ≠ resolved .vpnQuic)
    (hmtls : resolved .mtls ∉ reserved frontend)
    (h : ports .echoQuic = ports .vpnQuic ∨ ports .mtls ∈ reserved frontend) :
    ServerClash int args state cfg frontend server := by
  rcases h with heq | htaken
  · rcases overlay_spec hoverlay .echoQuic with hecho | ⟨hecho, hecho'⟩
    · rcases overlay_spec hoverlay .vpnQuic with hvpn | ⟨hvpn, hvpn'⟩
      · exact .both _ hecho (heq ▸ hvpn)
      · exact .echo _ hecho hvpn (heq ▸ hvpn' ▸ hchecked .vpnQuic)
    · rcases overlay_spec hoverlay .vpnQuic with hvpn | ⟨_, hvpn'⟩
      · exact .vpn _ hvpn hecho (heq ▸ hecho' ▸ hchecked .echoQuic)
      · exact absurd (hecho'.symm.trans (heq.trans hvpn')) hquic
  · rcases overlay_spec hoverlay .mtls with hover | ⟨_, hsame⟩
    · exact .mtls _ hover htaken
    · exact absurd (hsame ▸ htaken) hmtls

end Merged

end Conflicts

namespace Sample

/-- An installation whose VPN was moved to the port 5000 of the echo by hand. -/
def server : Value :=
  .dict [(str "listen", .str (str "0.0.0.0:5000")), (str "gateway_quic", .str (str "0.0.0.0:5000")),
    (str "gateway_https", .str (str "0.0.0.0:8443"))]

/-- The installation before. -/
def state : State where
  frontend := some (.str (str "nginx"))
  ports := [(str "echo_quic_port", .int 5000), (str "vpn_quic_port", .int 4434),
    (str "mtls_port", .int 8443)]

/-- An update without options. -/
def update : Options := ⟨none, fun _ => none⟩

/-- One that moves the VPN. -/
def move : Options := ⟨none, fun n => if n = .vpnQuic then some 5001 else none⟩

end Sample

/-- The ports that are written do not conflict exactly if those of the configuration of the
    server do not: they are put over the ports that were checked, and are not checked. -/
theorem installPorts_conflict_free_iff (int : Bytes → Option ℤ) (args : Options) (which : Bool)
    (state : Option State) (cfg server : Option Value) (frontend : Frontend) (ports : Name → ℤ)
    (h : installPorts int args which state cfg server = .ok (frontend, ports)) :
    (ports .echoQuic ≠ ports .vpnQuic ∧ ports .mtls ∉ reserved frontend) ↔
      ¬ ServerClash int args state cfg frontend server := by
  obtain ⟨resolved, hresolved, hoverlay⟩ := installPorts_spec h
  obtain ⟨hchecked, hquic, hmtls⟩ := resolvePorts_spec hresolved
  constructor
  · rintro ⟨hne, hfree⟩ hclash
    rcases conflict_of_serverClash hchecked hoverlay hclash with heq | htaken
    · exact hne heq
    · exact hfree htaken
  · intro hclash
    refine ⟨fun heq => hclash ?_, fun htaken => hclash ?_⟩
    · exact serverClash_of_conflict hchecked hoverlay hquic hmtls (.inl heq)
    · exact serverClash_of_conflict hchecked hoverlay hquic hmtls (.inr htaken)

theorem installPorts_conflict_free_iff_move : ∃ ports,
    installPorts atoi Sample.move true (some Sample.state) none (some Sample.server) =
      .ok (.nginx, ports) ∧
    ports .echoQuic ≠ ports .vpnQuic ∧
    ¬ ServerClash atoi Sample.move (some Sample.state) none .nginx (some Sample.server) := by
  have hok : ∃ ports, installPorts atoi Sample.move true (some Sample.state) none
      (some Sample.server) = .ok (.nginx, ports) ∧
      (ports .echoQuic ≠ ports .vpnQuic ∧ ports .mtls ∉ reserved .nginx) :=
    ⟨_, rfl, by decide, by decide⟩
  obtain ⟨ports, h, hfree⟩ := hok
  exact ⟨ports, h, hfree.1, (installPorts_conflict_free_iff _ _ _ _ _ _ _ _ h).1 hfree⟩

/-- After the update, both services are told to listen on one port. -/
theorem installPorts_same_port : ∃ ports,
    installPorts atoi Sample.update true (some Sample.state) none (some Sample.server) =
      .ok (.nginx, ports) ∧
    ports .echoQuic = ports .vpnQuic :=
  ⟨_, rfl, by decide⟩

end QuicLab.Scripts.Install
