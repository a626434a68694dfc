import Mathlib.Data.List.Basic
import QuicLab.Gateway.Server
import QuicLab.Guarded

/-!
# The configuration of the server

`serverConfig.validate` is what `-check-config` runs; among others it checks the list of
networks that clients may reach. The gateway reads that list when it starts
(`gateway.New`). The check parses a network by `net.ParseCIDR`, the gateway by
`netip.ParsePrefix`.

* `parseCIDR_eq_some_iff`: an address without a zone, and digits of a length that fits,
  leading zeros or not.
* `prefix_iff`: what the gateway accepts of it is what is spelled plainly, as an IPv4
  address and without leading zeros.
* `validate_iff_new`: the lists on which the check and the gateway agree.
-/

namespace QuicLab.ServerConfig

open Go Netip

/-! ## Networks -/

/-- The loop of `dtoi`, after `i` digits of the value `n`: the value, how many digits
    there are, and whether there is a number. -/
def dtoiLoop : Bytes → (n i : ℕ) → ℕ × ℕ × Bool
  | [], n, i => if i = 0 then (0, 0, false) else (n, i, true)
  | c :: s, n, i =>
    if isDigit c then
      if 0xffffff ≤ n * 10 + (c.toNat - 48) then (0xffffff, i, false)
      else dtoiLoop s (n * 10 + (c.toNat - 48)) (i + 1)
    else if i = 0 then (0, 0, false)
    else (n, i, true)

/-- `dtoi` of package `net`. -/
def dtoi (s : Bytes) : ℕ × ℕ × Bool := dtoiLoop s 0 0

/-- `Addr.Zone`. -/
def zone : Addr → Bytes
  | .v4 _ => []
  | .v6 _ z => z

/-- `net.ParseCIDR`: the address and the length. -/
def parseCIDR (s : Bytes) : Option (Addr × ℕ) :=
  match cut s (ascii '/') with
  | none => none
  | some (addr, mask) =>
    match parseAddr addr with
    | none => none
    | some ip =>
      if zone ip ≠ [] then none
      else
        match dtoi mask with
        | (n, i, ok) => if ¬ ok ∨ i ≠ mask.length ∨ ip.bitLen < n then none else some (ip, n)

/-- The value of digits. -/
def value (s : Bytes) : ℕ := s.foldl (fun n c => n * 10 + (c.toNat - 48)) 0

/-- The loop reads a whole text when it is made of digits, of a value that is not too
    big. -/
theorem dtoiLoop_eq_iff {s : Bytes} {n i m : ℕ} (hi : i + s.length ≠ 0) (hm : m < 0xffffff) :
    dtoiLoop s n i = (m, i + s.length, true) ↔
      (∀ c ∈ s, isDigit c = true) ∧ s.foldl (fun n c => n * 10 + (c.toNat - 48)) n = m := by
  induction s generalizing n i with
  | nil =>
    rw [List.length_nil, Nat.add_zero] at hi
    simp [dtoiLoop, hi]
  | cons c s ih =>
    rw [dtoiLoop, List.forall_mem_cons, List.foldl_cons, List.length_cons]
    have hle := le_foldl_digits s (n * 10 + (c.toNat - 48))
    by_cases hc : isDigit c = true
    · rw [if_pos hc]
      by_cases hbig : 0xffffff ≤ n * 10 + (c.toNat - 48)
      · rw [if_pos hbig]
        constructor
        · intro h
          cases h
        · rintro ⟨_, h⟩
          omega
      · rw [if_neg hbig, show i + (s.length + 1) = i + 1 + s.length by omega, ih (by omega)]
        simp [hc]
    · rw [if_neg hc]
      constructor
      · intro h
        split_ifs at h
        · exact absurd (congrArg (·.2.2) h) Bool.false_ne_true
        · have hcount : i = i + (s.length + 1) := congrArg (·.2.1) h
          omega
      · rintro ⟨⟨h, _⟩, _⟩
        exact absurd h hc

/-- What `ParseCIDR` accepts: an address without a zone, and digits of a length that
    fits. -/
theorem parseCIDR_eq_some_iff {s : Bytes} {ip : Addr} {n : ℕ} :
    parseCIDR s = some (ip, n) ↔ ∃ t ds, s = t ++ ascii '/' :: ds ∧ ascii '/' ∉ t ∧
      parseAddr t = some ip ∧ zone ip = [] ∧ ds ≠ [] ∧ (∀ c ∈ ds, isDigit c = true) ∧
      value ds = n ∧ n ≤ ip.bitLen := by
  have hbitLen : ∀ ip : Addr, ip.bitLen ≤ 128 := by
    intro ip
    cases ip with
    | v4 a => exact show 32 ≤ 128 by decide
    | v6 a z => exact le_refl 128
  -- The length is read as a whole.
  have hdtoi : ∀ {ds : Bytes} {n : ℕ}, n ≤ 128 → (dtoi ds = (n, ds.length, true) ↔
      ds ≠ [] ∧ (∀ c ∈ ds, isDigit c = true) ∧ value ds = n) := by
    intro ds n hn
    by_cases hds : ds = []
    · subst hds
      simp [dtoi, dtoiLoop]
    · have hlen : 0 + ds.length ≠ 0 := by simpa using hds
      have hloop := dtoiLoop_eq_iff (n := 0) (m := n) hlen (by omega)
      rw [Nat.zero_add] at hloop
      rw [dtoi, hloop]
      exact ⟨fun h => ⟨hds, h⟩, fun h => h.2⟩
  constructor
  · intro h
    by_cases hmem : ascii '/' ∈ s
    · obtain ⟨t, ds, rfl, ht⟩ := List.eq_append_cons_of_mem hmem
      rw [parseCIDR, cut_append ht] at h
      simp only at h
      split at h
      · cases h
      · rename_i ip' hip
        split_ifs at h with hzone hbad
        rw [not_or, not_or, not_not, not_not, not_lt] at hbad
        cases h
        obtain ⟨hok, hcount, hle⟩ := hbad
        refine ⟨t, ds, rfl, ht, hip, not_not.1 hzone, ?_⟩
        obtain ⟨hne, hall, hval⟩ := (hdtoi (hle.trans (hbitLen _))).1
          (Prod.ext rfl (Prod.ext hcount hok))
        exact ⟨hne, hall, hval, hle⟩
    · rw [parseCIDR, cut, if_neg hmem] at h
      cases h
  · rintro ⟨t, ds, rfl, ht, hip, hzone, hne, hall, hval, hle⟩
    have hd := (hdtoi (hle.trans (hbitLen _))).2 ⟨hne, hall, hval⟩
    simp [parseCIDR, cut_append ht, hip, hzone, hd, hle]

/-- The text is a network for the check: an IPv4 address, also mapped to IPv6, and
    digits of a length that fits. -/
def IsNetwork (s : Bytes) : Prop :=
  ∃ t ds ip, s = t ++ ascii '/' :: ds ∧ ascii '/' ∉ t ∧ parseAddr t = some ip ∧ zone ip = [] ∧
    isTo4 ip = true ∧ ds ≠ [] ∧ (∀ c ∈ ds, isDigit c = true) ∧ value ds ≤ ip.bitLen

/-- The address has no colon, as one mapped to IPv6 has, and the length no leading
    zero. -/
def Plain (s : Bytes) : Prop :=
  ascii ':' ∉ s ∧ ∀ t d, s = t ++ ascii '/' :: ascii '0' :: d → d = []

theorem isNetwork_iff {s : Bytes} : IsNetwork s ↔ ∃ ip n, parseCIDR s = some (ip, n) ∧
    isTo4 ip = true := by
  constructor
  · rintro ⟨t, ds, ip, hs, ht, hip, hzone, h4, hne, hall, hle⟩
    exact ⟨ip, value ds, parseCIDR_eq_some_iff.2 ⟨t, ds, hs, ht, hip, hzone, hne, hall, rfl, hle⟩, h4⟩
  · rintro ⟨ip, n, h, h4⟩
    obtain ⟨t, ds, hs, ht, hip, hzone, hne, hall, rfl, hle⟩ := parseCIDR_eq_some_iff.1 h
    exact ⟨t, ds, ip, hs, ht, hip, hzone, h4, hne, hall, hle⟩

/-- The gateway accepts the networks that are spelled plainly. -/
theorem prefix_iff {s : Bytes} : (∃ p, parsePrefix s = some p ∧ p.addr.is4 = true) ↔
    IsNetwork s ∧ Plain s := by
  constructor
  · rintro ⟨p, hp, h4⟩
    obtain ⟨a, ha⟩ := Addr.exists_v4 h4
    obtain rfl := (Prefix.parsePrefix_eq_v4_iff ha).1 hp
    have hbits : p.bits ≤ 32 := by
      have hle := p.bits_le
      rwa [ha] at hle
    have hslash : ascii '/' ∉ (Addr.v4 a).string := fun hmem => by
      rcases Addr.mem_string_v4 hmem with h | h <;> exact absurd h (by decide)
    refine ⟨⟨(Addr.v4 a).string, decimal p.bits, .v4 a, ?_, hslash, parseAddr_eq_v4_iff.2 rfl, rfl,
      rfl, decimal_ne_nil _, fun c => isDigit_of_mem_decimal, ?_⟩, ?_, fun t d h => ?_⟩
    · rw [Prefix.string, ha]
    · rw [value, foldl_decimal]
      exact hbits
    · intro hmem
      rcases Prefix.mem_string_v4 ha hmem with h | h | h <;> exact absurd h (by decide)
    · rw [Prefix.string, ha] at h
      have hdigits : ascii '/' ∉ decimal p.bits := fun hmem =>
        absurd (isDigit_of_mem_decimal hmem) (by decide)
      obtain ⟨_, _, hd⟩ := (List.append_cons_inj_of_notMem hslash hdigits).1 h
      by_contra hne
      refine Prefix.decimal_lead hbits ⟨?_, ?_⟩
      · rw [hd, List.length_cons]
        have := List.length_pos_iff.2 hne
        omega
      · rw [hd]
        exact show ¬ (49 ≤ (ascii '0').toNat && (ascii '0').toNat ≤ 57) = true by decide
  · rintro ⟨⟨t, ds, ip, rfl, ht, hip, hzone, h4, hne, hall, hle⟩, hcolon, hzero⟩
    have hcolon' : ascii ':' ∉ t := fun h => hcolon (List.mem_append_left _ h)
    obtain ⟨a, rfl⟩ := Addr.exists_v4 (is4_of_parseAddr hip hcolon')
    have hlead : ds.length = 1 ∨ ds.head? ≠ some (ascii '0') := by
      by_cases hhead : ds.head? = some (ascii '0')
      · obtain ⟨d, rfl⟩ := List.head?_eq_some_iff.1 hhead
        rw [hzero t d rfl]
        exact .inl rfl
      · exact .inr hhead
    have hds : decimal (value ds) = ds := decimal_foldl hne hall hlead
    refine ⟨⟨.v4 a, value ds, hle⟩, (Prefix.parsePrefix_eq_v4_iff rfl).2 ?_, rfl⟩
    rw [Prefix.string, hds, parseAddr_eq_v4_iff.1 hip]

/-! ## The check -/

/-- A `serverConfig`. -/
structure Config where
  listen : Bytes
  cert : Bytes
  key : Bytes
  ephemeralCert : Bool
  tlsFallback : Bytes
  tlsHost : Bytes
  httpsListen : Bytes
  webListen : Bytes
  gatewayQUIC : Bytes
  gatewayHTTPS : Bytes
  clientCA : Bytes
  gatewayAllow : Bytes
  demoListen : Bytes
  adminConfig : Bytes

/-- An error of the check: the name of a setting with its error, or a text. -/
inductive ConfigError
  | setting (name : String) (e : Error)
  | new (text : String)

/-- A setting that is refused. -/
def refuse (bad : Prop) [Decidable bad] (text : String) : Except ConfigError Unit :=
  if bad then .error (.new text) else .ok ()

/-- `net.IP.IsUnspecified`: 0.0.0.0, also mapped to IPv6, or ::. -/
def isUnspecified : Addr → Bool
  | .v4 a => a = 0
  | .v6 a _ => a = 0 || a.toNat = 0xffff * 2 ^ 32

/-- `validateAddress`. -/
def validateAddress (value : Bytes) (backend : Bool) : Except Error Unit :=
  match splitHostPort value with
  | none => .error (.sys "address")
  | some (h, p) =>
    if ¬ (atoi p).any fun port => 1 ≤ port ∧ port ≤ 65535 then
      .error (.new "port must be 1..65535")
    else if backend ∧ (h = [] ∨ (∃ c ∈ str " /\\", c ∈ h) ∨ (parseIP h).any isUnspecified) then
      .error (.new "backend requires a concrete IP or DNS hostname")
    else .ok ()

namespace Config

variable (c : Config)

/-- The addresses to listen on, by the names of their settings. -/
def listeners : List (String × Bytes) :=
  [("listen", c.listen), ("https_listen", c.httpsListen), ("web_listen", c.webListen),
    ("gateway_quic", c.gatewayQUIC), ("gateway_https", c.gatewayHTTPS),
    ("demo_listen", c.demoListen)]

/-- The check of an address under the name of its setting. -/
def checkAddress (name : String) (value : Bytes) (backend : Bool) : Except ConfigError Unit :=
  match validateAddress value backend with
  | .ok () => .ok ()
  | .error e => .error (.setting name e)

/-- The loop over the addresses. -/
def checkListeners : List (String × Bytes) → Except ConfigError Unit
  | [] => .ok ()
  | (name, addr) :: rest => do
    if addr ≠ [] then checkAddress name addr false
    checkListeners rest

/-- The checks of the certificate. -/
def checkCertificate : Except ConfigError Unit :=
  if c.ephemeralCert then refuse (c.cert ≠ [] ∨ c.key ≠ []) "ephemeral_cert conflicts with cert/key"
  else refuse (c.cert = [] ∨ c.key = []) "cert and key are required"

/-- The checks of the TLS fallback. -/
def checkFallback : Except ConfigError Unit :=
  if c.tlsFallback ≠ [] then do
    refuse (c.httpsListen = [] ∨ c.tlsHost = [] ∨ ∃ x ∈ str "/ :", x ∈ c.tlsHost)
      "tls_fallback requires https_listen and a valid tls_host"
    checkAddress "tls_fallback" c.tlsFallback true
    refuse (c.tlsFallback = c.httpsListen) "tls_fallback points to the public listener"
  else .ok ()

/-- The loop over the networks. -/
def checkAllow : List Bytes → Except ConfigError Unit
  | [] => .ok ()
  | cidr :: rest =>
    if ¬ (parseCIDR (trimSpace cidr)).any fun r => isTo4 r.1 then
      .error (.new "gateway_allow requires IPv4 CIDRs")
    else checkAllow rest

/-- The checks of the gateway. -/
def checkGateway : Except ConfigError Unit :=
  if c.gatewayQUIC ≠ [] ∨ c.gatewayHTTPS ≠ [] then do
    refuse (c.gatewayAllow = []) "gateway_allow is required"
    checkAllow (split c.gatewayAllow (ascii ','))
    refuse (c.clientCA = [] ∧ c.adminConfig = []) "gateway requires client_ca or admin_config"
  else .ok ()

/-- `serverConfig.validate`; the addresses are checked in the order `order`, in which a
    map is iterated. -/
def validate (order : List (String × Bytes)) : Except ConfigError Unit := do
  checkListeners order
  refuse (c.listen = []) "listen cannot be empty"
  c.checkCertificate
  c.checkFallback
  c.checkGateway

/-- The networks of the list. -/
def networks : List Bytes := (split c.gatewayAllow (ascii ',')).map trimSpace

variable {c}

theorem checkAllow_eq_ok_iff {l : List Bytes} :
    checkAllow l = .ok () ↔ ∀ s ∈ l.map trimSpace, IsNetwork s := by
  induction l with
  | nil => simp [checkAllow]
  | cons cidr l ih =>
    have hcidr : ((parseCIDR (trimSpace cidr)).any fun r => isTo4 r.1) = true ↔
        IsNetwork (trimSpace cidr) := by
      rw [isNetwork_iff, Option.any_eq_true]
      simp only [Prod.exists]
    rw [checkAllow, List.map_cons, List.forall_mem_cons, ← hcidr, ← ih]
    split_ifs with h
    · exact ⟨fun h' => ⟨h, h'⟩, fun h' => h'.2⟩
    · exact ⟨(fun h' => by cases h'), fun h' => absurd h'.1 h⟩

theorem refuse_eq_ok_iff {bad : Prop} [Decidable bad] {text : String} :
    refuse bad text = .ok () ↔ ¬ bad := by
  rw [refuse]
  split_ifs with h
  · exact ⟨(fun h' => by cases h'), fun h' => absurd h h'⟩
  · exact ⟨fun _ => h, fun _ => rfl⟩

/-- Two checks in sequence. -/
theorem check_bind_eq_ok_iff {r r' : Except ConfigError Unit} :
    (r >>= fun _ => r') = .ok () ↔ r = .ok () ∧ r' = .ok () := by
  rw [bind_eq_ok_iff]
  exact ⟨fun ⟨_, h⟩ => h, fun h => ⟨(), h⟩⟩

theorem checkGateway_eq_ok_iff (hlistener : c.gatewayQUIC ≠ [] ∨ c.gatewayHTTPS ≠ []) :
    c.checkGateway = .ok () ↔ (∀ s ∈ c.networks, IsNetwork s) ∧
      ¬ (c.clientCA = [] ∧ c.adminConfig = []) := by
  have hempty : (∀ s ∈ c.networks, IsNetwork s) → c.gatewayAllow ≠ [] := by
    intro h hallow
    obtain ⟨t, ds, ip, hs, _⟩ := h [] (by rw [networks, hallow]; decide)
    cases t <;> cases hs
  rw [checkGateway, if_pos hlistener, check_bind_eq_ok_iff, check_bind_eq_ok_iff, refuse_eq_ok_iff,
    refuse_eq_ok_iff, checkAllow_eq_ok_iff]
  exact ⟨fun h => h.2, fun h => ⟨hempty h.1, h⟩⟩

theorem validate_eq_ok_iff {order : List (String × Bytes)} : c.validate order = .ok () ↔
    (checkListeners order = .ok () ∧ c.listen ≠ [] ∧ c.checkCertificate = .ok () ∧
      c.checkFallback = .ok ()) ∧ c.checkGateway = .ok () := by
  rw [validate, check_bind_eq_ok_iff, check_bind_eq_ok_iff, check_bind_eq_ok_iff,
    check_bind_eq_ok_iff, refuse_eq_ok_iff]
  tauto

end Config

theorem parseAllowed_eq_ok_iff {v : Bytes} : (∃ p, Gateway.Server.parseAllowed v = .ok p) ↔
    IsNetwork (trimSpace v) ∧ Plain (trimSpace v) := by
  rw [← prefix_iff, Gateway.Server.parseAllowed]
  cases parsePrefix (trimSpace v) with
  | none => simp
  | some p => by_cases h : p.addr.is4 = true <;> simp [h]

theorem parseAllowedList_eq_ok_iff {vs : List Bytes} {allowed : List Prefix} :
    (∃ l, Gateway.Server.parseAllowedList vs allowed = .ok l) ↔
      ∀ s ∈ vs.map trimSpace, IsNetwork s ∧ Plain s := by
  induction vs generalizing allowed with
  | nil => simp [Gateway.Server.parseAllowedList]
  | cons v vs ih =>
    rw [List.map_cons, List.forall_mem_cons, ← parseAllowed_eq_ok_iff,
      Gateway.Server.parseAllowedList]
    cases Gateway.Server.parseAllowed v with
    | error e => simp
    | ok p =>
      rw [ih]
      simp

/-- The gateway starts when all networks are spelled plainly. -/
theorem new_eq_ok_iff {c : Config} : (∃ s, Gateway.Server.new c.gatewayAllow = .ok s) ↔
    ∀ s ∈ c.networks, IsNetwork s ∧ Plain s := by
  rw [Config.networks, ← @parseAllowedList_eq_ok_iff _ [], Gateway.Server.new]
  cases Gateway.Server.parseAllowedList (split c.gatewayAllow (ascii ',')) [] <;> simp

/-- A list of networks that the gateway accepts passes the check. The check and the
    gateway agree on it unless all of it are networks for the check, and some of them are
    not spelled plainly: an IPv4 address mapped to IPv6, or a length with leading
    zeros. -/
theorem validate_iff_new {c : Config} {order : List (String × Bytes)}
    (hlistener : c.gatewayQUIC ≠ [] ∨ c.gatewayHTTPS ≠ [])
    (hrest : ∃ allow, ({ c with gatewayAllow := allow } : Config).validate order = .ok ()) :
    ((∃ s, Gateway.Server.new c.gatewayAllow = .ok s) → c.validate order = .ok ()) ∧
    ((c.validate order = .ok () ↔ ∃ s, Gateway.Server.new c.gatewayAllow = .ok s) ↔
      (∃ s ∈ c.networks, ¬ IsNetwork s) ∨ ∀ s ∈ c.networks, Plain s) := by
  obtain ⟨allow, hallow⟩ := hrest
  obtain ⟨hothers, hgateway⟩ := Config.validate_eq_ok_iff.1 hallow
  have hca := ((Config.checkGateway_eq_ok_iff
    (c := { c with gatewayAllow := allow }) hlistener).1 hgateway).2
  have hvalidate : c.validate order = .ok () ↔ ∀ s ∈ c.networks, IsNetwork s := by
    rw [Config.validate_eq_ok_iff, Config.checkGateway_eq_ok_iff hlistener]
    exact ⟨fun h => h.2.1, fun h => ⟨hothers, h, hca⟩⟩
  rw [hvalidate, new_eq_ok_iff]
  refine ⟨fun h s hs => (h s hs).1, ?_⟩
  constructor
  · intro h
    by_cases hall : ∀ s ∈ c.networks, IsNetwork s
    · exact .inr fun s hs => (h.1 hall s hs).2
    · push Not at hall
      exact .inl hall
  · rintro (⟨s, hs, hbad⟩ | hplain)
    · exact ⟨fun h => absurd (h s hs) hbad, fun h => absurd (h s hs).1 hbad⟩
    · exact ⟨fun h s hs => ⟨h s hs, hplain s hs⟩, fun h s hs => (h s hs).1⟩

namespace Sample

/-- A server with a gateway that clients of the admin configuration may use, to reach the
    networks given. -/
def config (allow : Bytes) : Config where
  listen := str "127.0.0.1:4433"
  cert := []
  key := []
  ephemeralCert := true
  tlsFallback := []
  tlsHost := []
  httpsListen := []
  webListen := []
  gatewayQUIC := str ":4443"
  gatewayHTTPS := []
  clientCA := []
  gatewayAllow := allow
  demoListen := []
  adminConfig := str "admin.json"

end Sample

/-- The list `10.0.0.0/8` passes both. -/
theorem validate_iff_new_plain :
    (Sample.config (str "10.0.0.0/8")).validate (Sample.config []).listeners = .ok () ∧
      ∃ s, Gateway.Server.new (str "10.0.0.0/8") = .ok s := by
  have hvalid : (Sample.config (str "10.0.0.0/8")).validate (Sample.config []).listeners = .ok () :=
    rfl
  have hiff := (@validate_iff_new (Sample.config (str "10.0.0.0/8")) (Sample.config []).listeners
    (.inl (by decide)) ⟨str "10.0.0.0/8", hvalid⟩).2
  refine ⟨hvalid, (hiff.2 (.inr fun s hs => ?_)).1 hvalid⟩
  obtain rfl : s = str "10.0.0.0/8" := List.mem_singleton.1 hs
  exact (prefix_iff.1 ⟨⟨.v4 0x0a000000, 8, by decide⟩, by decide, rfl⟩).2

/-- The list `10.0.0.0/08` passes the check, and the gateway refuses it. -/
theorem validate_leading_zero :
    (Sample.config (str "10.0.0.0/08")).validate (Sample.config []).listeners = .ok () ∧
      ¬ ∃ s, Gateway.Server.new (str "10.0.0.0/08") = .ok s := by
  refine ⟨rfl, ?_⟩
  rintro ⟨s, hs⟩
  cases hs

end QuicLab.ServerConfig
