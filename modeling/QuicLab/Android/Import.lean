import QuicLab.Admin.Profile
import QuicLab.Android.ProfileImport

/-!
# Issued profiles and their import

Which of the profiles the admin server issues the app accepts.
-/

namespace QuicLab.Android

open Go Kotlin Admin

/-! ## Names and endpoints -/

section Texts

variable (P : Platform)

/-- A name is ASCII, and is the same text in the app. -/
theorem isName_decode (s : Bytes) :
    isName ((P.decode s).map UInt16.toNat) = isName (s.map UInt8.toNat) := by
  have hchar : ∀ n, 128 ≤ n → isNameChar n = false := by
    intro n hn
    simp only [isNameChar, Bool.or_eq_false_iff, Bool.and_eq_false_iff, decide_eq_false_iff_not]
    omega
  by_cases hascii : ∀ c ∈ s, isAscii c = true
  · rw [P.decode_transparent.of_ascii hascii, List.map_map]
    exact congrArg isName (List.map_congr_left fun c _ => toNat_unit c)
  · push Not at hascii
    obtain ⟨c, hc, hhigh⟩ := hascii
    rw [ne_eq, Bool.not_eq_true] at hhigh
    obtain ⟨u, hu, hu'⟩ := P.decode_transparent.exists_high hc hhigh
    have hfalse : ∀ {l : List ℕ} {n : ℕ}, n ∈ l → 128 ≤ n → isName l = false := by
      intro l n hn hn'
      refine decide_eq_false fun hname => ?_
      have htrue := List.all_eq_true.1 hname.2.2 n hn
      rw [hchar n hn'] at htrue
      cases htrue
    rw [hfalse (List.mem_map_of_mem hu) hu',
      hfalse (List.mem_map_of_mem hc) (not_lt.1 (of_decide_eq_false hhigh))]

/-- What the app says about an endpoint of the server's configuration. -/
theorem isEndpoint_iff {v : Bytes} (hv : isHostPort v = true) :
    isEndpoint P (P.decode v) = true ↔
      isName ((v.takeWhile (· ≠ ascii ':')).map UInt8.toNat) = true := by
  have hcolon : isAscii (ascii ':') = true := by decide
  obtain ⟨⟨host, port⟩, hsplit, hok⟩ := (Option.any_eq_true _ _).1 hv
  obtain ⟨hhost, hlo, hhi⟩ := of_decide_eq_true hok
  obtain ⟨l, hl⟩ := splitOn_head v (ascii ':')
  have hpieces := P.splitOn_decode hcolon v
  rw [hl, List.map_cons] at hpieces
  rw [isEndpoint, hpieces]
  simp only [List.getD_cons_zero, List.getD_cons_succ, List.length_cons, List.length_map,
    isName_decode, decide_eq_true_eq]
  refine ⟨fun h => h.2.1, fun hname => ?_⟩
  rcases splitHostPort_eq_some_iff.1 hsplit with hplain | hbracket
  · rw [hplain.eq, splitOn_append_cons, splitOn_of_notMem hplain.colon,
      splitOn_of_notMem hplain.port, List.singleton_append, List.cons.injEq] at hl
    have hport : P.toIntOrNull (P.decode port) = some ((atoi port).getD 0) := by
      cases hn : atoi port with
      | none =>
        rw [hn, Option.getD_none] at hlo
        exact absurd hlo (by decide)
      | some n =>
        rw [hn, Option.getD_some] at hlo hhi
        rw [Option.getD_some]
        exact P.toIntOrNull_of_atoi hn (by omega) (by omega)
    rw [← hl.2]
    simp only [List.map_cons, List.map_nil, List.getD_cons_zero, hport, Option.getD_some]
    exact ⟨rfl, hname, hlo, hhi⟩
  · -- A bracket is not in a name.
    have htake : v.takeWhile (· ≠ ascii ':') =
        ascii '[' :: (host ++ ascii ']' :: ascii ':' :: port).takeWhile (· ≠ ascii ':') := by
      rw [hbracket.eq]
      exact List.takeWhile_cons_of_pos (by decide)
    rw [htake, isName, decide_eq_true_eq, List.map_cons, List.all_cons, Bool.and_eq_true] at hname
    exact absurd hname.2.2.1 (by decide)

/-- The app accepts the endpoint of a valid transit tunnel. -/
theorem isEndpoint_transit {t : Transit.Config} (h : t.validate = none) :
    isEndpoint P (P.decode t.endpoint) = true := by
  rw [Transit.Config.validate] at h
  split_ifs at h with _ hep
  obtain ⟨⟨ip, n⟩, hparse, hok⟩ := (Option.any_eq_true _ _).1 hep
  rw [Bool.and_eq_true, decide_eq_true_eq] at hok
  obtain ⟨a, rfl⟩ := Netip.Addr.exists_v4 hok.1
  obtain ⟨port, hs, hport⟩ := parseAddrPort_v4 hparse
  obtain ⟨hne, hdigits, hvalue, hlt⟩ := parseUint_some hport
  have haddr : ∀ {c}, isDigit c = false → c ≠ ascii '.' → c ∉ (Netip.Addr.v4 a).string := by
    intro c hc hdot hmem
    rcases Netip.Addr.mem_string_v4 hmem with hd | hd
    · rw [hc] at hd
      cases hd
    · exact hdot hd
  have hport' : ∀ {c}, isDigit c = false → c ∉ port := by
    intro c hc hmem
    rw [hdigits c hmem] at hc
    cases hc
  have hsplit : splitHostPort t.endpoint = some ((Netip.Addr.v4 a).string, port) := by
    refine splitHostPort_eq_some_iff.2 (.inl ⟨hs, haddr (by decide) (by decide),
      hport' (by decide), ?_, ?_⟩)
    all_goals
      rw [hs, List.mem_append, List.mem_cons, not_or, not_or]
      exact ⟨haddr (by decide) (by decide), by decide, hport' (by decide)⟩
  have hatoi : atoi port = some (n : ℤ) := by
    rw [atoi_digits hne hdigits, hvalue, if_pos (hlt.trans (by decide))]
  have hhostport : isHostPort t.endpoint = true := by
    rw [isHostPort, hsplit, Option.any_some, hatoi, Option.getD_some, decide_eq_true_eq]
    exact ⟨Netip.Addr.string_v4_ne_nil a, by omega, by omega⟩
  rw [isEndpoint_iff P hhostport, hs, takeWhile_ne_append (haddr (by decide) (by decide)), isName,
    decide_eq_true_eq, List.length_map]
  have hlen := Netip.Addr.length_string_v4_le a
  refine ⟨List.length_pos_iff.2 (Netip.Addr.string_v4_ne_nil a), by omega, ?_⟩
  rw [List.all_map, List.all_eq_true]
  intro c hc
  rw [Function.comp_apply]
  rcases Netip.Addr.mem_string_v4 hc with hd | rfl
  · rw [isDigit_iff] at hd
    simp [isNameChar, hd]
  · decide

theorem isAscii_of_isGraphic {c : UInt8} (h : isGraphic c = true) : isAscii c = true := by
  rw [isGraphic, Bool.and_eq_true, decide_eq_true_eq, decide_eq_true_eq] at h
  exact decide_eq_true (by omega)

end Texts

/-! ## AWG -/

section AWG

open AwgServer

variable (P : Platform)

/-- An endpoint is as valid after its way through the app. -/
theorem validEndpoint_wire {endpoint host port : Bytes} {n : ℤ}
    (h : ValidEndpoint endpoint host port n) :
    ValidEndpoint (P.wire endpoint) (P.wire host) port n := by
  have hport : P.wire port = port :=
    P.wire_ascii fun c hc => isAscii_of_isGraphic (h.plain_port.graphic c hc)
  have hsep : isAscii (ascii ':') = true ∧ isAscii (ascii '[') = true ∧
      isAscii (ascii ']') = true := by decide
  refine ⟨splitHostPort_eq_some_iff.2 ?_, h.atoi, P.wire_transparent.ne_nil h.ne_nil, ?_, h.range⟩
  · rcases splitHostPort_eq_some_iff.1 h.split with hs | hs
    · refine .inl ⟨?_, ?_, hs.port, ?_, ?_⟩
      · rw [hs.eq, P.wire_append_cons host hsep.1, hport]
      · rw [P.mem_wire hsep.1]
        exact hs.colon
      · rw [P.mem_wire hsep.2.1]
        exact hs.opened
      · rw [P.mem_wire hsep.2.2]
        exact hs.closed
    · refine .inr ⟨?_, hs.colon, ?_, ?_⟩
      · have hcolon := P.wire_append_cons [] hsep.1 port
        have hopen := P.wire_append_cons [] hsep.2.1 (host ++ ascii ']' :: ascii ':' :: port)
        rw [show P.wire [] = [] from P.wire_transparent.nil, List.nil_append,
          List.nil_append] at hcolon hopen
        rw [hs.eq, hopen, P.wire_append_cons host hsep.2.2, hcolon, hport]
      · rw [List.mem_append, P.mem_wire hsep.2.1, ← List.mem_append]
        exact hs.opened
      · rw [List.mem_append, P.mem_wire hsep.2.2, ← List.mem_append]
        exact hs.closed
  · have hascii : ∀ c ∈ str "\r\n\t ;#", isAscii c = true := by decide
    rw [List.any_eq_true]
    rintro ⟨c, hc, hmem⟩
    rw [P.mem_wire (hascii c (of_decide_eq_true hmem))] at hc
    exact h.graphic (List.any_eq_true.2 ⟨c, hc, hmem⟩)

variable {c : AwgServer.Config} {dns : BitVec 32} {allowed : List Netip.Prefix}
  (hc : c.Checked dns allowed) {i : Identity} {server : Key}
  (hi : i.publicKey = base64Encode server) {p : Peer} {privateKey psk : Key} {address : BitVec 32}
  (hpriv : p.privateKey = base64Encode privateKey) (hpsk : p.psk = base64Encode psk)
  (haddr : p.address = (Netip.Addr.v4 address).string)

include hc in
theorem checked_wire : Config.Checked { c with endpoint := P.wire c.endpoint } dns allowed := by
  obtain ⟨host, port, n, hendpoint⟩ := Config.exists_validEndpoint hc.endpoint
  have hwire := validEndpoint_wire P hendpoint
  refine { hc with endpoint := ?_ }
  rw [Config.validEndpoint, hwire.split]
  simp only [hwire.atoi]
  exact decide_eq_true ⟨hwire.ne_nil, hwire.graphic, hwire.range⟩

include hc hi hpriv hpsk haddr in
/-- The text of a client after its way through the app. -/
theorem wire_client : P.wire (c.client i p) =
    ({ c with endpoint := P.wire c.endpoint } : AwgServer.Config).client i p := by
  have hhead : ∀ x ∈ c.clientHead i p, isAscii x = true := by
    intro x hx
    rcases clientHead_ascii hc hi hpriv hpsk haddr x hx with hg | rfl | rfl
    · exact isAscii_of_isGraphic hg
    · decide
    · decide
  have htail : ∀ x ∈ str "\nPersistentKeepalive = 25\n", isAscii x = true := by decide +kernel
  have hend := P.wire_transparent.append_ascii c.endpoint htail
  rw [List.map_id] at hend
  rw [Config.client_eq_append, Config.client_eq_append, P.wire_ascii_append hhead]
  exact congrArg _ hend

end AWG

/-! ## Reading a profile back -/

/-- A profile as the app receives it. -/
def received (P : Platform) (p : Profile) : JSONObject := p.json.map P.decode

section Received

variable (P : Platform) (p : Profile) (name : String)

theorem lookup_received :
    (received P p).lookup name = (p.members.lookup name).join.map (Json.map P.decode) := by
  have hnames : (p.members.map (·.1)).Nodup := by
    simp only [Profile.members, List.map_cons, List.map_nil]
    decide
  rw [received, Json.Object.lookup_map, Profile.json, Json.lookup_object hnames]

/-- A string that may be omitted. -/
theorem getString_received {s : Bytes}
    (h : p.members.lookup name = some (Json.omitEmpty (.string s))) :
    Guarded (s ≠ []) (P.decode s) ((received P p).getString name) := by
  rw [JSONObject.getString, lookup_received, h, Option.join_some, Json.omitEmpty]
  by_cases hs : s = []
  · rw [if_pos hs]
    exact ⟨fun hne => absurd hs hne, fun _ => ⟨_, rfl⟩⟩
  · rw [if_neg hs]
    exact ⟨fun _ => rfl, fun hn => absurd hs hn⟩

theorem optString_received {s : Bytes}
    (h : p.members.lookup name = some (Json.omitEmpty (.string s))) (fallback : Text) :
    (received P p).optString name fallback = if s = [] then fallback else P.decode s := by
  rw [JSONObject.optString, lookup_received, h, Option.join_some, Json.omitEmpty]
  by_cases hs : s = []
  · rw [if_pos hs, if_pos hs]
    rfl
  · rw [if_neg hs, if_neg hs]
    rfl

theorem optInt_received {n : ℤ} (h : p.members.lookup name = some (Json.omitEmpty (.int n))) :
    (received P p).optInt name 0 = n := by
  rw [JSONObject.optInt, lookup_received, h, Option.join_some, Json.omitEmpty]
  by_cases hn : n = 0
  · rw [if_pos hn, hn]
    rfl
  · rw [if_neg hn]
    rfl

/-- The check of an endpoint. -/
theorem guarded_endpoint {s : Bytes}
    (h : p.members.lookup name = some (Json.omitEmpty (.string s))) :
    Guarded (s ≠ [] ∧ isEndpoint P (P.decode s) = true) ()
      (ProfileImport.endpoint P (received P p) name) :=
  (getString_received P p name h).bind fun _ => guarded_require _ _

/-- The check of the certificate and the key. -/
theorem guarded_identity (message : Text) :
    Guarded ((p.certificate ≠ [] ∧ (P.decode p.certificate).length < 16000) ∧ p.key ≠ [] ∧
        (P.decode p.key).length < 8000) ()
      (ProfileImport.shortIdentity (received P p) >>= fun short =>
        require (short = true) message) := by
  have hcert := getString_received P p "certificate" rfl
  have hkey := getString_received P p "key" rfl
  rw [ProfileImport.shortIdentity, and_assoc, bind_assoc]
  refine hcert.bind fun _ => ?_
  by_cases hlen : (P.decode p.certificate).length < 16000
  · rw [if_pos hlen, bind_assoc]
    refine (hkey.bind fun _ => ?_).congr (and_iff_right hlen).symm
    rw [ok_bind]
    exact (guarded_require _ message).congr decide_eq_true_iff
  · rw [if_neg hlen, ok_bind]
    exact (guarded_require _ message).congr ⟨fun h => absurd h (by decide), fun h => absurd h.1 hlen⟩

/-- The checks of a VPN profile, for the protocols `ts`. -/
theorem guarded_validateVPN {ts : List Bytes}
    (hts : ProfileImport.transports (received P p) = .ok (ts.map P.decode)) :
    Guarded
      ((P.isBlank (P.decode p.transitEndpoint) = false →
          isEndpoint P (P.decode p.transitEndpoint) = true) ∧
        (ProfileImport.quic ∈ ts.map P.decode →
          p.quic ≠ [] ∧ isEndpoint P (P.decode p.quic) = true) ∧
        (ProfileImport.https ∈ ts.map P.decode →
          p.https ≠ [] ∧ isEndpoint P (P.decode p.https) = true) ∧
        (ProfileImport.awg ∈ ts.map P.decode →
          p.awgConfig ≠ [] ∧ ∃ config, Awg.parse (P.wire p.awgConfig) = .ok config) ∧
        (p.mode = 0 ∨ p.mode = 3) ∧
        (p.mode = 3 → p.routes ≠ [] ∧ ∃ r, VpnRoutes.parse P (P.decode p.routes) = .ok r) ∧
        (∃ r, VpnRoutes.parse P ((if p.dns = [] then txt "1.1.1.1" else P.decode p.dns) ++
          txt "/32") = .ok r) ∧
        ((∃ t ∈ ts.map P.decode, t ≠ ProfileImport.awg) →
          (p.certificate ≠ [] ∧ (P.decode p.certificate).length < 16000) ∧ p.key ≠ [] ∧
            (P.decode p.key).length < 8000)) ()
      (ProfileImport.validateVPN P (received P p)) := by
  have htransit : (received P p).optString "transit_endpoint" [] = P.decode p.transitEndpoint := by
    rw [optString_received P p "transit_endpoint" rfl]
    split_ifs with h
    · rw [h]
      exact P.decode_transparent.nil.symm
    · rfl
  have hmode : (received P p).optInt "mode" 0 = p.mode := optInt_received P p "mode" rfl
  have hdns := optString_received P p "dns" rfl (txt "1.1.1.1")
  have hblank : Guarded (P.isBlank (P.decode p.transitEndpoint) = false →
      isEndpoint P (P.decode p.transitEndpoint) = true) ()
      (whenever (!P.isBlank (P.decode p.transitEndpoint))
        (ProfileImport.endpoint P (received P p) "transit_endpoint")) := by
    refine (guarded_whenever fun _ => guarded_endpoint P p _ rfl).congr ?_
    rw [Bool.not_eq_true']
    refine forall_congr' fun hb => and_iff_right ?_
    intro hnil
    rw [hnil, P.decode_transparent.nil] at hb
    cases hb
  have hawg : Guarded (p.awgConfig ≠ [] ∧ ∃ config, Awg.parse (P.wire p.awgConfig) = .ok config) ()
      ((received P p).getString "awg_config" >>= ProfileImport.validateAWGConfig P) := by
    refine (getString_received P p _ rfl).bind fun _ => ?_
    rw [ProfileImport.validateAWGConfig, ← Platform.wire]
    cases Awg.parse (P.wire p.awgConfig) with
    | ok config => exact (Guarded.pure ()).congr ⟨fun _ => ⟨config, rfl⟩, fun _ => trivial⟩
    | error e =>
      refine ⟨fun hok => ?_, fun _ => ⟨_, rfl⟩⟩
      obtain ⟨_, hok⟩ := hok
      cases hok
  have hroutes : Guarded (p.routes ≠ [] ∧ ∃ r, VpnRoutes.parse P (P.decode p.routes) = .ok r) ()
      ((received P p).getString "routes" >>= fun routes => VpnRoutes.parse P routes >>= fun _ =>
        .ok ()) :=
    (getString_received P p _ rfl).bind fun _ =>
      (Guarded.bind_of fun _ _ => Guarded.pure ()).congr (and_iff_left trivial)
  rw [ProfileImport.validateVPN, hts, ok_bind, htransit, hmode, hdns]
  exact hblank.bind fun _ =>
    (guarded_whenever fun _ => guarded_endpoint P p _ rfl).bind fun _ =>
    (guarded_whenever fun _ => guarded_endpoint P p _ rfl).bind fun _ =>
    (guarded_whenever fun _ => hawg).bind fun _ => (guarded_require _ _).bind fun _ =>
    (guarded_whenever fun _ => hroutes).bind fun _ => Guarded.bind_of fun _ _ =>
    guarded_whenever fun _ => guarded_identity P p _

/-- The checks of a profile of kind `vpn`. -/
theorem guarded_validate (capture : JSONObject → Option Error)
    (hversion : p.version = 1 ∨ p.version = 2) (hkind : p.kind = str "vpn") {ok : Prop}
    (h : Guarded ok () (ProfileImport.validateVPN P (received P p))) :
    Guarded (isName (p.hostname.map UInt8.toNat) = true ∧ ok) (txt "vpn")
      (ProfileImport.validate P capture (received P p)) := by
  have hv : (received P p).getInt "version" = .ok p.version := by
    rw [JSONObject.getInt, lookup_received]
    rfl
  have hk : (received P p).getString "kind" = .ok (txt "vpn") := by
    have hdecode : P.decode (str "vpn") = txt "vpn" := P.decode_transparent.of_ascii (by decide)
    rw [JSONObject.getString, lookup_received, ← hdecode, ← hkind]
    rfl
  have hhost : (received P p).getString "hostname" = .ok (P.decode p.hostname) := by
    rw [JSONObject.getString, lookup_received]
    rfl
  have hcapture : txt "vpn" ≠ txt "capture" := by decide
  have hecho : txt "vpn" ≠ txt "echo" := by decide
  rw [ProfileImport.validate, hv, ok_bind, require_of hversion, ok_bind, hk, ok_bind,
    if_neg hcapture, require_of (.inr rfl), ok_bind, hhost, ok_bind, if_neg hecho, isName_decode]
  exact (guarded_require _ _).bind fun _ =>
    (h.bind (f := fun _ => .ok (txt "vpn")) fun _ => Guarded.pure _).congr (and_iff_left trivial)

end Received

/-! ## Protocols -/

section Protocols

variable (P : Platform)

/-- The protocols of a user, as the app lists them. -/
def protocols (u : User) : List Bytes := u.protocols.getD [str "quic", str "https"]

theorem allows_iff {u : User} {t : Bytes} : u.allows t = true ↔ t ∈ protocols u := by
  rw [User.allows, protocols]
  cases u.protocols with
  | none => simp [AwgServer.enabled]
  | some ps => simp [AwgServer.enabled]

theorem decode_protocol {t : Bytes} (h : t = str "quic" ∨ t = str "https" ∨ t = str "awg") :
    P.decode t = t.map unit := by
  refine P.decode_transparent.of_ascii ?_
  rcases h with rfl | rfl | rfl <;> decide

theorem valid_protocols {u : User} (h : ValidProtocols u.protocols) :
    protocols u ≠ [] ∧ (protocols u).Nodup ∧
      ∀ t ∈ protocols u, t = str "quic" ∨ t = str "https" ∨ t = str "awg" := by
  rw [protocols]
  cases hps : u.protocols with
  | none => decide
  | some ps => exact h ps hps

/-- A protocol is in the app's list if it is in the user's. -/
theorem mem_map_decode {ts : List Bytes} {t : Bytes}
    (hts : ∀ t ∈ ts, t = str "quic" ∨ t = str "https" ∨ t = str "awg")
    (ht : t = str "quic" ∨ t = str "https" ∨ t = str "awg") :
    t.map unit ∈ ts.map P.decode ↔ t ∈ ts := by
  constructor
  · intro hmem
    obtain ⟨t', ht', heq⟩ := List.mem_map.1 hmem
    rw [decode_protocol P (hts t' ht')] at heq
    rwa [← List.map_injective_iff.2 unit_injective heq]
  · intro hmem
    exact List.mem_map.2 ⟨t, hmem, decode_protocol P ht⟩

/-- The app reads the protocols of the user. -/
theorem transports_received {p : Profile} {u : User} (hu : ValidProtocols u.protocols)
    (hversion : p.version = if u.protocols.isSome then 2 else 1)
    (htransports : ∀ ps, u.protocols = some ps → p.transports = ps) :
    ProfileImport.transports (received P p) = .ok ((protocols u).map P.decode) := by
  have hv : (received P p).optInt "version" 0 = p.version := by
    rw [JSONObject.optInt, lookup_received]
    rfl
  rw [ProfileImport.transports, hv, hversion]
  obtain ⟨hne, hnodup, hmem⟩ := valid_protocols hu
  cases hps : u.protocols with
  | none =>
    have hdefault : [ProfileImport.quic, ProfileImport.https] =
        [str "quic", str "https"].map P.decode := by
      rw [List.map_cons, List.map_singleton, decode_protocol P (.inl rfl),
        decode_protocol P (.inr (.inl rfl))]
      decide
    rw [protocols, hps, Option.getD_none, ← hdefault]
    rfl
  | some ps =>
    have hts : protocols u = ps := by rw [protocols, hps, Option.getD_some]
    rw [hts] at hne hnodup hmem ⊢
    have hget : (received P p).getJSONArray "transports" = .ok (ps.map P.decode) := by
      have hlook : p.members.lookup "transports" = some (Json.omitEmpty (.array p.transports)) :=
        rfl
      rw [JSONObject.getJSONArray, lookup_received, hlook, htransports ps hps, Option.join_some,
        Json.omitEmpty, if_neg hne]
      rfl
    have hdecode : ps.map P.decode = ps.map (List.map unit) :=
      List.map_congr_left fun t ht => decode_protocol P (hmem t ht)
    have hnodup' : (ps.map P.decode).Nodup := by
      rw [hdecode]
      exact hnodup.map (List.map_injective_iff.2 unit_injective)
    have hknown : ∀ t ∈ ps.map P.decode,
        t ∈ [ProfileImport.quic, ProfileImport.https, ProfileImport.awg] := by
      rw [hdecode]
      intro t' ht'
      obtain ⟨t, ht, rfl⟩ := List.mem_map.1 ht'
      rcases hmem t ht with rfl | rfl | rfl <;> decide
    have hlen : (ps.map P.decode).length ≤ 3 := (hnodup'.subperm hknown).length_le
    have hdistinct : VpnRoutes.distinct (ps.map P.decode) = ps.map P.decode := by
      rw [VpnRoutes.distinct, List.dedup_eq_self.2 (List.nodup_reverse.2 hnodup'),
        List.reverse_reverse]
    have hne' : ps.map P.decode ≠ [] := fun hnil => hne (List.map_eq_nil_iff.1 hnil)
    rw [Option.isSome_some, if_pos rfl, if_neg (by decide), hget, ok_bind,
      require_of ⟨hne', hlen, hdistinct, hknown⟩]
    rfl

end Protocols

/-! ## What the app accepts -/

/-- The certificate and the key of a user are there, and not too long. -/
structure IdentityOK (P : Platform) (u : User) : Prop where
  certificate : u.certificate ≠ [] ∧ (P.decode u.certificate).length < 16000
  key : u.key ≠ [] ∧ (P.decode u.key).length < 8000

/-- What the app requires of the AWG text: no key is zero, the endpoint is one for
    clients, and the text is not too long. -/
structure AWGOK (P : Platform) (c : AwgServer.Config) (i : AwgServer.Identity)
    (q : AwgServer.Peer) : Prop where
  keys : base64Encode (List.replicate 32 0) ∉ [i.publicKey, q.privateKey, q.psk]
  endpoint : AwgServer.Config.ClientEndpoint { c with endpoint := P.wire c.endpoint }
  size : AwgServer.Config.valueBytes { c with endpoint := P.wire c.endpoint } i.headers
    q.address ≤ 32422

/-- What the app requires of a configuration, beyond what the server does, for the
    profile of a user: names without characters other than letters, digits, dots and
    hyphens, and endpoints that start with one; a list of routes, if the mode is that
    of routes; an IPv4 address as DNS server; an AWG text for clients; and a certificate
    and a key that are not too long. -/
structure Imports (P : Platform) (cfg : Web.Config) (u : User) (s : Store) : Prop where
  hostname : isName (cfg.vpn.hostname.map UInt8.toNat) = true
  transit : cfg.transit = none → P.isBlank (P.decode cfg.vpn.transitEndpoint) = false →
    isEndpoint P (P.decode cfg.vpn.transitEndpoint) = true
  quic : u.allows (str "quic") = true →
    isName ((cfg.vpn.quic.takeWhile (· ≠ ascii ':')).map UInt8.toNat) = true
  https : u.allows (str "https") = true →
    isName ((cfg.vpn.https.takeWhile (· ≠ ascii ':')).map UInt8.toNat) = true
  awg : u.allows (str "awg") = true → ∀ c i u' q, cfg.awg = some c → s.state.awg = some i →
    s.state.users.lookup u.id = some u' → u'.awg = some q → AWGOK P c i q
  routes : cfg.vpn.mode = 3 → ∃ r, VpnRoutes.parse P (P.decode cfg.vpn.routes) = .ok r
  dns : cfg.vpn.dns ≠ [] → ∃ r, VpnRoutes.parse P (P.decode cfg.vpn.dns ++ txt "/32") = .ok r
  identity : u.allows (str "quic") = true ∨ u.allows (str "https") = true → IdentityOK P u

section Accepted

variable {P : Platform} {cfg : Web.Config} {u : User}

/-- The profile of a user with the AWG text given. -/
def issued (cfg : Web.Config) (u : User) (raw : Bytes) : Profile :=
  { Web.baseProfile cfg u with awgConfig := raw }

/-- What a profile is made of. -/
theorem profile_ok {now : Time} {s : Store} {p : Profile} (h : Web.profile cfg u now s = .ok p) :
    ∃ raw, p = issued cfg u raw ∧
      (u.allows (str "awg") = true → s.awgProfile u.id now = .ok raw) := by
  rw [Web.profile] at h
  split_ifs at h with hallow
  · split at h
    · cases h
    · rename_i raw hraw
      cases h
      exact ⟨raw, rfl, fun _ => hraw⟩
  · cases h
    exact ⟨_, rfl, fun hn => absurd hn hallow⟩

theorem awgProfile_ok {id : Bytes} {now : Time} {s : Store} {raw : Bytes}
    (h : s.awgProfile id now = .ok raw) : ∃ u q c i, s.state.users.lookup id = some u ∧
      u.awg = some q ∧ s.awgConfig = some c ∧ s.state.awg = some i ∧ raw = c.client i q := by
  rw [Store.awgProfile] at h
  split at h
  · cases h
  · rename_i u hu
    split at h
    · rename_i q c i hq hc hi
      split_ifs at h
      exact ⟨u, q, c, i, hu, hq, hc, hi, (Except.ok.inj h).symm⟩
    · cases h

theorem profile_lookup {id : Bytes} {now : Time} {s : Store} (h : s.profile id now = .ok u) :
    s.state.users.lookup id = some u ∧ u.disabled = false ∧ now ≤ u.expires := by
  rw [Store.profile] at h
  split at h
  · cases h
  · rename_i u' hu'
    split_ifs at h with hdis
    cases h
    rw [not_or, Bool.not_eq_true, not_lt] at hdis
    exact ⟨hu', hdis⟩

/-- The transit endpoint of the server is accepted, if there is one. -/
theorem transit_iff (hcfg : cfg.Valid) :
    (P.isBlank (P.decode (Web.baseProfile cfg u).transitEndpoint) = false →
        isEndpoint P (P.decode (Web.baseProfile cfg u).transitEndpoint) = true) ↔
      (cfg.transit = none → P.isBlank (P.decode cfg.vpn.transitEndpoint) = false →
        isEndpoint P (P.decode cfg.vpn.transitEndpoint) = true) := by
  rw [Web.baseProfile]
  cases ht : cfg.transit with
  | none => exact ⟨fun h _ => h, fun h => h rfl⟩
  | some t =>
    refine ⟨fun _ hnone => absurd hnone (Option.some_ne_none t), fun _ _ => ?_⟩
    exact isEndpoint_transit P (hcfg.transit t ht)

/-- The endpoint of a protocol, if the user has it. -/
theorem endpoint_iff {t v v' : Bytes} (hu : ValidProtocols u.protocols)
    (ht : t = str "quic" ∨ t = str "https" ∨ t = str "awg") (hv : isHostPort v = true)
    (hv' : v' = if u.allows t then v else []) :
    (t.map unit ∈ (protocols u).map P.decode →
        v' ≠ [] ∧ isEndpoint P (P.decode v') = true) ↔
      (u.allows t = true → isName ((v.takeWhile (· ≠ ascii ':')).map UInt8.toNat) = true) := by
  rw [mem_map_decode P (valid_protocols hu).2.2 ht, ← allows_iff]
  refine forall_congr' fun hallow => ?_
  rw [hv', if_pos hallow, isEndpoint_iff P hv]
  refine and_iff_right ?_
  rintro rfl
  exact absurd hv (by decide)

theorem not_parse_nil : ¬ ∃ r, VpnRoutes.parse P [] = .ok r := by
  rintro ⟨r, hr⟩
  cases hr

theorem dns_iff : (∃ r, VpnRoutes.parse P ((if cfg.vpn.dns = [] then txt "1.1.1.1"
      else P.decode cfg.vpn.dns) ++ txt "/32") = .ok r) ↔
    (cfg.vpn.dns ≠ [] → ∃ r, VpnRoutes.parse P (P.decode cfg.vpn.dns ++ txt "/32") = .ok r) := by
  by_cases hdns : cfg.vpn.dns = []
  · have htext : txt "1.1.1.1" ++ txt "/32" =
        P.decode ((Netip.Addr.v4 0x01010101).string ++ str "/32") := by
      rw [P.decode_transparent.of_ascii (by decide)]
      decide
    rw [if_pos hdns, htext]
    exact ⟨fun _ hne => absurd hdns hne, fun _ => VpnRoutes.parse_v4 P _⟩
  · rw [if_neg hdns]
    exact ⟨fun h _ => h, fun h => h hdns⟩

/-- The AWG text of a user. -/
theorem awg_iff {x : Certs} {v : Server} (h : (Server.system x (.fixed cfg.awg)).Reachable v)
    {s : Store} (hs : v.process = .running s) {now : Time} {raw : Bytes}
    (hraw : s.awgProfile u.id now = .ok raw) :
    (raw ≠ [] ∧ ∃ config, Awg.parse (P.wire raw) = .ok config) ↔
      ∀ c i u' q, cfg.awg = some c → s.state.awg = some i →
        s.state.users.lookup u.id = some u' → u'.awg = some q → AWGOK P c i q := by
  obtain ⟨u', q, c, i, hu', hq, hc, hi, hclient⟩ := awgProfile_ok hraw
  obtain ⟨hconfig, hvalid⟩ := (inv_of_reachable h hs).config c hc
  have hgen := generated_of_reachable h hs
  obtain ⟨seed, hseed⟩ := hgen.identity i hi
  obtain ⟨keys, a, hpeer⟩ := hgen.peer u.id u' q hu' hq
  obtain ⟨dns, allowed, hchecked⟩ := AwgServer.Config.checked_of_validate hvalid
  have hserver : i.publicKey = base64Encode seed.publicKey := by rw [hseed, identityOf]
  have hpriv : q.privateKey = base64Encode keys.privateKey := by rw [hpeer, peerOf]
  have hpsk : q.psk = base64Encode keys.psk := by rw [hpeer, peerOf]
  have haddr : q.address = (Netip.Addr.v4 a).string := by rw [hpeer, peerOf]
  have hheaders : i.headers.length = 4 := by
    rw [hseed]
    exact AwgServer.length_pickHeaders (Option.eq_some_of_isSome seed.enough)
  have hparse := AwgServer.parse_client_iff (checked_wire P hchecked) hserver hheaders hpriv hpsk
    haddr
  have hne : raw ≠ [] := by
    have hlen := AwgServer.length_client hchecked hheaders hserver hpriv hpsk
    rw [← hclient] at hlen
    exact List.length_pos_iff.1 (by omega)
  rw [hclient, wire_client P hchecked hserver hpriv hpsk haddr, hparse, ← hclient, ← haddr]
  constructor
  · intro hok c' i' u'' q' hc' hi' hu'' hq'
    rw [← Option.some.inj (hconfig.symm.trans hc'), ← Option.some.inj (hi.symm.trans hi')]
    cases hu'.symm.trans hu''
    rw [← Option.some.inj (hq.symm.trans hq')]
    exact ⟨hok.2.1, hok.2.2.1, hok.2.2.2⟩
  · intro hok
    have h := hok c i u' q hconfig hi hu' hq
    exact ⟨hne, h.keys, h.endpoint, h.size⟩

/-- The identity of a user that has a protocol with certificates. -/
theorem identity_iff (cfg : Web.Config) (hu : ValidProtocols u.protocols) :
    ((∃ t ∈ (protocols u).map P.decode, t ≠ ProfileImport.awg) →
      ((Web.baseProfile cfg u).certificate ≠ [] ∧
          (P.decode (Web.baseProfile cfg u).certificate).length < 16000) ∧
        (Web.baseProfile cfg u).key ≠ [] ∧
          (P.decode (Web.baseProfile cfg u).key).length < 8000) ↔
      (u.allows (str "quic") = true ∨ u.allows (str "https") = true → IdentityOK P u) := by
  have hawg : (str "awg").map unit = ProfileImport.awg := by decide
  have hnamed : (∃ t ∈ (protocols u).map P.decode, t ≠ ProfileImport.awg) ↔
      u.allows (str "quic") = true ∨ u.allows (str "https") = true := by
    constructor
    · rintro ⟨t', ht', hne⟩
      obtain ⟨t, ht, rfl⟩ := List.mem_map.1 ht'
      rcases (valid_protocols hu).2.2 t ht with rfl | rfl | rfl
      · exact .inl (allows_iff.2 ht)
      · exact .inr (allows_iff.2 ht)
      · exact absurd ((decode_protocol P (.inr (.inr rfl))).trans hawg) hne
    · rintro (h | h)
      · refine ⟨_, List.mem_map_of_mem (allows_iff.1 h), ?_⟩
        rw [decode_protocol P (.inl rfl)]
        decide
      · refine ⟨_, List.mem_map_of_mem (allows_iff.1 h), ?_⟩
        rw [decode_protocol P (.inr (.inl rfl))]
        decide
  rw [hnamed]
  refine forall_congr' fun h => ?_
  rw [← Bool.or_eq_true] at h
  simp only [Web.baseProfile, h, if_true]
  exact ⟨fun hid => ⟨hid.1, hid.2⟩, fun hid => ⟨hid.certificate, hid.key⟩⟩

theorem issued_version (cfg : Web.Config) (u : User) (raw : Bytes) :
    (issued cfg u raw).version = 1 ∨ (issued cfg u raw).version = 2 := by
  rw [issued, Web.baseProfile]
  cases u.protocols with
  | none => exact .inl rfl
  | some ps => exact .inr rfl

theorem transports_issued (hu : ValidProtocols u.protocols) {raw : Bytes} :
    ProfileImport.transports (received P (issued cfg u raw)) =
      .ok ((protocols u).map P.decode) := by
  refine transports_received P hu rfl fun ps hps => ?_
  rw [issued, Web.baseProfile, hps, Option.getD_some]

/-- The app accepts the profile that the server issues to a user exactly when the
    configuration meets the requirements of the app. The user is one that
    `Store.Profile` returned; the store may have changed before `AWGProfile` is called. -/
theorem profile_imported_iff (P : Platform) (capture : JSONObject → Option Error)
    {parseURL : Bytes → Option URL} {cfg : Web.Config} (hcfg : cfg.validate parseURL = none)
    {x : Certs} {v₁ v₂ : Server} (h₁ : (Server.system x (.fixed cfg.awg)).Reachable v₁)
    (h₂ : (Server.system x (.fixed cfg.awg)).Reachable v₂) {s₁ s₂ : Store}
    (hs₁ : v₁.process = .running s₁) (hs₂ : v₂.process = .running s₂) {id : Bytes} {now : Time}
    {u : User} (hu : s₁.profile id now = .ok u) {now' : Time} {p : Profile}
    (hp : Web.profile cfg u now' s₂ = .ok p) :
    ProfileImport.validate P capture (received P p) = .ok (txt "vpn") ↔ Imports P cfg u s₂ := by
  have hvalid := Web.Config.valid_of_validate hcfg
  have hps : ValidProtocols u.protocols :=
    (inv_of_reachable h₁ hs₁).state.protocols id u (profile_lookup hu).1
  obtain ⟨raw, rfl, hraw⟩ := profile_ok hp
  have hguard := guarded_validate P (issued cfg u raw) capture (issued_version cfg u raw) rfl
    (guarded_validateVPN P _ (transports_issued hps))
  have hawg : (ProfileImport.awg ∈ (protocols u).map P.decode →
      raw ≠ [] ∧ ∃ config, Awg.parse (P.wire raw) = .ok config) ↔
      (u.allows (str "awg") = true → ∀ c i u' q, cfg.awg = some c → s₂.state.awg = some i →
        s₂.state.users.lookup u.id = some u' → u'.awg = some q → AWGOK P c i q) := by
    rw [show ProfileImport.awg = (str "awg").map unit by decide,
      mem_map_decode P (valid_protocols hps).2.2 (.inr (.inr rfl)), ← allows_iff]
    exact forall_congr' fun hallow => awg_iff h₂ hs₂ (hraw hallow)
  have hroutes : (cfg.vpn.mode = 3 → cfg.vpn.routes ≠ [] ∧
      ∃ r, VpnRoutes.parse P (P.decode cfg.vpn.routes) = .ok r) ↔
      (cfg.vpn.mode = 3 → ∃ r, VpnRoutes.parse P (P.decode cfg.vpn.routes) = .ok r) := by
    refine forall_congr' fun _ => ⟨fun h => h.2, fun h => ⟨fun hnil => ?_, h⟩⟩
    rw [hnil, P.decode_transparent.nil] at h
    exact not_parse_nil h
  have hquic := endpoint_iff (P := P) hps (.inl rfl) hvalid.quic
    (show (Web.baseProfile cfg u).quic = _ from rfl)
  have hhttps := endpoint_iff (P := P) hps (.inr (.inl rfl)) hvalid.https
    (show (Web.baseProfile cfg u).https = _ from rfl)
  rw [show (str "quic").map unit = ProfileImport.quic by decide] at hquic
  rw [show (str "https").map unit = ProfileImport.https by decide] at hhttps
  rw [hguard.eq_ok_iff]
  constructor
  · rintro ⟨⟨hhost, htransit, hq, hh, ha, _, hr, hd, hid⟩, _⟩
    exact ⟨hhost, (transit_iff (u := u) hvalid).1 htransit, hquic.1 hq, hhttps.1 hh, hawg.1 ha,
      hroutes.1 hr, dns_iff.1 hd, (identity_iff cfg hps).1 hid⟩
  · intro h
    exact ⟨⟨h.hostname, (transit_iff (u := u) hvalid).2 h.transit, hquic.2 h.quic, hhttps.2 h.https,
      hawg.2 h.awg, hvalid.mode, hroutes.2 h.routes, dns_iff.2 h.dns,
      (identity_iff cfg hps).2 h.identity⟩, rfl⟩

end Accepted

/-! ### A user of the sample server -/

/-- The profile of a configuration, in the mode given. -/
def sampleVPN (mode : ℤ) : Profile :=
  ⟨[], [], [], [], 0, [], [], str "vpn:443", str "vpn:443", str "vpn:443", str "vpn", [], [], [], [],
    [], mode, []⟩

/-- A configuration of the admin server. -/
def sampleWeb (mode : ℤ) : Web.Config where
  capture := none
  transit := none
  awg := some AwgServer.sampleConfig
  listen := str "127.0.0.1:8080"
  publicURL := str "https://vpn/"
  username := str "admin"
  password := str "correct horse"
  dataDir := str "/data"
  echo := sampleVPN 0
  vpn := sampleVPN mode

/-- The one URL is parsed. -/
def sampleURL (_ : Bytes) : Option URL := some ⟨str "https", false, str "vpn", str "/", [], []⟩

/-- The user of the server. -/
def sampleUser : User := ((sampleStore sampleCalls).state.users.lookup (str "id")).getD .zero

theorem sampleUser_profile : (sampleStore sampleCalls).profile (str "id") 0 = .ok sampleUser := rfl

theorem sampleWeb_valid : (sampleWeb 0).validate sampleURL = none ∧
    (sampleWeb 3).validate sampleURL = none := by
  decide

theorem sampleUser_issued (mode : ℤ) : ∃ p,
    Web.profile (sampleWeb mode) sampleUser 0 (sampleStore sampleCalls) = .ok p := ⟨_, rfl⟩

/-- In the mode for all apps, the sample user imports the profile. -/
theorem profile_imported_sample : ∃ p,
    Web.profile (sampleWeb 0) sampleUser 0 (sampleStore sampleCalls) = .ok p ∧
      ProfileImport.validate .latin (fun _ => none) (received .latin p) = .ok (txt "vpn") := by
  obtain ⟨p, hp⟩ := sampleUser_issued 0
  refine ⟨p, hp, (profile_imported_iff .latin _ sampleWeb_valid.1 sampleServer_reachable
    sampleServer_reachable rfl rfl sampleUser_profile hp).2 ?_⟩
  refine ⟨by decide, fun _ h => absurd h (by decide), fun h => absurd h (by decide),
    fun h => absurd h (by decide), fun _ c i u' q hc hi hu hq => ?_, fun h => absurd h (by decide),
    fun h => absurd rfl h, fun h => absurd h (by decide)⟩
  cases hc
  cases hi
  cases hu
  cases hq
  have hsplit : splitHostPort (Platform.latin.wire (str "vpn:51820")) =
      some (str "vpn", str "51820") := by decide
  refine ⟨by decide, ⟨by decide, fun host port a hs ha => ?_⟩, by decide⟩
  cases hsplit.symm.trans hs
  rw [show Netip.parseAddr (str "vpn") = none by decide] at ha
  cases ha

/-- In the mode of routes, without routes, the server accepts the configuration and
    issues the profile, and the app rejects it. -/
theorem profile_rejected_routes : ∃ (cfg : Web.Config) (v : Server) (s : Store) (u : User)
    (p : Profile), cfg.validate sampleURL = none ∧
      (Server.system sampleCerts (.fixed cfg.awg)).Reachable v ∧ v.process = .running s ∧
      s.profile (str "id") 0 = .ok u ∧ IdentityOK .latin u ∧ Web.profile cfg u 0 s = .ok p ∧
      ProfileImport.validate .latin (fun _ => none) (received .latin p) ≠ .ok (txt "vpn") := by
  obtain ⟨p, hp⟩ := sampleUser_issued 3
  refine ⟨sampleWeb 3, _, _, sampleUser, p, sampleWeb_valid.2, sampleServer_reachable, rfl,
    sampleUser_profile, ⟨by decide, by decide⟩, hp, fun haccepted => ?_⟩
  obtain ⟨raw, rfl, _⟩ := profile_ok hp
  have hps : ValidProtocols sampleUser.protocols :=
    (inv_of_reachable sampleServer_reachable rfl).state.protocols (str "id") sampleUser
      (profile_lookup sampleUser_profile).1
  have hguard := guarded_validate .latin (issued (sampleWeb 3) sampleUser raw) (fun _ => none)
    (issued_version _ _ raw) rfl (guarded_validateVPN .latin _ (transports_issued hps))
  obtain ⟨⟨_, _, _, _, _, _, hroutes, _⟩, _⟩ := hguard.eq_ok_iff.1 haccepted
  exact (hroutes rfl).1 rfl

end QuicLab.Android
