import QuicLab.AwgServer.Check
import QuicLab.Awg.Config

/-!
# The configuration of the clients

The text `Config.Client` writes for a peer is the one the client's `awg.Parse`
reads.
-/

namespace QuicLab.AwgServer

open Go Netip

/-- `Config.Client`. -/
def Config.client (c : Config) (i : Identity) (p : Peer) : Bytes :=
  let h := fun k => decimal (i.headers.getD k 0).toNat
  str "[Interface]\nPrivateKey = " ++ p.privateKey ++ str "\nAddress = " ++ p.address ++
    str "/32\nDNS = " ++ c.dns ++ str "\nMTU = " ++ itoa c.mtu ++
    str "\nJc = 5\nJmin = 50\nJmax = 1000\nS1 = 134\nS2 = 90\nH1 = " ++ h 0 ++
    str "\nH2 = " ++ h 1 ++ str "\nH3 = " ++ h 2 ++ str "\nH4 = " ++ h 3 ++
    str "\n\n[Peer]\nPublicKey = " ++ i.publicKey ++ str "\nPresharedKey = " ++ p.psk ++
    str "\nAllowedIPs = " ++ join c.allowedIPs (str ", ") ++ str "\nEndpoint = " ++ c.endpoint ++
    str "\nPersistentKeepalive = 25\n"

/-- The parameters of obfuscation. -/
def Identity.paramFields (i : Identity) : List (Bytes × ℕ) :=
  let h := fun k => (i.headers.getD k 0).toNat
  [(str "Jc", 5), (str "Jmin", 50), (str "Jmax", 1000), (str "S1", 134), (str "S2", 90),
    (str "H1", h 0), (str "H2", h 1), (str "H3", h 2), (str "H4", h 3)]

/-- The fields of the interface. -/
def Config.interfaceFields (c : Config) (i : Identity) (p : Peer) : List (Bytes × Bytes) :=
  (str "PrivateKey", p.privateKey) :: (str "Address", p.address ++ str "/32") ::
    (str "DNS", c.dns) :: (str "MTU", itoa c.mtu) :: i.paramFields.map fun f => (f.1, decimal f.2)

/-- The fields of the peer. -/
def Config.peerFields (c : Config) (i : Identity) (p : Peer) : List (Bytes × Bytes) :=
  [(str "PublicKey", i.publicKey), (str "PresharedKey", p.psk),
    (str "AllowedIPs", join c.allowedIPs (str ", ")), (str "Endpoint", c.endpoint),
    (str "PersistentKeepalive", decimal 25)]

/-- The lines written. -/
def Config.clientLines (c : Config) (i : Identity) (p : Peer) : List Bytes :=
  str "[Interface]" :: (Awg.fieldLines (c.interfaceFields i p) ++
    [] :: str "[Peer]" :: (Awg.fieldLines (c.peerFields i p) ++ [[]]))

theorem Config.client_eq_join (c : Config) (i : Identity) (p : Peer) :
    c.client i p = join (c.clientLines i p) [ascii '\n'] := by
  have hPrivate : str "[Interface]\nPrivateKey = " =
      str "[Interface]" ++ ([ascii '\n'] ++ (str "PrivateKey" ++ str " = ")) := rfl
  have hAddress : str "\nAddress = " = [ascii '\n'] ++ (str "Address" ++ str " = ") := rfl
  have hDNS : str "/32\nDNS = " = str "/32" ++ ([ascii '\n'] ++ (str "DNS" ++ str " = ")) := rfl
  have hMTU : str "\nMTU = " = [ascii '\n'] ++ (str "MTU" ++ str " = ") := rfl
  have hH1 : str "\nJc = 5\nJmin = 50\nJmax = 1000\nS1 = 134\nS2 = 90\nH1 = " =
      [ascii '\n'] ++ (str "Jc" ++ (str " = " ++ (decimal 5 ++ ([ascii '\n'] ++ (str "Jmin" ++ (str " = " ++
        (decimal 50 ++ ([ascii '\n'] ++ (str "Jmax" ++ (str " = " ++ (decimal 1000 ++ ([ascii '\n'] ++ (str "S1" ++
          (str " = " ++ (decimal 134 ++ ([ascii '\n'] ++ (str "S2" ++ (str " = " ++ (decimal 90 ++
            ([ascii '\n'] ++ (str "H1" ++ str " = "))))))))))))))))))))) := rfl
  have hH2 : str "\nH2 = " = [ascii '\n'] ++ (str "H2" ++ str " = ") := rfl
  have hH3 : str "\nH3 = " = [ascii '\n'] ++ (str "H3" ++ str " = ") := rfl
  have hH4 : str "\nH4 = " = [ascii '\n'] ++ (str "H4" ++ str " = ") := rfl
  have hPeer : str "\n\n[Peer]\nPublicKey = " =
      [ascii '\n'] ++ ([ascii '\n'] ++ (str "[Peer]" ++ ([ascii '\n'] ++ (str "PublicKey" ++ str " = ")))) := rfl
  have hPSK : str "\nPresharedKey = " = [ascii '\n'] ++ (str "PresharedKey" ++ str " = ") := rfl
  have hAllowed : str "\nAllowedIPs = " = [ascii '\n'] ++ (str "AllowedIPs" ++ str " = ") := rfl
  have hEndpoint : str "\nEndpoint = " = [ascii '\n'] ++ (str "Endpoint" ++ str " = ") := rfl
  have hKeepalive : str "\nPersistentKeepalive = 25\n" =
      [ascii '\n'] ++ (str "PersistentKeepalive" ++ (str " = " ++ (decimal 25 ++ [ascii '\n']))) := rfl
  unfold client clientLines interfaceFields Identity.paramFields peerFields Awg.fieldLines
  rw [hPrivate, hAddress, hDNS, hMTU, hH1, hH2, hH3, hH4, hPeer, hPSK, hAllowed, hEndpoint,
    hKeepalive]
  simp only [join, List.intercalate, List.map_cons, List.map_nil, List.cons_append,
    List.intersperse_cons_cons, List.intersperse_singleton, List.flatten_cons, List.flatten_nil,
    List.append_nil, List.nil_append, List.append_assoc]

/-! ## What is written -/

/-- The texts of IPv4 prefixes are those written for them. -/
theorem exists_prefixes {l : List Bytes} (h : ∀ s ∈ l, Config.isPrefix4 s = true) :
    ∃ ps : List Prefix, (∀ p ∈ ps, p.addr.is4 = true) ∧ l = ps.map Prefix.string := by
  induction l with
  | nil => exact ⟨[], List.forall_mem_nil _, rfl⟩
  | cons s l ih =>
    obtain ⟨ps, h4, hl⟩ := ih fun t ht => h t (List.mem_cons_of_mem _ ht)
    obtain ⟨p, hp, hp4⟩ := (Option.any_eq_true _ _).1 (h s List.mem_cons_self)
    obtain ⟨a, ha⟩ := Addr.exists_v4 hp4
    refine ⟨p :: ps, fun q hq => ?_, ?_⟩
    · rcases List.mem_cons.1 hq with rfl | hq
      · exact hp4
      · exact h4 q hq
    · rw [List.map_cons, ← hl, (Prefix.parsePrefix_eq_v4_iff ha).1 hp]

/-- What `Config.Validate` says about the values written. -/
structure Config.Checked (c : Config) (dns : BitVec 32) (allowed : List Prefix) : Prop where
  endpoint : c.validEndpoint = true
  dns : c.dns = (Addr.v4 dns).string
  mtu : 1280 ≤ c.mtu ∧ c.mtu ≤ 1420
  ne_nil : allowed ≠ []
  is4 : ∀ p ∈ allowed, p.addr.is4 = true
  allowedIPs : c.allowedIPs = allowed.map Prefix.string

variable {c : Config}

theorem Config.checked_of_validate (h : c.validate = none) :
    ∃ dns allowed, c.Checked dns allowed := by
  rw [validate] at h
  split_ifs at h with _ hendpoint _ hdns _ hmtu hne hall
  obtain ⟨d, hd, hd4⟩ := (Option.any_eq_true _ _).1 hdns
  obtain ⟨dns, rfl⟩ := Addr.exists_v4 hd4
  obtain ⟨allowed, h4, hallowed⟩ := exists_prefixes (List.all_eq_true.1 hall)
  rw [not_or, not_lt, not_lt] at hmtu
  refine ⟨dns, allowed, hendpoint, parseAddr_eq_v4_iff.1 hd, hmtu, ?_, h4, hallowed⟩
  rintro rfl
  exact hne hallowed

/-- What a valid endpoint is made of. -/
structure ValidEndpoint (endpoint host port : Bytes) (n : ℤ) : Prop where
  split : splitHostPort endpoint = some (host, port)
  atoi : atoi port = some n
  ne_nil : host ≠ []
  graphic : ¬ host.any (· ∈ str "\r\n\t ;#") = true
  range : 1 ≤ n ∧ n ≤ 65535

theorem Config.exists_validEndpoint (h : c.validEndpoint = true) :
    ∃ host port n, ValidEndpoint c.endpoint host port n := by
  rw [validEndpoint] at h
  split at h
  · cases h
  · rename_i host port hsplit
    split at h
    · cases h
    · rename_i n hn
      obtain ⟨hne, hany, hlo, hhi⟩ := of_decide_eq_true h
      exact ⟨host, port, n, hsplit, hn, hne, hany, hlo, hhi⟩

namespace ValidEndpoint

variable {endpoint host port : Bytes} {n : ℤ} (h : ValidEndpoint endpoint host port n)

include h

/-- The port is digits after a sign or not, all graphic. -/
theorem plain_port : Awg.Plain port := by
  obtain ⟨sign, digits, rfl, hsign, hne, hall⟩ := atoi_some h.atoi
  have hdigits : Awg.Plain digits :=
    .of_forall hne (P := fun c => isDigit c = true) (fun _ => isGraphic_of_isDigit) (by decide) hall
  rcases hsign with rfl | rfl | rfl
  · exact hdigits
  · exact .append ⟨by decide, by decide, by decide⟩ hdigits
  · exact .append ⟨by decide, by decide, by decide⟩ hdigits

/-- A byte that is neither a separator, nor allowed in the host, nor graphic. -/
theorem not_mem {x : UInt8} (hx : x ∈ str "\r\n\t ;#") (hx' : x ≠ ascii ';') : x ∉ endpoint := by
  have hhost : x ∉ host := fun hmem =>
    h.graphic (List.any_eq_true.2 ⟨x, hmem, decide_eq_true hx⟩)
  have hall : ∀ x ∈ str "\r\n\t ;#", x ≠ ascii ';' → x ≠ ascii ':' ∧ x ≠ ascii '[' ∧
      x ≠ ascii ']' ∧ (isGraphic x = false ∨ x = ascii '#') := by decide
  have hsep := hall x hx hx'
  have hport : x ∉ port := fun hmem => by
    rcases hsep.2.2.2 with hg | rfl
    · rw [h.plain_port.graphic x hmem] at hg
      cases hg
    · exact h.plain_port.comment hmem
  rcases splitHostPort_eq_some_iff.1 h.split with hs | hs
  · rw [hs.eq]
    simp [hhost, hport, hsep]
  · rw [hs.eq]
    simp [hhost, hport, hsep]

theorem endsGraphic : EndsGraphic endpoint := by
  have hport := h.plain_port.endsGraphic
  rcases splitHostPort_eq_some_iff.1 h.split with hs | hs
  · rw [hs.eq, ← List.singleton_append, ← List.append_assoc]
    exact hport.append _
  · have hends := hport.append (ascii '[' :: (host ++ [ascii ']', ascii ':']))
    rwa [List.cons_append, List.append_assoc, List.cons_append, List.singleton_append,
      ← hs.eq] at hends

/-- The endpoint as a client reads it, without leading white space: the host is
    not empty and is no IPv6 address. -/
theorem endpointOK_iff : Awg.Config.EndpointOK (trimSpace endpoint) ↔
    (trimSpace endpoint).head? ≠ some (ascii ':') ∧ ∀ a, parseAddr host = some a → a.is4 = true := by
  have hspace : ∀ {t}, t ⊆ host → ¬ t.any (· ∈ str " \r\n\t") = true := by
    intro t ht hany
    obtain ⟨x, hx, hmem⟩ := List.any_eq_true.1 hany
    have hsub : ∀ x ∈ str " \r\n\t", x ∈ str "\r\n\t ;#" := by decide
    exact h.graphic (List.any_eq_true.2
      ⟨x, ht hx, decide_eq_true (hsub x (of_decide_eq_true hmem))⟩)
  have hrange := h.range
  rcases splitHostPort_eq_some_iff.1 h.split with hs | hs
  · -- White space before the host is trimmed.
    have hstarts : StartsGraphic (ascii ':' :: port) := ⟨ascii ':', rfl, by decide⟩
    have hends : EndsGraphic (ascii ':' :: port) := h.plain_port.endsGraphic.append [ascii ':']
    obtain ⟨pre, rest, hhost, _, htrim⟩ := trimSpace_append host hstarts hends
    rw [← hs.eq] at htrim
    have hsub : rest ⊆ host := hhost ▸ List.subset_append_right pre rest
    have hcolon : ascii ':' ∉ rest := fun hmem => hs.colon (hsub hmem)
    have hsuffix : rest ++ ascii ':' :: port ⊆ endpoint := by
      rw [hs.eq, hhost, List.append_assoc]
      exact List.subset_append_right _ _
    have hsplit : splitHostPort (rest ++ ascii ':' :: port) = some (rest, port) :=
      splitHostPort_eq_some_iff.2 (.inl ⟨rfl, hcolon, hs.port, fun hmem => hs.opened (hsuffix hmem),
        fun hmem => hs.closed (hsuffix hmem)⟩)
    have h4 : ¬ (parseAddr rest).any (!·.is4) = true := by
      intro hany
      obtain ⟨a, ha, h6⟩ := (Option.any_eq_true _ _).1 hany
      rw [is4_of_parseAddr ha hcolon] at h6
      cases h6
    have hhead : (rest ++ ascii ':' :: port).head? ≠ some (ascii ':') ↔ rest ≠ [] := by
      cases rest with
      | nil => simp
      | cons x rest =>
        have hx : x ≠ ascii ':' := fun heq => hcolon (heq ▸ List.mem_cons_self)
        simp [hx]
    rw [htrim, hhead]
    constructor
    · rintro ⟨host', port', n', hsplit', _, hgood, _⟩
      rw [hsplit] at hsplit'
      cases hsplit'
      rw [not_or] at hgood
      exact ⟨hgood.1, fun a ha => is4_of_parseAddr ha hs.colon⟩
    · rintro ⟨hne, _⟩
      refine ⟨rest, port, n, hsplit, h.atoi, ?_, h4⟩
      rintro (hnil | hany | hlo | hhi)
      · exact hne hnil
      · exact hspace hsub hany
      · omega
      · omega
  · have hhead : endpoint.head? = some (ascii '[') := by rw [hs.eq]; rfl
    have htrim : trimSpace endpoint = endpoint :=
      trimSpace_of_graphic ⟨ascii '[', hhead, by decide⟩ h.endsGraphic
    rw [htrim, hhead]
    constructor
    · rintro ⟨host', port', n', hsplit', _, _, h4⟩
      rw [h.split] at hsplit'
      cases hsplit'
      refine ⟨by decide, fun a ha => ?_⟩
      rw [ha] at h4
      simpa using h4
    · rintro ⟨_, h4⟩
      refine ⟨host, port, n, h.split, h.atoi, ?_, ?_⟩
      · rintro (hnil | hany | hlo | hhi)
        · exact h.ne_nil hnil
        · exact hspace (List.Subset.refl host) hany
        · omega
        · omega
      · intro hany
        obtain ⟨a, ha, h6⟩ := (Option.any_eq_true _ _).1 hany
        rw [h4 a ha] at h6
        cases h6

end ValidEndpoint

/-! ## What is read -/

/-- The parameters read. -/
def Identity.params (i : Identity) : Map Bytes Bytes :=
  (i.paramFields.map fun f => (toLower f.1, decimal f.2)).foldl (fun m e => m.insert e.1 e.2) ∅

/-- The names of the device, in the same order. -/
theorem Identity.map_paramFields (i : Identity) :
    i.paramFields.map (toLower ·.1) = Awg.Config.paramNames := by
  have hlower : [str "Jc", str "Jmin", str "Jmax", str "S1", str "S2", str "H1", str "H2",
      str "H3", str "H4"].map toLower = Awg.Config.paramNames := by decide
  exact hlower

theorem Identity.lookup_params (i : Identity) {f : Bytes × ℕ} (hf : f ∈ i.paramFields) :
    i.params.lookup (toLower f.1) = some (decimal f.2) := by
  have hnodup : ((i.paramFields.map fun f => (toLower f.1, decimal f.2)).map Prod.fst).Nodup := by
    rw [List.map_map, show Prod.fst ∘ (fun f : Bytes × ℕ => (toLower f.1, decimal f.2)) =
      (toLower ·.1) from rfl, i.map_paramFields]
    decide
  rw [params]
  exact Map.lookup_foldl_insert_of_mem hnodup
    (List.mem_map_of_mem (f := fun f => (toLower f.1, decimal f.2)) hf) ∅

/-- The lines of the parameters, as the device of the server is given them. -/
theorem Identity.flatMap_params (i : Identity) {config : Awg.Config}
    (hconfig : config.params = i.params) :
    Awg.Config.paramNames.flatMap config.paramLine = i.parameters := by
  have hline : ∀ f ∈ i.paramFields, config.paramLine (toLower f.1) =
      toLower f.1 ++ str "=" ++ decimal f.2 ++ str "\n" := fun f hf => by
    rw [Awg.Config.paramLine, hconfig, i.lookup_params hf]
  have hjc : str "jc=5\njmin=50\njmax=1000\ns1=134\ns2=90\nh1=" =
      str "jc" ++ (str "=" ++ (decimal 5 ++ (str "\n" ++ (str "jmin" ++ (str "=" ++ (decimal 50 ++
        (str "\n" ++ (str "jmax" ++ (str "=" ++ (decimal 1000 ++ (str "\n" ++ (str "s1" ++ (str "=" ++
          (decimal 134 ++ (str "\n" ++ (str "s2" ++ (str "=" ++ (decimal 90 ++ (str "\n" ++
            (str "h1" ++ str "=")))))))))))))))))))) := rfl
  have hh2 : str "\nh2=" = str "\n" ++ (str "h2" ++ str "=") := by decide
  have hh3 : str "\nh3=" = str "\n" ++ (str "h3" ++ str "=") := by decide
  have hh4 : str "\nh4=" = str "\n" ++ (str "h4" ++ str "=") := by decide
  rw [← i.map_paramFields, List.flatMap_map, List.flatMap_congr hline]
  unfold paramFields parameters
  rw [hjc, hh2, hh3, hh4]
  simp only [List.flatMap_cons, List.flatMap_nil, List.append_assoc, List.append_nil]
  rfl

theorem Identity.paramFields_bounds (i : Identity) : ∀ f ∈ i.paramFields, ∃ bound,
    (f.1, bound) ∈ Awg.Config.paramBounds ∧ f.2 < 2 ^ 32 ∧ ∀ b ∈ bound, f.2 ≤ b := by
  have hheader : ∀ k, (i.headers.getD k 0).toNat < 2 ^ 32 := fun k => UInt32.toNat_lt _
  intro f hf
  simp only [paramFields, List.mem_cons, List.not_mem_nil, or_false] at hf
  rcases hf with rfl | rfl | rfl | rfl | rfl | rfl | rfl | rfl | rfl
  · exact ⟨some 128, by decide, by decide, by decide⟩
  · exact ⟨some 1280, by decide, by decide, by decide⟩
  · exact ⟨some 1280, by decide, by decide, by decide⟩
  · exact ⟨some 1280, by decide, by decide, by decide⟩
  · exact ⟨some 1280, by decide, by decide, by decide⟩
  all_goals exact ⟨none, by simp [Awg.Config.paramBounds], hheader _, fun b hb => absurd hb (Option.not_mem_none b)⟩

theorem plain_key (k : Key) : Awg.Plain (base64Encode k) :=
  .base64Encode fun h => by
    have := k.2
    rw [h] at this
    cases this

theorem plain_itoa {n : ℤ} (h : 0 ≤ n) : Awg.Plain (itoa n) := by
  rw [itoa, if_neg (not_lt.2 h)]
  exact .decimal _

section Read

variable {c : Config} {dns : BitVec 32} {allowed : List Prefix} (hc : c.Checked dns allowed)
  {i : Identity} {server : Key} (hi : i.publicKey = base64Encode server)
  {p : Peer} {privateKey psk : Key} {address : BitVec 32}
  (hpriv : p.privateKey = base64Encode privateKey) (hpsk : p.psk = base64Encode psk)
  (haddr : p.address = (Addr.v4 address).string)

include hc haddr in
theorem plain_addresses : Awg.Plain (p.address ++ str "/32") ∧ Awg.Plain c.dns ∧
    Awg.Plain (itoa c.mtu) := by
  rw [haddr, hc.dns]
  exact ⟨.append (.string_v4 _) ⟨by decide, by decide, by decide⟩, .string_v4 _,
    plain_itoa (by have := hc.mtu; omega)⟩

include hc hpriv haddr in
/-- The interface is read as it was written, unless the key is zero. -/
theorem interface_read : Guarded (∃ x ∈ privateKey.1, x ≠ 0)
    { Awg.Config.empty with
        privateKey := hexEncode privateKey, address := p.address, dns := c.dns, mtu := c.mtu
        params := i.params }
    (Awg.Config.empty.fields (str "[Interface]") (c.interfaceFields i p)) := by
  obtain ⟨haddress, hdns, hmtu⟩ := plain_addresses hc haddr
  unfold Config.interfaceFields
  rw [hpriv]
  refine (Awg.Config.empty.fields_cons_plain (plain_key privateKey)
    (Awg.Config.empty.field_privateKey privateKey.2) (.of_eq ?_)).congr (and_iff_left trivial)
  rw [haddr] at haddress ⊢
  rw [hc.dns] at hdns ⊢
  rw [Awg.Config.fields_cons_of_ok _ haddress (Awg.Config.field_address _ rfl _),
    Awg.Config.fields_cons_of_ok _ hdns (Awg.Config.field_dns _ _),
    Awg.Config.fields_cons_of_ok _ hmtu (Awg.Config.field_mtu _ hc.mtu.1 hc.mtu.2),
    Awg.Config.fields_params _ i.paramFields_bounds]
  rfl

include hc in
/-- The joined prefixes. -/
theorem joined_allowed : trimSpace (join c.allowedIPs (str ", ")) = join c.allowedIPs (str ", ") ∧
    EndsGraphic (join c.allowedIPs (str ", ")) ∧
    ∀ x ∈ join c.allowedIPs (str ", "), x = ascii ',' ∨ x = ascii ' ' ∨
      (isGraphic x = true ∧ x ≠ ascii '#') := by
  have hplain : ∀ s ∈ c.allowedIPs, Awg.Plain s := by
    rw [hc.allowedIPs]
    intro s hs
    obtain ⟨q, hq, rfl⟩ := List.mem_map.1 hs
    obtain ⟨a, ha⟩ := Addr.exists_v4 (hc.is4 q hq)
    exact .string_network ha
  have hne : c.allowedIPs ≠ [] := by
    rw [hc.allowedIPs]
    simpa using hc.ne_nil
  have hends := endsGraphic_join hne (fun s hs => (hplain s hs).endsGraphic) (str ", ")
  have hstarts : StartsGraphic (join c.allowedIPs (str ", ")) := by
    obtain ⟨s, l, hl⟩ := List.exists_cons_of_ne_nil hne
    rw [hl] at hplain ⊢
    exact startsGraphic_join (hplain s List.mem_cons_self).startsGraphic l _
  refine ⟨trimSpace_of_graphic hstarts hends, hends, fun x hx => ?_⟩
  rcases mem_join hx with hx | ⟨s, hs, hx⟩
  · rw [show str ", " = [ascii ',', ascii ' '] by decide] at hx
    simp only [List.mem_cons, List.not_mem_nil, or_false] at hx
    rcases hx with rfl | rfl
    · exact .inl rfl
    · exact .inr (.inl rfl)
  · exact .inr (.inr ⟨(hplain s hs).graphic x hx, fun h => (hplain s hs).comment (h ▸ hx)⟩)

include hc hi hpsk in
/-- The peer is read as it was written, unless a key is zero or the endpoint is
    refused. -/
theorem peer_read (config : Awg.Config) : Guarded ((∃ x ∈ server.1, x ≠ 0) ∧ (∃ x ∈ psk.1, x ≠ 0) ∧
      Awg.Config.EndpointOK (trimSpace c.endpoint))
    { config with
        publicKey := hexEncode server, psk := hexEncode psk
        allowed := config.allowed ++ allowed.map (·.masked.string)
        endpoint := trimSpace c.endpoint, keepalive := decimal 25 }
    (config.fields (str "[Peer]") (c.peerFields i p)) := by
  have hallowed : ∀ config : Awg.Config, config.field (str "[Peer]") (str "AllowedIPs")
      (trimSpace (join c.allowedIPs (str ", "))) =
        .ok { config with allowed := config.allowed ++ allowed.map (·.masked.string) } := by
    intro config
    rw [(joined_allowed hc).1, hc.allowedIPs]
    exact config.field_allowedIPs hc.ne_nil hc.is4
  unfold Config.peerFields
  rw [hi, hpsk]
  refine Awg.Config.fields_cons_plain _ (plain_key server) (Awg.Config.field_publicKey _ server.2)
    (Awg.Config.fields_cons_plain _ (plain_key psk) (Awg.Config.field_presharedKey _ psk.2) ?_)
  refine (Awg.Config.fields_cons _ (.of_eq (hallowed _)) (Awg.Config.fields_cons _
    (Awg.Config.field_endpoint _ _) (.of_eq ?_))).congr (by simp only [true_and, and_true])
  exact Awg.Config.fields_cons_of_ok _ (.decimal 25) (Awg.Config.field_keepalive _ (by decide)) []

/-- The keys of the interface. -/
def interfaceKeys : List Bytes :=
  [str "PrivateKey", str "Address", str "DNS", str "MTU", str "Jc", str "Jmin", str "Jmax",
    str "S1", str "S2", str "H1", str "H2", str "H3", str "H4"]

/-- The keys of the peer. -/
def peerKeys : List Bytes :=
  [str "PublicKey", str "PresharedKey", str "AllowedIPs", str "Endpoint",
    str "PersistentKeepalive"]

theorem map_fst_interfaceFields (c : Config) (i : Identity) (p : Peer) :
    (c.interfaceFields i p).map Prod.fst = interfaceKeys := rfl

theorem map_fst_peerFields (c : Config) (i : Identity) (p : Peer) :
    (c.peerFields i p).map Prod.fst = peerKeys := rfl

theorem plainKey_of_mem {k : Bytes} (hk : k ∈ interfaceKeys ++ peerKeys) : Awg.PlainKey k := by
  have hall : ∀ k ∈ interfaceKeys ++ peerKeys, k ≠ [] ∧ (∀ c ∈ k, isGraphic c = true) ∧
      ascii '#' ∉ k ∧ ascii '=' ∉ k ∧ k.head? ≠ some (ascii '[') := by decide +kernel
  obtain ⟨hne, hgraphic, hcomment, hequals, hbracket⟩ := hall k hk
  exact ⟨⟨hne, hgraphic, hcomment⟩, hequals, hbracket⟩

include hc hpriv haddr in
theorem interfaceFields_plain {f : Bytes × Bytes} (hf : f ∈ c.interfaceFields i p) :
    Awg.PlainKey f.1 ∧ Awg.Plain f.2 := by
  have hk : f.1 ∈ interfaceKeys := map_fst_interfaceFields c i p ▸ List.mem_map_of_mem hf
  refine ⟨plainKey_of_mem (List.mem_append_left _ hk), ?_⟩
  obtain ⟨haddress, hdns, hmtu⟩ := plain_addresses hc haddr
  simp only [Config.interfaceFields, List.mem_cons, List.mem_map] at hf
  rcases hf with rfl | rfl | rfl | rfl | ⟨g, hg, rfl⟩
  · exact hpriv ▸ plain_key privateKey
  · exact haddress
  · exact hdns
  · exact hmtu
  · exact .decimal _

include hc hi hpsk in
theorem peerFields_plain {f : Bytes × Bytes} (hf : f ∈ c.peerFields i p) :
    Awg.PlainKey f.1 ∧ ascii '#' ∉ f.2 ∧ EndsGraphic f.2 ∧ ascii '\n' ∉ f.2 := by
  have hk : f.1 ∈ peerKeys := map_fst_peerFields c i p ▸ List.mem_map_of_mem hf
  refine ⟨plainKey_of_mem (List.mem_append_right _ hk), ?_⟩
  have hplain : ∀ {v}, Awg.Plain v → ascii '#' ∉ v ∧ EndsGraphic v ∧ ascii '\n' ∉ v := fun hv =>
    ⟨hv.comment, hv.endsGraphic, hv.newline⟩
  obtain ⟨_, hends, hmem⟩ := joined_allowed hc
  obtain ⟨host, port, n, hendpoint⟩ := Config.exists_validEndpoint hc.endpoint
  simp only [Config.peerFields, List.mem_cons, List.not_mem_nil, or_false] at hf
  rcases hf with rfl | rfl | rfl | rfl | rfl
  · exact hplain (hi ▸ plain_key server)
  · exact hplain (hpsk ▸ plain_key psk)
  · refine ⟨fun hx => ?_, hends, fun hx => ?_⟩
    · rcases hmem _ hx with h | h | ⟨_, h⟩
      · exact absurd h (by decide)
      · exact absurd h (by decide)
      · exact h rfl
    · rcases hmem _ hx with h | h | ⟨h, _⟩ <;> exact absurd h (by decide)
  · exact ⟨hendpoint.not_mem (by decide) (by decide), hendpoint.endsGraphic,
      hendpoint.not_mem (by decide) (by decide)⟩
  · exact hplain (.decimal 25)

theorem newline_not_mem_line {k v : Bytes} (hk : Awg.PlainKey k) (hv : ascii '\n' ∉ v) :
    ascii '\n' ∉ k ++ str " = " ++ v := by
  intro h
  rcases List.mem_append.1 h with h | h
  · rcases List.mem_append.1 h with h | h
    · exact hk.newline h
    · exact absurd h (by decide)
  · exact hv h

include hc hi hpriv hpsk haddr in
/-- The text is read as its lines. -/
theorem split_client : split (c.client i p) (ascii '\n') = c.clientLines i p := by
  rw [Config.client_eq_join]
  refine split_join (List.cons_ne_nil _ _) fun s hs => ?_
  simp only [Config.clientLines, Awg.fieldLines, List.mem_cons, List.mem_append, List.mem_map,
    List.not_mem_nil, or_false] at hs
  rcases hs with rfl | ⟨f, hf, rfl⟩ | rfl | rfl | ⟨f, hf, rfl⟩ | rfl
  · decide
  · obtain ⟨hk, hv⟩ := interfaceFields_plain hc hpriv haddr hf
    exact newline_not_mem_line hk hv.newline
  · exact List.not_mem_nil
  · decide
  · obtain ⟨hk, _, _, hv⟩ := peerFields_plain hc hi hpsk hf
    exact newline_not_mem_line hk hv
  · exact List.not_mem_nil

include hc hi hpriv hpsk haddr in
/-- The text is read field by field. -/
theorem parse_client : Awg.parse (c.client i p) =
    if 32768 < (c.client i p).length then .error (.new "AWG config exceeds 32 KiB")
    else (do
      let config ← Awg.Config.empty.fields (str "[Interface]") (c.interfaceFields i p)
      let config ← config.fields (str "[Peer]") (c.peerFields i p)
      config.finish) := by
  have hinterface : ∀ f ∈ c.interfaceFields i p,
      Awg.PlainKey f.1 ∧ ascii '#' ∉ f.2 ∧ EndsGraphic f.2 := fun f hf =>
    have h := interfaceFields_plain hc hpriv haddr hf
    ⟨h.1, h.2.comment, h.2.endsGraphic⟩
  have hpeer : ∀ f ∈ c.peerFields i p,
      Awg.PlainKey f.1 ∧ ascii '#' ∉ f.2 ∧ EndsGraphic f.2 := fun f hf =>
    have h := peerFields_plain hc hi hpsk hf
    ⟨h.1, h.2.1, h.2.2.1⟩
  have hnodup : ((c.interfaceFields i p).map Prod.fst).Nodup := by
    rw [map_fst_interfaceFields]
    decide
  have hnodup' : ((c.peerFields i p).map Prod.fst).Nodup := by
    rw [map_fst_peerFields]
    decide
  have hsect : ∀ k k', str "[Peer]" ++ k ≠ str "[Interface]" ++ k' := fun k k' h => by
    have htake : str "[P" = str "[I" := congrArg (List.take 2) h
    exact absurd htake (by decide)
  have hpeerNew : str "[Peer]" ∉ [str "[Interface]"] := by decide
  rw [Awg.parse, split_client hc hi hpriv hpsk haddr, Config.clientLines,
    Awg.Parser.foldlM_section (.inl rfl) List.not_mem_nil hinterface hnodup
      fun f _ => List.not_mem_nil]
  congr 1
  rw [show Awg.Parser.start.config = Awg.Config.empty from rfl]
  cases Awg.Config.empty.fields (str "[Interface]") (c.interfaceFields i p) with
  | error e => simp only [error_bind]
  | ok config =>
    rw [ok_bind, ok_bind, foldlM_cons_of_ok (Awg.Parser.line_empty _),
      Awg.Parser.foldlM_section (.inr rfl) hpeerNew hpeer hnodup']
    · cases config.fields (str "[Peer]") (c.peerFields i p) with
      | error e => simp only [error_bind]
      | ok config' => rw [ok_bind, ok_bind, foldlM_cons_of_ok (Awg.Parser.line_empty _)]; rfl
    · -- No field of the peer was seen in the interface.
      intro f _ hmem
      rw [List.mem_append, List.mem_reverse, List.mem_map] at hmem
      rcases hmem with ⟨g, _, heq⟩ | hmem
      · exact hsect _ _ heq.symm
      · exact List.not_mem_nil hmem

/-- The configuration a client reads. -/
def Config.parsed (c : Config) (i : Identity) (p : Peer) (privateKey server psk : Key)
    (allowed : List Prefix) : Awg.Config where
  endpoint := trimSpace c.endpoint
  address := p.address
  dns := c.dns
  allowed := allowed.map (·.masked.string)
  ipv6Ignored := false
  mtu := c.mtu
  privateKey := hexEncode privateKey
  publicKey := hexEncode server
  psk := hexEncode psk
  params := i.params
  keepalive := decimal 25

theorem hexEncode_key_ne_nil (k : Key) : hexEncode k ≠ [] := by
  intro h
  have := length_hexEncode_key k
  rw [h] at this
  cases this

include hc haddr in
/-- No required field is missing. -/
theorem parsed_finish (hendpoint : Awg.Config.EndpointOK (trimSpace c.endpoint)) :
    (c.parsed i p privateKey server psk allowed).finish =
      .ok (c.parsed i p privateKey server psk allowed) := by
  have hne : trimSpace c.endpoint ≠ [] := by
    obtain ⟨h, q, n, hsplit, _⟩ := hendpoint
    rintro heq
    rw [heq] at hsplit
    cases hsplit
  have haddress : p.address ≠ [] := haddr ▸ Addr.string_v4_ne_nil address
  have hdns : c.dns ≠ [] := hc.dns ▸ Addr.string_v4_ne_nil dns
  have hmin : i.params.lookup (str "jmin") = some (decimal 50) :=
    i.lookup_params (f := (str "Jmin", 50)) (by simp [Identity.paramFields])
  have hmax : i.params.lookup (str "jmax") = some (decimal 1000) :=
    i.lookup_params (f := (str "Jmax", 1000)) (by simp [Identity.paramFields])
  have hle : ¬ (atoi (decimal 1000)).getD 0 < (atoi (decimal 50)).getD 0 := by decide
  simp only [Awg.Config.finish, Config.parsed, hexEncode_key_ne_nil, haddress, hne, hdns,
    List.map_eq_nil_iff, hc.ne_nil, hmin, hmax, Option.getD_some, hle, or_self, if_false]

include hc hi hpriv hpsk haddr in
/-- What a client reads from the text written for it. -/
theorem client_read : Guarded ((c.client i p).length ≤ 32768 ∧ (∃ x ∈ privateKey.1, x ≠ 0) ∧
      (∃ x ∈ server.1, x ≠ 0) ∧ (∃ x ∈ psk.1, x ≠ 0) ∧
      Awg.Config.EndpointOK (trimSpace c.endpoint))
    (c.parsed i p privateKey server psk allowed) (Awg.parse (c.client i p)) := by
  have hbody : Guarded ((∃ x ∈ privateKey.1, x ≠ 0) ∧ ((∃ x ∈ server.1, x ≠ 0) ∧
        (∃ x ∈ psk.1, x ≠ 0) ∧ Awg.Config.EndpointOK (trimSpace c.endpoint)) ∧ True)
      (c.parsed i p privateKey server psk allowed) (do
        let config ← Awg.Config.empty.fields (str "[Interface]") (c.interfaceFields i p)
        let config ← config.fields (str "[Peer]") (c.peerFields i p)
        config.finish) :=
    (interface_read hc hpriv haddr).bind fun _ => (peer_read hc hi hpsk _).bind fun h =>
      .of_eq (parsed_finish hc haddr h.2.2)
  rw [parse_client hc hi hpriv hpsk haddr]
  exact (hbody.ite _).congr (by simp only [not_lt, and_true])

/-- What is written before the endpoint. -/
def Config.clientHead (c : Config) (i : Identity) (p : Peer) : Bytes :=
  let h := fun k => decimal (i.headers.getD k 0).toNat
  str "[Interface]\nPrivateKey = " ++ p.privateKey ++ str "\nAddress = " ++ p.address ++
    str "/32\nDNS = " ++ c.dns ++ str "\nMTU = " ++ itoa c.mtu ++
    str "\nJc = 5\nJmin = 50\nJmax = 1000\nS1 = 134\nS2 = 90\nH1 = " ++ h 0 ++
    str "\nH2 = " ++ h 1 ++ str "\nH3 = " ++ h 2 ++ str "\nH4 = " ++ h 3 ++
    str "\n\n[Peer]\nPublicKey = " ++ i.publicKey ++ str "\nPresharedKey = " ++ p.psk ++
    str "\nAllowedIPs = " ++ join c.allowedIPs (str ", ") ++ str "\nEndpoint = "

theorem Config.client_eq_append (c : Config) (i : Identity) (p : Peer) :
    c.client i p = c.clientHead i p ++ (c.endpoint ++ str "\nPersistentKeepalive = 25\n") := by
  unfold Config.client Config.clientHead
  exact List.append_assoc _ c.endpoint _

include hc hi hpriv hpsk haddr in
/-- All that is written but for the endpoint is ASCII. -/
theorem clientHead_ascii : ∀ x ∈ c.clientHead i p,
    isGraphic x = true ∨ x = ascii ' ' ∨ x = ascii '\n' := by
  have hplain : ∀ {s}, Awg.Plain s →
      ∀ x ∈ s, isGraphic x = true ∨ x = ascii ' ' ∨ x = ascii '\n' :=
    fun h x hx => .inl (h.graphic x hx)
  have hallowed : ∀ x ∈ join c.allowedIPs (str ", "),
      isGraphic x = true ∨ x = ascii ' ' ∨ x = ascii '\n' := by
    intro x hx
    rcases (joined_allowed hc).2.2 x hx with rfl | rfl | hx
    · exact .inl (by decide)
    · exact .inr (.inl rfl)
    · exact .inl hx.1
  have hdns := (plain_addresses hc haddr).2.1
  have hmtu := (plain_addresses hc haddr).2.2
  unfold Config.clientHead
  rw [hi, hpriv, hpsk, haddr]
  simp only [List.forall_mem_append]
  have hh : ∀ n, ∀ x ∈ decimal n, isGraphic x = true ∨ x = ascii ' ' ∨ x = ascii '\n' :=
    fun n => hplain (.decimal n)
  refine ⟨⟨⟨⟨⟨⟨⟨⟨⟨⟨⟨⟨⟨⟨⟨⟨⟨⟨⟨⟨⟨⟨?_, hplain (plain_key _)⟩, ?_⟩, hplain (.string_v4 _)⟩, ?_⟩, hplain hdns⟩, ?_⟩,
    hplain hmtu⟩, ?_⟩, hh _⟩, ?_⟩, hh _⟩, ?_⟩, hh _⟩, ?_⟩, hh _⟩, ?_⟩, hplain (plain_key _)⟩, ?_⟩,
    hplain (plain_key _)⟩, ?_⟩, hallowed⟩, ?_⟩
  all_goals decide +kernel

end Read

/-! ## The size of the text -/

theorem length_pickHeaders {k : ℕ} {seen draws hs : List UInt32}
    (h : pickHeaders k seen draws = some hs) : hs.length = seen.length + k := by
  fun_induction pickHeaders k seen draws with
  | case1 seen draws =>
    cases h
    rfl
  | case2 => cases h
  | case3 k seen n draws _ ih =>
    rw [ih h, List.length_append, List.length_singleton]
    omega
  | case4 k seen n draws _ ih => exact ih h

/-- The bytes of the values that have no fixed length. -/
def Config.valueBytes (c : Config) (headers : List UInt32) (address : Bytes) : ℕ :=
  address.length + c.dns.length + c.endpoint.length + (c.allowedIPs.map (·.length + 2)).sum +
    (headers.map fun h => (decimal h.toNat).length).sum

theorem length_itoa_mtu {n : ℤ} (h : 1280 ≤ n) (h' : n ≤ 1420) : (itoa n).length = 4 := by
  obtain ⟨k, rfl⟩ := Int.eq_ofNat_of_zero_le (show 0 ≤ n by omega)
  rw [itoa, if_neg (by omega), Int.natAbs_natCast]
  rw [decimal_of_le (by omega), decimal_of_le (by omega), decimal_of_le (by omega),
    decimal_of_lt (by omega)]
  rfl

variable {i : Identity} {p : Peer}

theorem length_client {dns : BitVec 32} {allowed : List Prefix} (hc : c.Checked dns allowed)
    (hlen : i.headers.length = 4) {server privateKey psk : Key}
    (hi : i.publicKey = base64Encode server) (hpriv : p.privateKey = base64Encode privateKey)
    (hpsk : p.psk = base64Encode psk) :
    (c.client i p).length = c.valueBytes i.headers p.address + 346 := by
  have hkey : ∀ k : Key, (base64Encode k).length = 44 := fun k => by
    rw [length_base64Encode, k.2]
  have hne : c.allowedIPs ≠ [] := by
    rw [hc.allowedIPs]
    simpa using hc.ne_nil
  have hjoin := length_join hne (str ", ")
  obtain ⟨h0, h1, h2, h3, hheaders⟩ := List.length_eq_four.1 hlen
  have hfixed : (str "[Interface]\nPrivateKey = ").length + (str "\nAddress = ").length +
      (str "/32\nDNS = ").length + (str "\nMTU = ").length +
      (str "\nJc = 5\nJmin = 50\nJmax = 1000\nS1 = 134\nS2 = 90\nH1 = ").length +
      (str "\nH2 = ").length + (str "\nH3 = ").length + (str "\nH4 = ").length +
      (str "\n\n[Peer]\nPublicKey = ").length + (str "\nPresharedKey = ").length +
      (str "\nAllowedIPs = ").length + (str "\nEndpoint = ").length +
      (str "\nPersistentKeepalive = 25\n").length = 212 := rfl
  unfold Config.client Config.valueBytes
  rw [hi, hpriv, hpsk, hheaders]
  simp only [List.length_append, hkey, length_itoa_mtu hc.mtu.1 hc.mtu.2, List.getD_cons_zero,
    List.getD_cons_succ, List.map_cons, List.map_nil, List.sum_cons, List.sum_nil]
  rw [show (str ", ").length = 2 by decide] at hjoin
  omega

/-- The endpoint is one for clients: its host is more than white space, and is not an
    IPv6 address. -/
def Config.ClientEndpoint (c : Config) : Prop :=
  (trimSpace c.endpoint).head? ≠ some (ascii ':') ∧
    ∀ host port a, splitHostPort c.endpoint = some (host, port) → parseAddr host = some a →
      a.is4 = true

theorem encode_zero_ne_iff {k : Key} :
    ¬ base64Encode (List.replicate 32 0) = base64Encode k ↔ ∃ x ∈ k.1, x ≠ 0 := by
  constructor
  · intro h
    by_contra hzero
    push Not at hzero
    exact h (congrArg base64Encode (List.eq_replicate_iff.2 ⟨k.2, hzero⟩).symm)
  · rintro ⟨x, hx, hne⟩ heq
    have hdecode := congrArg base64Decode heq
    rw [base64Decode_encode, base64Decode_encode] at hdecode
    rw [← Option.some.inj hdecode] at hx
    exact hne (List.eq_of_mem_replicate hx)

/-- A client accepts the text exactly when no key is zero, the endpoint is one for
    clients and the text is not too long. -/
theorem parse_client_iff {dns : BitVec 32} {allowed : List Prefix} (hc : c.Checked dns allowed)
    {server : Key} (hi : i.publicKey = base64Encode server) (hheaders : i.headers.length = 4)
    {privateKey psk : Key} {address : BitVec 32} (hpriv : p.privateKey = base64Encode privateKey)
    (hpsk : p.psk = base64Encode psk) (haddr : p.address = (Addr.v4 address).string) :
    (∃ config, Awg.parse (c.client i p) = .ok config) ↔
      base64Encode (List.replicate 32 0) ∉ [i.publicKey, p.privateKey, p.psk] ∧
        c.ClientEndpoint ∧ c.valueBytes i.headers (Addr.v4 address).string ≤ 32422 := by
  obtain ⟨host, port, n, hendpoint⟩ := Config.exists_validEndpoint hc.endpoint
  have hread := client_read hc hi hpriv hpsk haddr
  rw [length_client hc hheaders hi hpriv hpsk, haddr, hendpoint.endpointOK_iff] at hread
  have hclient : c.ClientEndpoint ↔ (trimSpace c.endpoint).head? ≠ some (ascii ':') ∧
      ∀ a, parseAddr host = some a → a.is4 = true := by
    refine and_congr_right fun _ => ⟨fun h a => h host port a hendpoint.split, ?_⟩
    rintro h host' port' a hsplit
    rw [hendpoint.split] at hsplit
    cases hsplit
    exact h a
  rw [hclient, hi, hpriv, hpsk]
  simp only [List.mem_cons, List.not_mem_nil, or_false, not_or, encode_zero_ne_iff]
  constructor
  · rintro ⟨config, hconfig⟩
    obtain ⟨⟨hlen, hprivate, hserver, hshared, hok⟩, _⟩ := hread.eq_ok_iff.1 hconfig
    exact ⟨⟨hserver, hprivate, hshared⟩, hok, by omega⟩
  · rintro ⟨⟨hserver, hprivate, hshared⟩, hok, hlen⟩
    exact ⟨_, hread.accepts ⟨by omega, hprivate, hserver, hshared, hok⟩⟩

/-! ## The tunnel -/

theorem newIdentity_ok {seed : Except String IdentitySeed} (h : newIdentity seed = .ok i) :
    (∃ server : Key, i.publicKey = base64Encode server) ∧ i.headers.length = 4 := by
  cases seed with
  | error e => cases h
  | ok seed =>
    cases h
    exact ⟨⟨seed.publicKey, rfl⟩, length_pickHeaders (Option.eq_some_of_isSome seed.enough)⟩

theorem newPeer_ok {address : Bytes} {seed : Except String PeerSeed}
    (h : newPeer address seed = .ok p) : p.address = address ∧
      ∃ privateKey psk : Key, p.privateKey = base64Encode privateKey ∧
        p.psk = base64Encode psk := by
  cases seed with
  | error e => cases h
  | ok seed =>
    cases h
    exact ⟨rfl, seed.privateKey, seed.psk, rfl, rfl⟩

/-- The text with which a client sets up its device. -/
theorem ipc_parsed (c : Config) (i : Identity) (p : Peer) (privateKey server psk : Key)
    (allowed : List Prefix) (endpoint : Bytes) :
    (c.parsed i p privateKey server psk allowed).ipc endpoint =
      str "private_key=" ++ hexEncode privateKey ++ str "\n" ++ i.parameters ++
        str "replace_peers=true\npublic_key=" ++ hexEncode server ++ str "\nendpoint=" ++ endpoint ++
        str "\npreshared_key=" ++ hexEncode psk ++ str "\npersistent_keepalive_interval=25\n" ++
        allowed.flatMap fun q => str "allowed_ip=" ++ q.masked.string ++ str "\n" := by
  have hpsk : str "\npreshared_key=" = str "\n" ++ str "preshared_key=" := by decide
  have hkeepalive : str "\npersistent_keepalive_interval=25\n" =
      str "\n" ++ (str "persistent_keepalive_interval=" ++ (decimal 25 ++ str "\n")) := by decide
  rw [Awg.Config.ipc, i.flatMap_params rfl, hpsk, hkeepalive]
  simp only [Config.parsed, ne_eq, hexEncode_key_ne_nil, decimal_ne_nil, not_false_eq_true, if_true,
    List.flatMap_map, List.append_assoc]

/-- The server and a client that accepts its configuration agree on the tunnel: the
    client sets its device up with the parameters and the public key of the server,
    with its own private key, with the preshared key and the address the server
    installs for it, and with the allowed networks of the configuration. The address
    of a peer is the text of any IPv4 address. -/
theorem client_agrees {c : Config} (hc : c.validate = none) {seed : Except String IdentitySeed}
    {i : Identity} (hi : newIdentity seed = .ok i) {p : Peer} {privateKey publicKey psk : Key}
    (hpriv : p.privateKey = base64Encode privateKey) (hpub : p.publicKey = base64Encode publicKey)
    (hpsk : p.psk = base64Encode psk) {address : BitVec 32}
    (haddr : p.address = (Addr.v4 address).string) {config : Awg.Config}
    (h : Awg.parse (c.client i p) = .ok config) :
    ∃ (serverHex privateHex publicHex pskHex : Bytes) (allowed : List Prefix),
      keyHex i.publicKey = .ok serverHex ∧ keyHex p.privateKey = .ok privateHex ∧
      keyHex p.publicKey = .ok publicHex ∧
      (∀ now users desired, checkUsers (parsePrefix c.address) now users [] ∅ = .ok desired →
        p ∈ enabledPeers now users →
          desired.lookup publicHex = some (peerText publicHex pskHex config.address)) ∧
      c.allowedIPs.map parsePrefix = allowed.map some ∧
      (∀ endpoint, config.ipc endpoint =
        str "private_key=" ++ privateHex ++ str "\n" ++ i.parameters ++
          str "replace_peers=true\npublic_key=" ++ serverHex ++ str "\nendpoint=" ++ endpoint ++
          str "\npreshared_key=" ++ pskHex ++ str "\npersistent_keepalive_interval=25\n" ++
          allowed.flatMap fun q => str "allowed_ip=" ++ q.masked.string ++ str "\n") ∧
      config.dns = c.dns ∧ config.mtu = c.mtu := by
  obtain ⟨dns, allowed, hchecked⟩ := Config.checked_of_validate hc
  obtain ⟨⟨server, hserver⟩, _⟩ := newIdentity_ok hi
  obtain ⟨_, rfl⟩ := (client_read hchecked hserver hpriv hpsk haddr).eq_ok_iff.1 h
  have hpublic : keyHex p.publicKey = .ok (hexEncode publicKey) := hpub ▸ keyHex_encode publicKey
  have hshared : keyHex p.psk = .ok (hexEncode psk) := hpsk ▸ keyHex_encode psk
  refine ⟨hexEncode server, hexEncode privateKey, hexEncode publicKey, hexEncode psk, allowed,
    hserver ▸ keyHex_encode server, hpriv ▸ keyHex_encode privateKey, hpublic, ?_, ?_,
    ipc_parsed c i p privateKey server psk allowed, rfl, rfl⟩
  · intro now users desired hcheck hp
    rw [(checkUsers_ok hcheck).2]
    exact .inr ⟨p, hp, (Peer.stanza_iff hpublic hshared).2 ⟨rfl, rfl⟩⟩
  · rw [hchecked.allowedIPs, List.map_map]
    refine List.map_congr_left fun q hq => ?_
    obtain ⟨a, ha⟩ := Addr.exists_v4 (hchecked.is4 q hq)
    exact (Prefix.parsePrefix_eq_v4_iff ha).2 rfl

/-- The identity of a server. -/
def sampleIdentity : Identity :=
  ⟨base64Encode (sampleKey 1), base64Encode (sampleKey 2), [5, 6, 7, 8]⟩

/-- A peer of the server. -/
def samplePeer : Peer :=
  ⟨base64Encode (sampleKey 3), base64Encode (sampleKey 4), base64Encode (sampleKey 5),
    (Addr.v4 0x0A080002).string⟩

theorem sampleKey_ne_zero {n : UInt8} (h : n ≠ 0) : ∃ x ∈ (sampleKey n).1, x ≠ 0 :=
  ⟨n, List.mem_replicate.2 ⟨by decide, rfl⟩, h⟩

theorem newIdentity_sample :
    newIdentity (.ok ⟨sampleKey 1, sampleKey 2, [5, 6, 7, 8], rfl⟩) = .ok sampleIdentity := rfl

/-- What a client reads from a text written for the sample peer. -/
theorem sample_read (hc : c.validate = none)
    (hbytes : c.valueBytes [5, 6, 7, 8] (Addr.v4 0x0A080002).string ≤ 32422) : ∃ config,
      Guarded (Awg.Config.EndpointOK (trimSpace c.endpoint)) config
        (Awg.parse (c.client sampleIdentity samplePeer)) := by
  obtain ⟨dns, allowed, hchecked⟩ := Config.checked_of_validate hc
  refine ⟨_, (client_read hchecked (i := sampleIdentity) rfl (p := samplePeer) rfl rfl rfl).congr ?_⟩
  have hlen : (c.client sampleIdentity samplePeer).length ≤ 32768 := by
    rw [length_client hchecked rfl (i := sampleIdentity) (p := samplePeer) rfl rfl rfl]
    exact Nat.add_le_add_right hbytes 346
  simp only [hlen, sampleKey_ne_zero (show (3 : UInt8) ≠ 0 by decide),
    sampleKey_ne_zero (show (2 : UInt8) ≠ 0 by decide),
    sampleKey_ne_zero (show (5 : UInt8) ≠ 0 by decide), true_and]

/-- The tunnel of the sample peer. -/
theorem client_agrees_sample : ∃ config,
    Awg.parse (sampleConfig.client sampleIdentity samplePeer) = .ok config ∧
      ∃ (serverHex privateHex pskHex : Bytes) (allowed : List Prefix),
        keyHex sampleIdentity.publicKey = .ok serverHex ∧
        keyHex samplePeer.privateKey = .ok privateHex ∧
        ∀ endpoint, config.ipc endpoint =
          str "private_key=" ++ privateHex ++ str "\n" ++ sampleIdentity.parameters ++
            str "replace_peers=true\npublic_key=" ++ serverHex ++ str "\nendpoint=" ++ endpoint ++
            str "\npreshared_key=" ++ pskHex ++ str "\npersistent_keepalive_interval=25\n" ++
            allowed.flatMap fun q => str "allowed_ip=" ++ q.masked.string ++ str "\n" := by
  have hc : sampleConfig.validate = none := by decide
  obtain ⟨config, hread⟩ := sample_read hc (by decide)
  have hparse := hread.accepts ⟨str "vpn", str "51820", 51820, by decide, by decide, by decide,
    by decide⟩
  obtain ⟨serverHex, privateHex, _, pskHex, allowed, hserver, hpriv, _, _, _, hipc, _⟩ :=
    client_agrees hc newIdentity_sample (p := samplePeer) rfl rfl rfl rfl hparse
  exact ⟨config, hparse, serverHex, privateHex, pskHex, allowed, hserver, hpriv, hipc⟩

/-- A client accepts the configuration exactly when the endpoint is one for clients and
    the text is not too long. -/
theorem client_accepted_iff {c : Config} (hc : c.validate = none)
    {seed : Except String IdentitySeed} {i : Identity} (hi : newIdentity seed = .ok i)
    {address : BitVec 32} {peerSeed : Except String PeerSeed} {p : Peer}
    (hp : newPeer (Addr.v4 address).string peerSeed = .ok p)
    (hzero : base64Encode (List.replicate 32 0) ∉
      [i.privateKey, i.publicKey, p.privateKey, p.publicKey, p.psk]) :
    (∃ config, Awg.parse (c.client i p) = .ok config) ↔
      c.ClientEndpoint ∧ c.valueBytes i.headers (Addr.v4 address).string ≤ 32422 := by
  obtain ⟨dns, allowed, hchecked⟩ := Config.checked_of_validate hc
  obtain ⟨⟨server, hserver⟩, hheaders⟩ := newIdentity_ok hi
  obtain ⟨haddr, privateKey, psk, hpriv, hpsk⟩ := newPeer_ok hp
  simp only [List.mem_cons, List.not_mem_nil, or_false, not_or] at hzero
  rw [parse_client_iff hchecked hserver hheaders hpriv hpsk haddr]
  refine and_iff_right ?_
  simp only [List.mem_cons, List.not_mem_nil, or_false, not_or]
  exact ⟨hzero.2.1, hzero.2.2.1, hzero.2.2.2.2⟩

/-- The sample peer imports its configuration. -/
theorem client_accepted_sample : sampleConfig.validate = none ∧
    ∃ config, Awg.parse (sampleConfig.client sampleIdentity samplePeer) = .ok config := by
  have hc : sampleConfig.validate = none := by decide
  have hsplit : splitHostPort sampleConfig.endpoint = some (str "vpn", str "51820") := by decide
  have hp : newPeer (Addr.v4 0x0A080002).string (.ok ⟨sampleKey 3, sampleKey 4, sampleKey 5⟩) =
    .ok samplePeer := rfl
  refine ⟨hc, (client_accepted_iff hc newIdentity_sample hp (by decide)).2
      ⟨⟨by decide, fun host port a hs ha => ?_⟩, by decide⟩⟩
  rw [hsplit] at hs
  cases hs
  rw [show parseAddr (str "vpn") = none by decide] at ha
  cases ha

/-- The sample configuration with an IPv6 endpoint, which the server accepts and the
    client does not. -/
theorem client_rejected_ipv6 : ∃ c : Config, c.validate = none ∧
    (∃ network, parsePrefix c.address = some network ∧ Host network 0x0A080002) ∧
    newIdentity (.ok ⟨sampleKey 1, sampleKey 2, [5, 6, 7, 8], rfl⟩) = .ok sampleIdentity ∧
    newPeer (Addr.v4 0x0A080002).string (.ok ⟨sampleKey 3, sampleKey 4, sampleKey 5⟩) =
      .ok samplePeer ∧
    base64Encode (List.replicate 32 0) ∉ [sampleIdentity.privateKey, sampleIdentity.publicKey,
      samplePeer.privateKey, samplePeer.publicKey, samplePeer.psk] ∧
    ¬ ∃ config, Awg.parse (c.client sampleIdentity samplePeer) = .ok config := by
  have hc : { sampleConfig with endpoint := str "[::1]:51820" }.validate = none := by decide
  obtain ⟨config, hread⟩ := sample_read hc (by decide)
  refine ⟨_, hc, ⟨_, rfl, _, rfl, by decide, by decide, by decide⟩, newIdentity_sample, rfl,
    by decide, ?_⟩
  rintro ⟨config', hparse⟩
  obtain ⟨⟨host, port, n, hsplit, _, _, h4⟩, _⟩ := hread.eq_ok_iff.1 hparse
  have hhost : splitHostPort (trimSpace (str "[::1]:51820")) = some (str "::1", str "51820") := by
    decide
  rw [hhost] at hsplit
  cases hsplit
  exact h4 (by decide)

end QuicLab.AwgServer
