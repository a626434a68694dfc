import Mathlib.Data.List.TakeWhile
import QuicLab.Go.Base64
import QuicLab.Go.JsonText
import QuicLab.Go.Map
import QuicLab.Go.Net
import QuicLab.Go.Reader
import QuicLab.Go.Strings
import QuicLab.Guarded

/-!
# The configuration of an AWG client

The text of a configuration, as `awg.Parse` reads it line by line, and the text
with which `Config.IPC` sets up the device.

What a line of the usual form `key = value` does to the configuration is
`Parser.line_assign`: the line is that field with the value trimmed.
-/

namespace QuicLab.Awg

open Go Netip

/-- The configuration of a client. -/
structure Config where
  endpoint : Bytes
  address : Bytes
  dns : Bytes
  allowed : List Bytes
  ipv6Ignored : Bool
  mtu : ℤ
  privateKey : Bytes
  publicKey : Bytes
  psk : Bytes
  params : Map Bytes Bytes
  keepalive : Bytes

namespace Config

/-- The configuration before the first line. -/
def empty : Config where
  endpoint := []
  address := []
  dns := []
  allowed := []
  ipv6Ignored := false
  mtu := 1280
  privateKey := []
  publicKey := []
  psk := []
  params := ∅
  keepalive := []

/-! ## Fields -/

/-- A key, in hexadecimal. -/
def key (k v : Bytes) : Except Error Bytes :=
  match base64Decode v with
  | none => .error (.errorf "invalid %s" [k])
  | some b =>
    if b.length ≠ 32 then .error (.errorf "invalid %s" [k])
    else if b.all (· = 0) then .error (.errorf "zero %s" [k])
    else .ok (hexEncode b)

/-- One of the addresses of `Address`. -/
def addAddress (c : Config) (s : Bytes) : Except Error Config :=
  let s := trimSpace s
  let s := if ascii '/' ∈ s then s else s ++ str "/32"
  match parsePrefix s with
  | none => .error (.new "invalid Address")
  | some a =>
    if a.addr.is4 then
      if c.address ≠ [] then .error (.new "one IPv4 Address supported")
      else .ok { c with address := a.addr.string }
    else .ok { c with ipv6Ignored := true }

/-- `DNS`. -/
def setDNS (c : Config) (v : Bytes) : Except Error Config :=
  match parseAddr v with
  | some (.v4 a) => .ok { c with dns := (Addr.v4 a).string }
  | _ => .error (.new "DNS must be one IPv4 address")

/-- `MTU`. -/
def setMTU (c : Config) (v : Bytes) : Except Error Config :=
  match atoi v with
  | none => .error (.new "MTU must be 1280..1420")
  | some n =>
    if n < 1280 ∨ 1420 < n then .error (.new "MTU must be 1280..1420") else .ok { c with mtu := n }

/-- `Endpoint`: an IPv6 address is refused. -/
def setEndpoint (c : Config) (v : Bytes) : Except Error Config :=
  match splitHostPort v with
  | none => .error (.new "invalid Endpoint")
  | some (h, p) =>
    match atoi p with
    | none => .error (.new "invalid Endpoint")
    | some n =>
      if h = [] ∨ h.any (· ∈ str " \r\n\t") ∨ n < 1 ∨ 65535 < n then
        .error (.new "invalid Endpoint")
      else if (parseAddr h).any (!·.is4) then .error (.new "IPv4 Endpoint required")
      else .ok { c with endpoint := v }

/-- One of the prefixes of `AllowedIPs`. -/
def addAllowed (c : Config) (s : Bytes) : Except Error Config :=
  match parsePrefix (trimSpace s) with
  | none => .error (.new "invalid AllowedIPs")
  | some a =>
    if a.addr.is4 then .ok { c with allowed := c.allowed ++ [a.masked.string] }
    else .ok { c with ipv6Ignored := true }

/-- `PersistentKeepalive`. -/
def setKeepalive (c : Config) (v : Bytes) : Except Error Config :=
  match parseUint v 16 with
  | none => .error (.new "invalid PersistentKeepalive")
  | some n => .ok { c with keepalive := decimal n }

/-- The parameters of obfuscation, and the bound of those that have one. -/
def paramBounds : List (Bytes × Option ℕ) :=
  [(str "Jc", some 128), (str "Jmin", some 1280), (str "Jmax", some 1280), (str "S1", some 1280),
    (str "S2", some 1280), (str "H1", none), (str "H2", none), (str "H3", none), (str "H4", none)]

/-- The other fields: the parameters of obfuscation. -/
def setParam (c : Config) (sect k v : Bytes) : Except Error Config :=
  match if sect = str "[Interface]" then paramBounds.lookup k else none with
  | none => .error (.errorf "unsupported AWG field %s (legacy format only)" [k])
  | some bound =>
    match parseUint v 32 with
    | none => .error (.errorf "invalid %s" [k])
    | some n =>
      if bound.any (· < n) then .error (.errorf "%s exceeds supported bound" [k])
      else .ok { c with params := c.params.insert (toLower k) (decimal n) }

/-- The value `v` of the field `k` of a section. -/
def field (c : Config) (sect k v : Bytes) : Except Error Config :=
  let tag := sect ++ k
  if tag = str "[Interface]PrivateKey" then (fun s => { c with privateKey := s }) <$> key k v
  else if tag = str "[Peer]PublicKey" then (fun s => { c with publicKey := s }) <$> key k v
  else if tag = str "[Peer]PresharedKey" then (fun s => { c with psk := s }) <$> key k v
  else if tag = str "[Interface]Address" then (split v (ascii ',')).foldlM addAddress c
  else if tag = str "[Interface]DNS" then c.setDNS v
  else if tag = str "[Interface]MTU" then c.setMTU v
  else if tag = str "[Peer]Endpoint" then c.setEndpoint v
  else if tag = str "[Peer]AllowedIPs" then (split v (ascii ',')).foldlM addAllowed c
  else if tag = str "[Peer]PersistentKeepalive" then c.setKeepalive v
  else c.setParam sect k v

/-- The checks after the last line. -/
def finish (c : Config) : Except Error Config :=
  if c.privateKey = [] ∨ c.publicKey = [] ∨ c.address = [] ∨ c.endpoint = [] ∨ c.allowed = [] then
    .error (.new "AWG requires private/public keys, IPv4 Address, Endpoint and AllowedIPs")
  else if c.dns = [] then
    .error (.new "AWG requires an IPv4 DNS server for tunnel diagnostics")
  else
    let num := fun k => (atoi ((c.params.lookup k).getD [])).getD 0
    if num (str "jmax") < num (str "jmin") then .error (.new "Jmin exceeds Jmax")
    else .ok c

/-- The parameters, in the order of the device. -/
def paramNames : List Bytes :=
  [str "jc", str "jmin", str "jmax", str "s1", str "s2", str "h1", str "h2", str "h3", str "h4"]

/-- The line of a parameter, if it is set. -/
def paramLine (c : Config) (k : Bytes) : Bytes :=
  match c.params.lookup k with
  | none => []
  | some v => k ++ str "=" ++ v ++ str "\n"

/-- `Config.IPC`. -/
def ipc (c : Config) (endpoint : Bytes) : Bytes :=
  str "private_key=" ++ c.privateKey ++ str "\n" ++ paramNames.flatMap c.paramLine ++
    str "replace_peers=true\npublic_key=" ++ c.publicKey ++ str "\nendpoint=" ++ endpoint ++
    str "\n" ++
    (if c.psk ≠ [] then str "preshared_key=" ++ c.psk ++ str "\n" else []) ++
    (if c.keepalive ≠ [] then
      str "persistent_keepalive_interval=" ++ c.keepalive ++ str "\n" else []) ++
    c.allowed.flatMap fun p => str "allowed_ip=" ++ p ++ str "\n"

/-- `Config.Metadata`: the exported fields as JSON. -/
def metadata (c : Config) : Bytes :=
  str "\x7b\"endpoint\":" ++ jsonQuote c.endpoint ++ str ",\"address\":" ++ jsonQuote c.address ++
    str ",\"dns\":" ++ jsonQuote c.dns ++ str ",\"allowed_ips\":" ++
    (if c.allowed = [] then str "null"
      else str "[" ++ join (c.allowed.map jsonQuote) (str ",") ++ str "]") ++
    str ",\"ipv6_ignored\":" ++ str (if c.ipv6Ignored then "true" else "false") ++
    str ",\"mtu\":" ++ itoa c.mtu ++ str "\x7d"

end Config

/-! ## Lines -/

/-- The state of the loop over the lines: the section, and the fields and sections
    seen so far. -/
structure Parser where
  config : Config
  sect : Bytes
  seen : List Bytes
  sections : List Bytes

namespace Parser

/-- The state before the first line. -/
def start : Parser := ⟨.empty, [], [], []⟩

/-- A line that is neither empty nor a section. -/
def assign (st : Parser) (line : Bytes) : Except Error Parser :=
  match cut line (ascii '=') with
  | none => .error (.new "invalid AWG config line")
  | some (k, v) =>
    let k := trimSpace k
    let v := trimSpace v
    if st.sect = [] then .error (.new "invalid AWG config line")
    else if st.sect ++ k ∈ st.seen then .error (.errorf "duplicate AWG field %s" [k])
    else (fun config => { st with config, seen := (st.sect ++ k) :: st.seen }) <$>
      st.config.field st.sect k v

/-- One line. -/
def line (st : Parser) (line : Bytes) : Except Error Parser :=
  let line := trimSpace (line.takeWhile (· ≠ ascii '#'))
  if line = [] then .ok st
  else if line.head? = some (ascii '[') then
    if line ≠ str "[Interface]" ∧ line ≠ str "[Peer]" then .error (.new "unsupported AWG section")
    else if line ∈ st.sections then
      .error (.new "exactly one Interface and one Peer supported")
    else .ok { st with sect := line, sections := line :: st.sections }
  else st.assign line

end Parser

/-- `awg.Parse`. -/
def parse (raw : Bytes) : Except Error Config :=
  if 32768 < raw.length then .error (.new "AWG config exceeds 32 KiB")
  else do
    let st ← (split raw (ascii '\n')).foldlM Parser.line Parser.start
    st.config.finish

/-! ## Reading lines -/

/-- A text of graphic bytes that start no comment. -/
structure Plain (s : Bytes) : Prop where
  ne_nil : s ≠ []
  graphic : ∀ c ∈ s, isGraphic c = true
  comment : ascii '#' ∉ s

namespace Plain

variable {s : Bytes}

theorem startsGraphic (h : Plain s) : StartsGraphic s := startsGraphic_of_forall h.ne_nil h.graphic

theorem endsGraphic (h : Plain s) : EndsGraphic s := endsGraphic_of_forall h.ne_nil h.graphic

theorem trimSpace (h : Plain s) : Go.trimSpace s = s :=
  trimSpace_of_graphic h.startsGraphic h.endsGraphic

theorem newline (h : Plain s) : ascii '\n' ∉ s := fun hc => absurd (h.graphic _ hc) (by decide)

theorem of_forall (hs : s ≠ []) {P : UInt8 → Prop} (hP : ∀ c, P c → isGraphic c = true)
    (hcomment : ¬ P (ascii '#')) (h : ∀ c ∈ s, P c) : Plain s :=
  ⟨hs, fun c hc => hP c (h c hc), fun hc => hcomment (h _ hc)⟩

theorem append {t : Bytes} (h : Plain s) (h' : Plain t) : Plain (s ++ t) where
  ne_nil := List.append_ne_nil_of_left_ne_nil h.ne_nil t
  graphic c hc := (List.mem_append.1 hc).elim (h.graphic c) (h'.graphic c)
  comment hc := (List.mem_append.1 hc).elim h.comment h'.comment

theorem decimal (n : ℕ) : Plain (decimal n) :=
  .of_forall (decimal_ne_nil n) (P := fun c => isDigit c = true)
    (fun _ => isGraphic_of_isDigit) (by decide) fun _ => isDigit_of_mem_decimal

theorem base64Encode {b : Bytes} (hb : b ≠ []) : Plain (base64Encode b) := by
  have hdigit : ∀ n < 64, isGraphic (base64Digit n) = true ∧ base64Digit n ≠ ascii '#' := by decide
  refine .of_forall (fun h => hb ?_) (P := fun c => c = ascii '=' ∨ ∃ n < 64, c = base64Digit n)
    ?_ ?_ fun _ => mem_base64Encode
  · have hdec := base64Decode_encode b
    rw [h] at hdec
    exact (Option.some.inj hdec).symm
  · rintro c (rfl | ⟨n, hn, rfl⟩)
    · decide
    · exact (hdigit n hn).1
  · rintro (h | ⟨n, hn, h⟩)
    · exact absurd h (by decide)
    · exact (hdigit n hn).2 h.symm

theorem string_network {p : Prefix} {a : BitVec 32} (hp : p.addr = .v4 a) : Plain p.string := by
  refine .of_forall (by simp [Prefix.string])
    (P := fun c => isDigit c = true ∨ c = ascii '.' ∨ c = ascii '/') ?_ (by decide)
    fun _ => Prefix.mem_string_v4 hp
  rintro c (h | rfl | rfl)
  · exact isGraphic_of_isDigit h
  · decide
  · decide

theorem string_v4 (a : BitVec 32) : Plain (Addr.v4 a).string := by
  refine .of_forall (Addr.string_v4_ne_nil a) (P := fun c => isDigit c = true ∨ c = ascii '.') ?_
    (by decide) fun _ => Addr.mem_string_v4
  rintro c (h | rfl)
  · exact isGraphic_of_isDigit h
  · decide

end Plain

/-- The key of a line: it does not end it nor start a section. -/
structure PlainKey (k : Bytes) : Prop extends Plain k where
  equals : ascii '=' ∉ k
  bracket : k.head? ≠ some (ascii '[')

/-- A line `key = value` is read as the key and the value without the white space
    before it. -/
theorem Parser.line_assign {st : Parser} {k v : Bytes} (hk : PlainKey k)
    (hv : ascii '#' ∉ v) (hend : EndsGraphic v) (hsect : st.sect ≠ [])
    (hnew : st.sect ++ k ∉ st.seen) :
    st.line (k ++ str " = " ++ v) =
      (fun config => { st with config, seen := (st.sect ++ k) :: st.seen }) <$>
        st.config.field st.sect k (trimSpace v) := by
  have hline : k ++ str " = " ++ v = (k ++ [32]) ++ ascii '=' :: 32 :: v := by
    rw [show str " = " = [32] ++ ascii '=' :: [32] by decide]
    simp only [List.append_assoc, List.cons_append, List.nil_append]
  -- No comment is cut off, and there is no white space at the ends.
  have hcomment : (k ++ str " = " ++ v).takeWhile (fun c => decide (c ≠ ascii '#')) =
      k ++ str " = " ++ v := by
    rw [List.takeWhile_eq_self_iff]
    intro c hc
    rw [decide_eq_true_eq]
    rintro rfl
    rcases List.mem_append.1 hc with hc | hc
    · rcases List.mem_append.1 hc with hc | hc
      · exact hk.comment hc
      · exact absurd hc (by decide)
    · exact hv hc
  have htrim : trimSpace (k ++ str " = " ++ v) = k ++ str " = " ++ v :=
    trimSpace_of_graphic ((hk.startsGraphic.append _).append _) (hend.append _)
  have hempty : k ++ str " = " ++ v ≠ [] := by simp [hk.ne_nil]
  have hsection : (k ++ str " = " ++ v).head? ≠ some (ascii '[') := by
    rw [List.append_assoc, List.head?_append_of_ne_nil _ hk.ne_nil]
    exact hk.bracket
  have hcut : cut (k ++ str " = " ++ v) (ascii '=') = some (k ++ [32], 32 :: v) := by
    rw [hline]
    refine cut_append (fun hc => ?_) _
    rcases List.mem_append.1 hc with hc | hc
    · exact hk.equals hc
    · exact absurd hc (by decide)
  rw [Parser.line, hcomment, htrim]
  simp only [hempty, hsection, if_false]
  rw [Parser.assign, hcut]
  simp only [trimSpace_append_blank hk.startsGraphic hk.endsGraphic, trimSpace_blank_cons, hsect, hnew, if_false]

theorem Parser.line_empty (st : Parser) : st.line [] = .ok st := rfl

/-- A section that is new. -/
theorem Parser.line_section {st : Parser} {s : Bytes}
    (hs : s = str "[Interface]" ∨ s = str "[Peer]") (hnew : s ∉ st.sections) :
    st.line s = .ok { st with sect := s, sections := s :: st.sections } := by
  have hline : trimSpace (s.takeWhile (· ≠ ascii '#')) = s ∧ s ≠ [] ∧
      s.head? = some (ascii '[') := by
    rcases hs with rfl | rfl <;> decide
  obtain ⟨htrim, hne, hhead⟩ := hline
  have hknown : ¬ (s ≠ str "[Interface]" ∧ s ≠ str "[Peer]") := fun h => hs.elim h.1 h.2
  simp only [Parser.line, htrim, hne, hhead, hknown, hnew, if_true, if_false]

/-- The lines of a section, `key = value`. -/
def fieldLines (fields : List (Bytes × Bytes)) : List Bytes :=
  fields.map fun f => f.1 ++ str " = " ++ f.2

/-- Reads the fields of a section. -/
def Config.fields (c : Config) (sect : Bytes) (fields : List (Bytes × Bytes)) :
    Except Error Config :=
  fields.foldlM (fun c f => c.field sect f.1 (trimSpace f.2)) c

/-- The lines of new fields are read field by field. -/
theorem Parser.foldlM_fieldLines {st : Parser} {fields : List (Bytes × Bytes)}
    (hfields : ∀ f ∈ fields, PlainKey f.1 ∧ ascii '#' ∉ f.2 ∧ EndsGraphic f.2)
    (hnodup : (fields.map Prod.fst).Nodup) (hsect : st.sect ≠ [])
    (hnew : ∀ f ∈ fields, st.sect ++ f.1 ∉ st.seen) :
    (fieldLines fields).foldlM Parser.line st =
      (fun config => { st with config, seen := (fields.map (st.sect ++ ·.1)).reverse ++ st.seen })
        <$> st.config.fields st.sect fields := by
  induction fields generalizing st with
  | nil => rfl
  | cons f fields ih =>
    obtain ⟨hk, hv, hend⟩ := hfields f List.mem_cons_self
    rw [List.map_cons, List.nodup_cons] at hnodup
    rw [fieldLines, List.map_cons, List.foldlM_cons, Parser.line_assign hk hv hend hsect
      (hnew f List.mem_cons_self), Config.fields, List.foldlM_cons]
    cases st.config.field st.sect f.1 (trimSpace f.2) with
    | error e => rfl
    | ok config =>
      let st' : Parser := { st with config, seen := (st.sect ++ f.1) :: st.seen }
      have hnew' : ∀ g ∈ fields, st'.sect ++ g.1 ∉ st'.seen := by
        intro g hg hmem
        rcases List.mem_cons.1 hmem with heq | hmem
        · exact hnodup.1 (List.append_cancel_left heq ▸ List.mem_map_of_mem hg)
        · exact hnew g (List.mem_cons_of_mem _ hg) hmem
      refine (ih (fun g hg => hfields g (List.mem_cons_of_mem _ hg)) hnodup.2 ?_ hnew').trans ?_
      · exact hsect
      · simp only [List.map_cons, List.reverse_cons, List.append_assoc, List.singleton_append]
        rfl

/-- The lines of a new section, and those after it. -/
theorem Parser.foldlM_section {st : Parser} {s : Bytes}
    (hs : s = str "[Interface]" ∨ s = str "[Peer]") (hsection : s ∉ st.sections)
    {fields : List (Bytes × Bytes)}
    (hfields : ∀ f ∈ fields, PlainKey f.1 ∧ ascii '#' ∉ f.2 ∧ EndsGraphic f.2)
    (hnodup : (fields.map Prod.fst).Nodup) (hnew : ∀ f ∈ fields, s ++ f.1 ∉ st.seen)
    (rest : List Bytes) :
    (s :: (fieldLines fields ++ rest)).foldlM Parser.line st = (do
      let config ← st.config.fields s fields
      rest.foldlM Parser.line
        ⟨config, s, (fields.map (s ++ ·.1)).reverse ++ st.seen, s :: st.sections⟩) := by
  have hsect : s ≠ [] := by rcases hs with rfl | rfl <;> decide
  rw [foldlM_cons_of_ok (line_section hs hsection), List.foldlM_append,
    foldlM_fieldLines hfields hnodup hsect hnew]
  cases st.config.fields s fields with
  | error e => rfl
  | ok config => rfl

/-! ## Reading fields -/

namespace Config

variable (c : Config)

/-- A key as `EncodeToString` writes it is refused only when it is zero. -/
theorem key_encode (k : Bytes) {b : Bytes} (hb : b.length = 32) :
    Guarded (∃ x ∈ b, x ≠ 0) (hexEncode b) (key k (base64Encode b)) := by
  rw [key, base64Decode_encode]
  simp only [hb, ne_eq, not_true_eq_false, if_false]
  have hzero : b.all (fun x => decide (x = 0)) = true ↔ ¬ ∃ x ∈ b, x ≠ 0 := by
    simp [List.all_eq_true]
  constructor
  · intro h
    rw [if_neg fun hall => hzero.1 hall h]
  · intro h
    rw [if_pos (hzero.2 h)]
    exact ⟨_, rfl⟩

theorem field_privateKey {b : Bytes} (hb : b.length = 32) :
    Guarded (∃ x ∈ b, x ≠ 0) { c with privateKey := hexEncode b }
      (c.field (str "[Interface]") (str "PrivateKey") (base64Encode b)) :=
  (key_encode _ hb).map (f := fun s => { c with privateKey := s })

theorem field_publicKey {b : Bytes} (hb : b.length = 32) :
    Guarded (∃ x ∈ b, x ≠ 0) { c with publicKey := hexEncode b }
      (c.field (str "[Peer]") (str "PublicKey") (base64Encode b)) :=
  (key_encode _ hb).map (f := fun s => { c with publicKey := s })

theorem field_presharedKey {b : Bytes} (hb : b.length = 32) :
    Guarded (∃ x ∈ b, x ≠ 0) { c with psk := hexEncode b }
      (c.field (str "[Peer]") (str "PresharedKey") (base64Encode b)) :=
  (key_encode _ hb).map (f := fun s => { c with psk := s })

theorem field_address (hc : c.address = []) (a : BitVec 32) :
    c.field (str "[Interface]") (str "Address") ((Addr.v4 a).string ++ str "/32") =
      .ok { c with address := (Addr.v4 a).string } := by
  have hstring : (Addr.v4 a).string ++ str "/32" = (Prefix.single a).string := by
    rw [Prefix.string, show str "/32" = ascii '/' :: decimal 32 by decide]
    rfl
  have hplain : Plain (Prefix.single a).string := .string_network rfl
  have hcomma : ascii ',' ∉ (Prefix.single a).string := fun h => by
    have := Prefix.mem_string_v4 (p := Prefix.single a) rfl h
    exact absurd this (by decide)
  have hslash : ascii '/' ∈ (Prefix.single a).string :=
    List.mem_append_right _ List.mem_cons_self
  have hparse : parsePrefix (Prefix.single a).string = some (Prefix.single a) :=
    (Prefix.parsePrefix_eq_v4_iff rfl).2 rfl
  have hadd : c.addAddress (Prefix.single a).string =
      .ok { c with address := (Addr.v4 a).string } := by
    simp only [addAddress, hplain.trimSpace, hslash, if_true, hparse, hc, ne_eq, not_true_eq_false,
      if_false]
    rfl
  show (split _ (ascii ',')).foldlM addAddress c = _
  rw [hstring, split, splitOn_of_notMem hcomma, List.foldlM_cons, hadd]
  rfl

theorem field_dns (a : BitVec 32) :
    c.field (str "[Interface]") (str "DNS") (Addr.v4 a).string =
      .ok { c with dns := (Addr.v4 a).string } := by
  show c.setDNS _ = _
  rw [setDNS, parseAddr_eq_v4_iff.2 rfl]

theorem field_mtu {n : ℤ} (h : 1280 ≤ n) (h' : n ≤ 1420) :
    c.field (str "[Interface]") (str "MTU") (itoa n) = .ok { c with mtu := n } := by
  show c.setMTU _ = _
  rw [setMTU, atoi_itoa (by omega) (by omega)]
  exact if_neg (by omega)

/-- A parameter as `%d` writes it, within its bound. -/
theorem field_param {k : Bytes} {bound : Option ℕ} (hk : (k, bound) ∈ paramBounds) {n : ℕ}
    (hn : n < 2 ^ 32) (hbound : ∀ b ∈ bound, n ≤ b) :
    c.field (str "[Interface]") k (decimal n) =
      .ok { c with params := c.params.insert (toLower k) (decimal n) } := by
  have hfield : c.field (str "[Interface]") k (decimal n) =
      c.setParam (str "[Interface]") k (decimal n) ∧ paramBounds.lookup k = some bound := by
    simp only [paramBounds, List.mem_cons, Prod.mk.injEq, List.not_mem_nil, or_false] at hk
    rcases hk with ⟨rfl, rfl⟩ | ⟨rfl, rfl⟩ | ⟨rfl, rfl⟩ | ⟨rfl, rfl⟩ | ⟨rfl, rfl⟩ | ⟨rfl, rfl⟩ |
      ⟨rfl, rfl⟩ | ⟨rfl, rfl⟩ | ⟨rfl, rfl⟩ <;> exact ⟨rfl, rfl⟩
  have hany : ¬ bound.any (fun b => decide (b < n)) = true := by
    simp only [Option.any_eq_true, decide_eq_true_eq, not_exists, not_and, not_lt]
    exact fun b hb => hbound b hb
  rw [hfield.1, setParam, if_pos rfl, hfield.2, parseUint_decimal hn]
  exact if_neg hany

section Fields

variable {c' c'' : Config} {ok ok' : Prop} {sect k v : Bytes} {l : List (Bytes × Bytes)}

theorem fields_cons (h : Guarded ok c' (c.field sect k (trimSpace v)))
    (h' : Guarded ok' c'' (c'.fields sect l)) :
    Guarded (ok ∧ ok') c'' (c.fields sect ((k, v) :: l)) :=
  .foldlM_cons h h'

theorem fields_cons_plain (hv : Plain v) (h : Guarded ok c' (c.field sect k v))
    (h' : Guarded ok' c'' (c'.fields sect l)) :
    Guarded (ok ∧ ok') c'' (c.fields sect ((k, v) :: l)) :=
  c.fields_cons (by rwa [hv.trimSpace]) h'

theorem fields_cons_of_ok (hv : Plain v) (h : c.field sect k v = .ok c')
    (l : List (Bytes × Bytes)) : c.fields sect ((k, v) :: l) = c'.fields sect l :=
  foldlM_cons_of_ok (by rwa [hv.trimSpace]) l

end Fields

/-- The parameters are read as they were written. -/
theorem fields_params {l : List (Bytes × ℕ)}
    (h : ∀ f ∈ l, ∃ bound, (f.1, bound) ∈ paramBounds ∧ f.2 < 2 ^ 32 ∧ ∀ b ∈ bound, f.2 ≤ b) :
    c.fields (str "[Interface]") (l.map fun f => (f.1, decimal f.2)) =
      .ok { c with
        params := (l.map fun f => (toLower f.1, decimal f.2)).foldl
          (fun m e => m.insert e.1 e.2) c.params } := by
  induction l generalizing c with
  | nil => rfl
  | cons f l ih =>
    obtain ⟨bound, hk, hn, hbound⟩ := h f List.mem_cons_self
    rw [List.map_cons, c.fields_cons_of_ok (.decimal _) (c.field_param hk hn hbound),
      ih _ fun g hg => h g (List.mem_cons_of_mem _ hg), List.map_cons, List.foldl_cons]

theorem field_keepalive {n : ℕ} (h : n < 2 ^ 16) :
    c.field (str "[Peer]") (str "PersistentKeepalive") (decimal n) =
      .ok { c with keepalive := decimal n } := by
  show c.setKeepalive _ = _
  rw [setKeepalive, parseUint_decimal h]

/-- The endpoints accepted. -/
def EndpointOK (v : Bytes) : Prop :=
  ∃ h p n, splitHostPort v = some (h, p) ∧ atoi p = some n ∧
    ¬ (h = [] ∨ h.any (· ∈ str " \r\n\t") ∨ n < 1 ∨ 65535 < n) ∧
    ¬ (parseAddr h).any (!·.is4)

theorem field_endpoint (v : Bytes) : Guarded (EndpointOK v) { c with endpoint := v }
    (c.field (str "[Peer]") (str "Endpoint") v) := by
  show Guarded _ _ (c.setEndpoint v)
  rw [setEndpoint]
  constructor
  · rintro ⟨h, p, n, hsplit, hn, hhost, h4⟩
    simp only [hsplit, hn, if_neg hhost, if_neg h4]
  · intro hbad
    split
    · exact ⟨_, rfl⟩
    · rename_i h p hsplit
      split
      · exact ⟨_, rfl⟩
      · rename_i n hn
        split_ifs with hhost h4
        · exact ⟨_, rfl⟩
        · exact ⟨_, rfl⟩
        · exact absurd ⟨h, p, n, hsplit, hn, hhost, h4⟩ hbad

/-! ### Allowed IPs -/

theorem addAllowed_string {p : Prefix} {a : BitVec 32} (hp : p.addr = .v4 a) {s : Bytes}
    (hs : trimSpace s = p.string) :
    c.addAllowed s = .ok { c with allowed := c.allowed ++ [p.masked.string] } := by
  rw [addAllowed, hs, (Prefix.parsePrefix_eq_v4_iff hp).2 rfl]
  simp only [hp, Addr.is4, if_true]

theorem foldlM_addAllowed {ps : List Prefix} (hps : ∀ p ∈ ps, p.addr.is4 = true) {l : List Bytes}
    (hl : l.map trimSpace = ps.map Prefix.string) :
    l.foldlM addAllowed c = .ok { c with allowed := c.allowed ++ ps.map (·.masked.string) } := by
  induction ps generalizing l c with
  | nil =>
    obtain rfl := List.map_eq_nil_iff.1 hl
    simp only [List.foldlM_nil, List.map_nil, List.append_nil]
    rfl
  | cons p ps ih =>
    obtain ⟨s, l, rfl, hs, hl⟩ := List.map_eq_cons_iff.1 hl
    obtain ⟨a, ha⟩ := Addr.exists_v4 (hps p List.mem_cons_self)
    rw [List.foldlM_cons, addAllowed_string c ha hs]
    show l.foldlM addAllowed _ = _
    rw [ih _ (fun q hq => hps q (List.mem_cons_of_mem _ hq)) hl, List.map_cons, List.append_assoc,
      List.singleton_append]

/-- The prefixes are read as they were joined. -/
theorem map_trimSpace_split_join {l : List Bytes} (hne : l ≠ [])
    (h : ∀ s ∈ l, Plain s ∧ ascii ',' ∉ s) :
    (split (join l (str ", ")) (ascii ',')).map trimSpace = l := by
  obtain ⟨s, l, rfl⟩ := List.exists_cons_of_ne_nil hne
  have hjoin : join (s :: l) (str ", ") = join (s :: l.map (32 :: ·)) [ascii ','] := by
    clear hne h
    induction l generalizing s with
    | nil => simp [join]
    | cons t l ih => rw [join_cons_cons, ih t, List.map_cons, join_cons_cons, join_cons]; rfl
  have hcomma : ∀ t ∈ s :: l.map (32 :: ·), ascii ',' ∉ t := by
    intro t ht
    rcases List.mem_cons.1 ht with rfl | ht
    · exact (h t List.mem_cons_self).2
    · obtain ⟨u, hu, rfl⟩ := List.mem_map.1 ht
      intro hmem
      rcases List.mem_cons.1 hmem with hmem | hmem
      · exact absurd hmem (by decide)
      · exact (h u (List.mem_cons_of_mem _ hu)).2 hmem
  rw [hjoin, split_join (List.cons_ne_nil _ _) hcomma, List.map_cons, List.map_map,
    (h s List.mem_cons_self).1.trimSpace]
  congr 1
  rw [List.map_congr_left (g := id), List.map_id]
  intro t ht
  exact (trimSpace_blank_cons t).trans (h t (List.mem_cons_of_mem _ ht)).1.trimSpace

theorem field_allowedIPs {ps : List Prefix} (hne : ps ≠ []) (hps : ∀ p ∈ ps, p.addr.is4 = true) :
    c.field (str "[Peer]") (str "AllowedIPs") (join (ps.map Prefix.string) (str ", ")) =
      .ok { c with allowed := c.allowed ++ ps.map (·.masked.string) } := by
  show (split _ (ascii ',')).foldlM addAllowed c = _
  refine c.foldlM_addAllowed hps (map_trimSpace_split_join (by simpa using hne) fun s hs => ?_)
  obtain ⟨p, hp, rfl⟩ := List.mem_map.1 hs
  obtain ⟨a, ha⟩ := Addr.exists_v4 (hps p hp)
  refine ⟨.string_network ha, fun hmem => ?_⟩
  exact absurd (Prefix.mem_string_v4 ha hmem) (by decide)

end Config

end QuicLab.Awg
