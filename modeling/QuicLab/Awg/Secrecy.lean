import QuicLab.Awg.Order

/-!
# Keys stay secret

Of the keys in a configuration, `Parse` looks at one thing only: whether they are keys, and
not zero (`keyClass`). What it says about a text, and what `Metadata` tells of the
configuration, are thus the same for all keys.

* `Parser.line_key`: how the line of a key is read;
* `Config.Alike`: configurations equal but for the keys. Fields keep them alike
  (`Alike.field`), and so do lines (`Parser.Alike.line`);
* `Alike.ipc`: the commands for the devices are equal but for the lines of the keys.

`parse_secrecy` is the result.
-/

namespace QuicLab.Awg

open Go Netip

/-! ## Keys -/

/-- What `Parse` looks at in a key. -/
inductive KeyClass
  | invalid
  | zero
  | good
  deriving DecidableEq

/-- Not 32 bytes in base64, 32 zero bytes, or 32 other ones. -/
def keyClass (v : Bytes) : KeyClass :=
  match base64Decode v with
  | none => .invalid
  | some b => if b.length ≠ 32 then .invalid else if b.all (· = 0) then .zero else .good

/-- The names of the fields for keys. -/
def keyNames : List Bytes := [str "PrivateKey", str "PublicKey", str "PresharedKey"]

/-- Lines equal but for the value of a key. -/
inductive LineAlike : Bytes → Bytes → Prop
  | same (l : Bytes) : LineAlike l l
  | key {p v v' : Bytes} (hname : trimSpace p ∈ keyNames) (hv : ascii '#' ∉ v)
      (hv' : ascii '#' ∉ v') (hclass : keyClass (trimSpace v) = keyClass (trimSpace v')) :
      LineAlike (p ++ ascii '=' :: v) (p ++ ascii '=' :: v')

/-- Two keys, both set or both not, on one line each. -/
structure KeyAlike (s s' : Bytes) : Prop where
  nil_iff : s = [] ↔ s' = []
  line : ascii '\n' ∉ s
  line' : ascii '\n' ∉ s'

theorem KeyAlike.refl_nil : KeyAlike [] [] := ⟨Iff.rfl, List.not_mem_nil, List.not_mem_nil⟩

theorem newline_notMem_hexEncode (b : Bytes) : ascii '\n' ∉ hexEncode b := by
  have hdigit : ∀ n < 16, hexDigit n ≠ ascii '\n' := by decide
  intro h
  obtain ⟨c, -, hc⟩ := List.mem_flatMap.1 h
  have hlt := c.toNat_lt
  simp only [List.mem_cons, List.not_mem_nil, or_false] at hc
  rcases hc with hc | hc
  · exact hdigit _ (by omega) hc.symm
  · exact hdigit _ (by omega) hc.symm

/-- A key is refused or taken by its class. -/
theorem Config.key_agree (k : Bytes) {v v' : Bytes} (h : keyClass v = keyClass v') :
    Agree KeyAlike (Config.key k v) (Config.key k v') := by
  have hkey : ∀ v, match keyClass v with
      | .invalid => Config.key k v = .error (.errorf "invalid %s" [k])
      | .zero => Config.key k v = .error (.errorf "zero %s" [k])
      | .good => ∃ b, b.length = 32 ∧ Config.key k v = .ok (hexEncode b) := by
    intro v
    rw [keyClass, Config.key]
    cases base64Decode v with
    | none => rfl
    | some b =>
      dsimp only
      by_cases hlen : b.length ≠ 32
      · rw [if_pos hlen, if_pos hlen]
      · rw [if_neg hlen, if_neg hlen]
        by_cases hzero : b.all (fun x => decide (x = 0)) = true
        · rw [if_pos hzero, if_pos hzero]
        · rw [if_neg hzero, if_neg hzero]
          exact ⟨b, not_not.1 hlen, rfl⟩
  have hv := hkey v
  have hv' := hkey v'
  rw [← h] at hv'
  cases hclass : keyClass v with
  | invalid =>
    rw [hclass] at hv hv'
    rw [hv, hv']
    exact .error _
  | zero =>
    rw [hclass] at hv hv'
    rw [hv, hv']
    exact .error _
  | good =>
    rw [hclass] at hv hv'
    obtain ⟨b, hb, hv⟩ := hv
    obtain ⟨b', hb', hv'⟩ := hv'
    rw [hv, hv']
    have hne : ∀ b : Bytes, b.length = 32 → hexEncode b ≠ [] := by
      intro b hb heq
      have hlen := length_hexEncode b
      rw [heq, hb] at hlen
      cases hlen
    exact .ok ⟨iff_of_false (hne b hb) (hne b' hb'), newline_notMem_hexEncode b,
      newline_notMem_hexEncode b'⟩

/-! ## The line of a key -/

theorem mem_or_mem_spaces {s : Bytes} {c : UInt8} (h : c ∈ s) :
    c ∈ trimSpace s ∨ ∃ t ∈ spaces, c ∈ t := by
  obtain ⟨l, l', hl, hl', hs, -⟩ := exists_trimSpace s
  rw [hs, List.mem_append, List.mem_append, List.mem_flatten, List.mem_flatten] at h
  rcases h with ⟨t, ht, hc⟩ | h | ⟨t, ht, hc⟩
  · exact .inr ⟨t, hl t ht, hc⟩
  · exact .inl h
  · exact .inr ⟨t, hl' t ht, hc⟩

/-- The characters around the name of a key. -/
theorem ne_of_mem_keyName {p : Bytes} (hp : trimSpace p ∈ keyNames) {c : UInt8} (hc : c ∈ p) :
    c ≠ ascii '=' ∧ c ≠ ascii '#' ∧ c ≠ ascii '[' := by
  have hnames : ∀ k ∈ keyNames, ∀ c ∈ k, c ≠ ascii '=' ∧ c ≠ ascii '#' ∧ c ≠ ascii '[' := by decide
  have hspaces : ∀ t ∈ spaces, ∀ c ∈ t, c ≠ ascii '=' ∧ c ≠ ascii '#' ∧ c ≠ ascii '[' := by decide
  rcases mem_or_mem_spaces hc with hc | ⟨t, ht, hc⟩
  · exact hnames _ hp c hc
  · exact hspaces t ht c hc

theorem content_of_notMem {l : Bytes} (h : ascii '#' ∉ l) : content l = trimSpace l := by
  rw [content, List.takeWhile_eq_self_iff.2]
  intro c hc
  exact decide_eq_true fun heq => h (heq ▸ hc)

/-- The line of a key is read as its name and its value, without the white space around. -/
theorem Parser.line_key (st : Parser) {p v : Bytes} (hp : trimSpace p ∈ keyNames)
    (hv : ascii '#' ∉ v) :
    st.line (p ++ ascii '=' :: v) =
      if st.sect = [] then .error (.new "invalid AWG config line")
      else if st.sect ++ trimSpace p ∈ st.seen then
        .error (.errorf "duplicate AWG field %s" [trimSpace p])
      else (fun config => { st with config, seen := (st.sect ++ trimSpace p) :: st.seen }) <$>
        st.config.field st.sect (trimSpace p) (trimSpace v) := by
  have hcomment : ascii '#' ∉ p ++ ascii '=' :: v := by
    rw [List.mem_append, List.mem_cons]
    rintro (h | h | h)
    · exact (ne_of_mem_keyName hp h).2.1 rfl
    · exact absurd h (by decide)
    · exact hv h
  obtain ⟨p', v', htrim, hp', hv'⟩ := trimSpace_graphic p (show isGraphic (ascii '=') by decide) v
  have hname : trimSpace p' ∈ keyNames := hp' ▸ hp
  have hne : p' ≠ [] := by
    rintro rfl
    exact absurd hname (by decide)
  have hcontent : content (p ++ ascii '=' :: v) = p' ++ ascii '=' :: v' :=
    (content_of_notMem hcomment).trans htrim
  have hhead : (p' ++ ascii '=' :: v').head? ≠ some (ascii '[') := by
    rw [List.head?_append_of_ne_nil _ hne]
    intro h
    exact (ne_of_mem_keyName hname (List.mem_of_mem_head? h)).2.2 rfl
  have hcut : cut (p' ++ ascii '=' :: v') (ascii '=') = some (p', v') :=
    cut_append (fun h => (ne_of_mem_keyName hname h).1 rfl) v'
  unfold Parser.line
  dsimp only
  rw [← content, hcontent, if_neg (by simp), if_neg hhead, assign, hcut]
  dsimp only
  rw [hp', hv']

/-! ## Other keys -/

/-- The keys of a configuration. -/
structure Keys where
  privateKey : Bytes
  publicKey : Bytes
  psk : Bytes

namespace Config

/-- The configuration with other keys. -/
def withKeys (c : Config) (K : Keys) : Config :=
  { c with privateKey := K.privateKey, publicKey := K.publicKey, psk := K.psk }

section

variable (c : Config) (K : Keys) (v : Bytes)

theorem addAddress_withKeys :
    (c.withKeys K).addAddress v = (·.withKeys K) <$> c.addAddress v := by
  unfold addAddress
  dsimp only
  split
  · rfl
  · rename_i a _
    by_cases h4 : a.addr.is4 = true
    · rw [if_pos h4, if_pos h4]
      by_cases hset : c.address ≠ []
      · rw [if_pos hset, if_pos (show (c.withKeys K).address ≠ [] from hset)]
        rfl
      · rw [if_neg hset, if_neg (show ¬ (c.withKeys K).address ≠ [] from hset)]
        rfl
    · rw [if_neg h4, if_neg h4]
      rfl

theorem addAllowed_withKeys :
    (c.withKeys K).addAllowed v = (·.withKeys K) <$> c.addAllowed v := by
  unfold addAllowed
  split
  · rfl
  · split <;> rfl

theorem setDNS_withKeys : (c.withKeys K).setDNS v = (·.withKeys K) <$> c.setDNS v := by
  unfold setDNS
  split <;> rfl

theorem setMTU_withKeys : (c.withKeys K).setMTU v = (·.withKeys K) <$> c.setMTU v := by
  unfold setMTU
  split
  · rfl
  · split <;> rfl

theorem setEndpoint_withKeys :
    (c.withKeys K).setEndpoint v = (·.withKeys K) <$> c.setEndpoint v := by
  unfold setEndpoint
  split
  · rfl
  · split
    · rfl
    · split
      · rfl
      · split <;> rfl

theorem setKeepalive_withKeys :
    (c.withKeys K).setKeepalive v = (·.withKeys K) <$> c.setKeepalive v := by
  unfold setKeepalive
  split <;> rfl

theorem setParam_withKeys (sect k : Bytes) :
    (c.withKeys K).setParam sect k v = (·.withKeys K) <$> c.setParam sect k v := by
  unfold setParam
  split
  · rfl
  · split
    · rfl
    · split <;> rfl

/-- The fields for keys. -/
def keyTags : List Bytes :=
  [str "[Interface]PrivateKey", str "[Peer]PublicKey", str "[Peer]PresharedKey"]

/-- The other fields do not look at the keys. -/
theorem field_withKeys {sect k : Bytes} (h : sect ++ k ∉ keyTags) :
    (c.withKeys K).field sect k v = (·.withKeys K) <$> c.field sect k v := by
  simp only [keyTags, List.mem_cons, List.not_mem_nil, or_false, not_or] at h
  simp only [field, if_neg h.1, if_neg h.2.1, if_neg h.2.2]
  split_ifs
  · exact foldlM_map (·.withKeys K) (fun c => c.addAddress_withKeys K) c _
  · exact c.setDNS_withKeys K v
  · exact c.setMTU_withKeys K v
  · exact c.setEndpoint_withKeys K v
  · exact foldlM_map (·.withKeys K) (fun c => c.addAllowed_withKeys K) c _
  · exact c.setKeepalive_withKeys K v
  · exact c.setParam_withKeys K v sect k

/-- A key in the wrong section is refused before its value is read. -/
theorem field_keyName {sect k : Bytes} (hk : k ∈ keyNames) (h : sect ++ k ∉ keyTags) :
    c.field sect k v = .error (.errorf "unsupported AWG field %s (legacy format only)" [k]) := by
  have hsuffix : str "Key" <:+ sect ++ k := by
    have hall : ∀ k ∈ keyNames, str "Key" <:+ k := by decide
    exact (hall k hk).trans (List.suffix_append _ _)
  have hother : ∀ t : Bytes, ¬ str "Key" <:+ t → sect ++ k ≠ t := fun t ht heq => ht (heq ▸ hsuffix)
  have hbound : (if sect = str "[Interface]" then paramBounds.lookup k else none) = none := by
    have hall : ∀ k ∈ keyNames, paramBounds.lookup k = none := by decide
    rw [hall k hk, ite_self]
  simp only [keyTags, List.mem_cons, List.not_mem_nil, or_false, not_or] at h
  simp only [field, if_neg h.1, if_neg h.2.1, if_neg h.2.2]
  rw [if_neg (hother _ (by decide)), if_neg (hother _ (by decide)), if_neg (hother _ (by decide)),
    if_neg (hother _ (by decide)), if_neg (hother _ (by decide)), if_neg (hother _ (by decide)),
    setParam, hbound]

end

/-- Configurations equal but for the keys. -/
structure Alike (c c' : Config) : Prop where
  rest : ∃ K, c' = c.withKeys K
  privateKey : KeyAlike c.privateKey c'.privateKey
  publicKey : KeyAlike c.publicKey c'.publicKey
  psk : KeyAlike c.psk c'.psk

namespace Alike

variable {c c' : Config}

theorem empty : Alike .empty .empty :=
  ⟨⟨⟨[], [], []⟩, rfl⟩, .refl_nil, .refl_nil, .refl_nil⟩

/-- What does not look at the keys keeps configurations alike. -/
theorem agree (f : Config → Except Error Config)
    (hf : ∀ c K, f (c.withKeys K) = (·.withKeys K) <$> f c) (h : Alike c c') :
    Agree Alike (f c) (f c') := by
  obtain ⟨⟨K, rfl⟩, hprivate, hpublic, hpsk⟩ := h
  -- The keys of `c` itself are kept.
  have hself : f c = (·.withKeys ⟨c.privateKey, c.publicKey, c.psk⟩) <$> f c := hf c ⟨_, _, _⟩
  rw [hf]
  cases hd : f c with
  | error e => exact .error e
  | ok d =>
    rw [hd] at hself
    rw [Except.ok.inj hself]
    exact .ok ⟨⟨K, rfl⟩, hprivate, hpublic, hpsk⟩

/-- A field keeps configurations alike, for values that differ only in a key. -/
theorem field (h : Alike c c') (sect k : Bytes) {v v' : Bytes}
    (hv : v = v' ∨ k ∈ keyNames ∧ keyClass v = keyClass v') :
    Agree Alike (c.field sect k v) (c'.field sect k v') := by
  by_cases htag : sect ++ k ∈ keyTags
  · have hclass : keyClass v = keyClass v' := hv.elim (congrArg _) And.right
    have hkey := key_agree k hclass
    simp only [keyTags, List.mem_cons, List.not_mem_nil, or_false] at htag
    obtain ⟨⟨K, rfl⟩, hprivate, hpublic, hpsk⟩ := h
    rcases htag with htag | htag | htag
    · simp only [Config.field, htag]
      exact hkey.map fun s s' hs => ⟨⟨⟨s', K.publicKey, K.psk⟩, rfl⟩, hs, hpublic, hpsk⟩
    · simp only [Config.field, htag]
      exact hkey.map fun s s' hs => ⟨⟨⟨K.privateKey, s', K.psk⟩, rfl⟩, hprivate, hs, hpsk⟩
    · simp only [Config.field, htag]
      exact hkey.map fun s s' hs => ⟨⟨⟨K.privateKey, K.publicKey, s'⟩, rfl⟩, hprivate, hpublic, hs⟩
  · rcases hv with rfl | ⟨hk, -⟩
    · exact h.agree (fun c => c.field sect k v) fun c K => c.field_withKeys K v htag
    · rw [c.field_keyName v hk htag, c'.field_keyName v' hk htag]
      exact .error _

/-- The checks after the last line look only at which keys are set. -/
theorem finish (h : Alike c c') : Agree Alike c.finish c'.finish := by
  obtain ⟨K, rfl⟩ := h.rest
  -- Some field is missing in both or in none.
  let missing : Config → Prop := fun c => c.privateKey = [] ∨ c.publicKey = [] ∨
    c.address = [] ∨ c.endpoint = [] ∨ c.allowed = []
  have hiff : missing c ↔ missing (c.withKeys K) :=
    or_congr h.privateKey.nil_iff (or_congr h.publicKey.nil_iff Iff.rfl)
  unfold Config.finish
  by_cases hmissing : missing c
  · rw [if_pos hmissing, if_pos (hiff.1 hmissing)]
    exact .error _
  · rw [if_neg hmissing, if_neg fun h => hmissing (hiff.2 h)]
    by_cases hdns : c.dns = []
    · rw [if_pos hdns, if_pos (show (c.withKeys K).dns = [] from hdns)]
      exact .error _
    · rw [if_neg hdns, if_neg (show ¬ (c.withKeys K).dns = [] from hdns)]
      dsimp only
      rw [show (c.withKeys K).params = c.params from rfl]
      split_ifs
      · exact .error _
      · exact .ok h

theorem metadata (h : Alike c c') : c'.metadata = c.metadata := by
  obtain ⟨⟨K, rfl⟩, -⟩ := h
  rfl

end Alike

end Config

namespace Parser

/-- The states of two runs that differ only in the keys. -/
structure Alike (st st' : Parser) : Prop where
  config : st.config.Alike st'.config
  sect : st'.sect = st.sect
  seen : st'.seen = st.seen
  sections : st'.sections = st.sections

namespace Alike

variable {st st' : Parser}

/-- The rest of a line that is a field. -/
theorem field (h : Alike st st') (k : Bytes) {v v' : Bytes}
    (hv : v = v' ∨ k ∈ keyNames ∧ keyClass v = keyClass v') :
    Agree Alike
      (if st.sect = [] then .error (.new "invalid AWG config line")
      else if st.sect ++ k ∈ st.seen then .error (.errorf "duplicate AWG field %s" [k])
      else (fun config => { st with config, seen := (st.sect ++ k) :: st.seen }) <$>
        st.config.field st.sect k v)
      (if st'.sect = [] then .error (.new "invalid AWG config line")
      else if st'.sect ++ k ∈ st'.seen then .error (.errorf "duplicate AWG field %s" [k])
      else (fun config => { st' with config, seen := (st'.sect ++ k) :: st'.seen }) <$>
        st'.config.field st'.sect k v') := by
  rw [h.sect, h.seen]
  split_ifs
  · exact .error _
  · exact .error _
  · refine (h.config.field st.sect k hv).map fun c c' hc => ⟨hc, rfl, ?_, h.sections⟩
    rfl

/-- A line keeps the states alike. -/
theorem line (h : Alike st st') {l l' : Bytes} (hl : LineAlike l l') :
    Agree Alike (st.line l) (st'.line l') := by
  cases hl with
  | key hname hv hv' hclass =>
    rw [line_key _ hname hv, line_key _ hname hv']
    exact h.field _ (.inr ⟨hname, hclass⟩)
  | same =>
    unfold Parser.line
    dsimp only
    rw [h.sections]
    split_ifs
    · exact .ok h
    · exact .error _
    · exact .error _
    · exact .ok ⟨h.config, rfl, h.seen, rfl⟩
    · unfold assign
      split
      · exact .error _
      · exact h.field _ (.inl rfl)

end Alike

end Parser

/-! ## The commands for the device -/

/-- The beginnings of the lines of the keys. -/
def ipcKeys : List Bytes := [str "private_key=", str "public_key=", str "preshared_key="]

/-- Lines equal but for the value of a key. -/
def IpcAlike (l l' : Bytes) : Prop := l = l' ∨ ∃ k ∈ ipcKeys, k <+: l ∧ k <+: l'

/-- Texts whose lines are alike. -/
def TextAlike (s s' : Bytes) : Prop :=
  List.Forall₂ IpcAlike (split s (ascii '\n')) (split s' (ascii '\n'))

namespace TextAlike

theorem refl (s : Bytes) : TextAlike s s := List.forall₂_same.2 fun _ _ => .inl rfl

/-- The line of a key. -/
theorem key (k : Bytes) (hk : k ∈ ipcKeys) {s s' : Bytes} (h : KeyAlike s s') :
    TextAlike (k ++ s) (k ++ s') := by
  have hline : ∀ k ∈ ipcKeys, ascii '\n' ∉ k := by decide
  have hsplit : ∀ {s}, ascii '\n' ∉ s → split (k ++ s) (ascii '\n') = [k ++ s] := by
    intro s hs
    refine splitOn_of_notMem fun hmem => ?_
    rcases List.mem_append.1 hmem with hmem | hmem
    · exact hline k hk hmem
    · exact hs hmem
  rw [TextAlike, hsplit h.line, hsplit h.line']
  exact .cons (.inr ⟨k, hk, List.prefix_append _ _, List.prefix_append _ _⟩) .nil

/-- Lines, and the lines after them. -/
theorem append {s s' t t' : Bytes} (h : TextAlike s s') (h' : TextAlike t t') :
    TextAlike (s ++ ascii '\n' :: t) (s' ++ ascii '\n' :: t') := by
  rw [TextAlike, split, split, splitOn_append_cons, splitOn_append_cons]
  exact List.rel_append h h'

/-- Whole lines that are equal, and the lines after them. -/
theorem append_left {s t t' : Bytes} (hs : s = [] ∨ ∃ l, s = l ++ [ascii '\n'])
    (h : TextAlike t t') : TextAlike (s ++ t) (s ++ t') := by
  rcases hs with rfl | ⟨l, rfl⟩
  · exact h
  · rw [List.append_assoc, List.append_assoc]
    exact (refl l).append h

theorem flatMap_append {α : Type*} {f : α → Bytes}
    (hf : ∀ a, f a = [] ∨ ∃ l, f a = l ++ [ascii '\n']) (l : List α) {t t' : Bytes}
    (h : TextAlike t t') : TextAlike (l.flatMap f ++ t) (l.flatMap f ++ t') := by
  induction l with
  | nil => exact h
  | cons a l ih =>
    rw [List.flatMap_cons, List.append_assoc, List.append_assoc]
    exact append_left (hf a) ih

end TextAlike

namespace Config

theorem paramLine_ends (c : Config) (k : Bytes) :
    c.paramLine k = [] ∨ ∃ l, c.paramLine k = l ++ [ascii '\n'] := by
  unfold paramLine
  split
  · exact .inl rfl
  · exact .inr ⟨_, rfl⟩

/-- The commands line by line. -/
theorem ipc_lines (c : Config) (endpoint : Bytes) :
    c.ipc endpoint = (str "private_key=" ++ c.privateKey) ++ ascii '\n' ::
      (paramNames.flatMap c.paramLine ++
      (str "replace_peers=true" ++ ascii '\n' :: ((str "public_key=" ++ c.publicKey) ++ ascii '\n' ::
      ((str "endpoint=" ++ endpoint) ++ ascii '\n' ::
      ((if c.psk ≠ [] then (str "preshared_key=" ++ c.psk) ++ [ascii '\n'] else []) ++
      ((if c.keepalive ≠ [] then
        (str "persistent_keepalive_interval=" ++ c.keepalive) ++ [ascii '\n'] else []) ++
      c.allowed.flatMap fun p => (str "allowed_ip=" ++ p) ++ [ascii '\n'])))))) := by
  have hpeers : str "replace_peers=true\npublic_key=" =
      str "replace_peers=true" ++ ascii '\n' :: str "public_key=" := rfl
  have hendpoint : str "\nendpoint=" = ascii '\n' :: str "endpoint=" := rfl
  have hend : str "\n" = [ascii '\n'] := rfl
  rw [ipc, hpeers, hendpoint, hend]
  simp only [List.append_assoc, List.cons_append, List.nil_append]

/-- The commands are equal but for the lines of the keys. -/
theorem Alike.ipc {c c' : Config} (h : Alike c c') (endpoint : Bytes) :
    TextAlike (c.ipc endpoint) (c'.ipc endpoint) := by
  obtain ⟨K, rfl⟩ := h.rest
  have hparam : (c.withKeys K).paramLine = c.paramLine := rfl
  have hkeepalive : (c.withKeys K).keepalive = c.keepalive := rfl
  have hallowed : (c.withKeys K).allowed = c.allowed := rfl
  have hprivate := TextAlike.key (str "private_key=") (by decide) h.privateKey
  have hpublic := TextAlike.key (str "public_key=") (by decide) h.publicKey
  have hshared := TextAlike.key (str "preshared_key=") (by decide) h.psk
  rw [ipc_lines, ipc_lines, hparam, hkeepalive, hallowed]
  refine hprivate.append ?_
  refine TextAlike.flatMap_append c.paramLine_ends _ ?_
  refine (TextAlike.refl (str "replace_peers=true")).append ?_
  refine hpublic.append ?_
  refine (TextAlike.refl (str "endpoint=" ++ endpoint)).append ?_
  by_cases hpsk : c.psk = []
  · rw [if_neg (not_not.2 hpsk), if_neg (not_not.2 (h.psk.nil_iff.1 hpsk))]
    exact .refl _
  · rw [if_pos hpsk, if_pos fun h' => hpsk (h.psk.nil_iff.2 h'),
      List.append_assoc (_ ++ c.psk), List.append_assoc (_ ++ (c.withKeys K).psk)]
    exact hshared.append (.refl _)

end Config

/-- **Keys stay secret.** Of two texts that differ only in the values of the keys, and not in
    which of them are keys and which are zero, `Parse` gives the same error, or configurations
    with the same metadata whose commands differ only in the lines of the keys. -/
theorem parse_secrecy {raw raw' : Bytes} (hlen : raw.length ≤ 32768) (hlen' : raw'.length ≤ 32768)
    (h : List.Forall₂ LineAlike (split raw (ascii '\n')) (split raw' (ascii '\n'))) :
    (∃ e, parse raw = .error e ∧ parse raw' = .error e) ∨
    ∃ c c', parse raw = .ok c ∧ parse raw' = .ok c' ∧ c'.metadata = c.metadata ∧
      ∀ endpoint, List.Forall₂ IpcAlike (split (c.ipc endpoint) (ascii '\n'))
        (split (c'.ipc endpoint) (ascii '\n')) := by
  have hstart : Parser.Alike .start .start := ⟨.empty, rfl, rfl, rfl⟩
  have hagree : Agree Config.Alike (parse raw) (parse raw') := by
    rw [parse, parse, if_neg (not_lt.2 hlen), if_neg (not_lt.2 hlen')]
    refine (Agree.foldlM (fun _ _ _ _ hst hl => hst.line hl) h hstart).bind fun st st' hst => ?_
    exact hst.config.finish
  rcases hagree.eq_or_eq with herror | ⟨c, c', hc, hc', halike⟩
  · exact .inl herror
  · exact .inr ⟨c, c', hc, hc', halike.metadata, halike.ipc⟩

namespace Sample

/-- Two private keys. -/
def keyA : Bytes := str "AQIDBAUGBwgJCgsMDQ4PEBESExQVFhcYGRobHB0eHyA="

@[inherit_doc keyA]
def keyB : Bytes := str "AQIDBAUGBwgJCgsMDQ4PEBESExQVFhcYGRobHB0eHyE="

/-- The lines of a configuration with some private key. -/
def lines (key : Bytes) : List Bytes :=
  str "[Interface]" :: (str "PrivateKey " ++ ascii '=' :: key) ::
    str "Address = 10.0.0.2/32" :: str "DNS = 10.0.0.1" :: str "[Peer]" :: peer

theorem split_lines : ∀ key ∈ [keyA, keyB],
    split (join (lines key) (str "\n")) (ascii '\n') = lines key := by
  decide +kernel

end Sample

theorem parse_secrecy_sample :
    ∃ c c', parse (join (Sample.lines Sample.keyA) (str "\n")) = .ok c ∧
      parse (join (Sample.lines Sample.keyB) (str "\n")) = .ok c' ∧ c'.metadata = c.metadata := by
  have hkey : LineAlike (str "PrivateKey " ++ ascii '=' :: Sample.keyA)
      (str "PrivateKey " ++ ascii '=' :: Sample.keyB) :=
    .key (by decide) (by decide) (by decide) (by decide +kernel)
  have halike : List.Forall₂ LineAlike (Sample.lines Sample.keyA) (Sample.lines Sample.keyB) :=
    .cons (.same _) (.cons hkey (List.forall₂_same.2 fun _ _ => .same _))
  have haccepted : (parse (join (Sample.lines Sample.keyA) (str "\n"))).toOption.isSome := by
    decide +kernel
  rw [← Sample.split_lines _ (by simp), ← Sample.split_lines Sample.keyB (by simp)] at halike
  rcases parse_secrecy (by decide +kernel) (by decide +kernel) halike with
    ⟨e, he, -⟩ | ⟨c, c', hc, hc', hmetadata, -⟩
  · rw [he] at haccepted
    cases haccepted
  · exact ⟨c, c', hc, hc', hmetadata⟩

end QuicLab.Awg
