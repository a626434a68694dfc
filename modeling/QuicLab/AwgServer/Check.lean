import QuicLab.AwgServer.Worker

/-!
# The peers a state asks for

Before it changes anything, the worker checks the peers of the enabled users and
renders their texts. This module says what the checks accept and what the texts set.

* The checks pass exactly when every peer has keys, and the address of a host, that
  no other peer has (`checkUsers_isOk`), and then give one text per peer
  (`checkUsers_ok`).
* The accepted addresses are the hosts of the network (`validPeerAddress_iff`).
* A table whose peers were set with those texts has the peers of the enabled users
  and no others (`Wanted.lookup_iff`).
-/

namespace QuicLab.AwgServer

open Go Netip

/-! ## The checks -/

/-- The text that sets the peer of a user. -/
def Peer.Stanza (p : Peer) (pub text : Bytes) : Prop :=
  keyHex p.publicKey = .ok pub ∧
    ∃ psk, keyHex p.psk = .ok psk ∧ text = peerText pub psk p.address

/-- The entry of the peer of a user on the device: its keys, and its address as the
    only allowed IP. -/
def Peer.Installs (p : Peer) (pub : Bytes) (q : DevicePeer) : Prop :=
  keyHex p.publicKey = .ok pub ∧ keyHex p.psk = .ok q.psk ∧
    ∃ ip, parseAddr p.address = some (.v4 ip) ∧ q.allowed = {.single ip}

/-- The peers of the enabled users, in the order of the users. -/
def enabledPeers (now : Time) (users : List (Bytes × User)) : List Peer :=
  users.filterMap fun e => e.2.enabledPeer now

variable {now : Time}

theorem enabledPeers_cons_none {e : Bytes × User} (h : e.2.enabledPeer now = none)
    (users : List (Bytes × User)) : enabledPeers now (e :: users) = enabledPeers now users := by
  rw [enabledPeers, List.filterMap_cons, h]
  rfl

variable {p : Peer}

theorem enabledPeers_cons_some {e : Bytes × User} (h : e.2.enabledPeer now = some p)
    (users : List (Bytes × User)) :
    enabledPeers now (e :: users) = p :: enabledPeers now users := by
  rw [enabledPeers, List.filterMap_cons, h]
  rfl

variable {users : List (Bytes × User)}

theorem mem_enabledPeers {m : Map Bytes User} (h : Map.IsRange users m) :
    p ∈ enabledPeers now users ↔
      ∃ id u, m.lookup id = some u ∧ u.enabledPeer now = some p := by
  rw [enabledPeers, List.mem_filterMap]
  constructor
  · rintro ⟨⟨id, u⟩, hu, hp⟩
    exact ⟨id, u, h.mem_iff.1 hu, hp⟩
  · rintro ⟨id, u, hu, hp⟩
    exact ⟨(id, u), h.mem_iff.2 hu, hp⟩

/-- The checks of the worker on the peers `ps`, with the addresses in `used` and
    the keys in `desired` already taken. -/
structure Accepted (network : Option Prefix) (used : List Bytes) (desired : Map Bytes Bytes)
    (ps : List Peer) : Prop where
  address : ∀ p ∈ ps, validPeerAddress network p.address = true ∧ p.address ∉ used
  keys : ∀ p ∈ ps, ∃ pub psk, keyHex p.publicKey = .ok pub ∧ keyHex p.psk = .ok psk ∧
    desired.lookup pub = none
  addresses : ps.Pairwise fun p q => p.address ≠ q.address
  distinct : ps.Pairwise fun p q => keyHex p.publicKey ≠ keyHex q.publicKey

variable {network : Option Prefix} {used : List Bytes}

theorem accepted_cons {desired : Map Bytes Bytes} {ps : List Peer} :
    Accepted network used desired (p :: ps) ↔
      (validPeerAddress network p.address = true ∧ p.address ∉ used) ∧
      ∃ pub psk, keyHex p.publicKey = .ok pub ∧ keyHex p.psk = .ok psk ∧
        desired.lookup pub = none ∧
        Accepted network (p.address :: used)
          (desired.insert pub (peerText pub psk p.address)) ps := by
  constructor
  · rintro ⟨haddr, hkeys, haddrs, hdistinct⟩
    rw [List.pairwise_cons] at haddrs hdistinct
    obtain ⟨pub, psk, hpub, hpsk, hnew⟩ := hkeys p List.mem_cons_self
    refine ⟨haddr p List.mem_cons_self, pub, psk, hpub, hpsk, hnew, fun q hq => ?_, fun q hq => ?_,
      haddrs.2, hdistinct.2⟩
    · obtain ⟨hvalid, hused⟩ := haddr q (List.mem_cons_of_mem _ hq)
      refine ⟨hvalid, fun hmem => ?_⟩
      obtain heq | hmem := List.mem_cons.1 hmem
      · exact haddrs.1 q hq heq.symm
      · exact hused hmem
    · obtain ⟨pub', psk', hpub', hpsk', hnew'⟩ := hkeys q (List.mem_cons_of_mem _ hq)
      refine ⟨pub', psk', hpub', hpsk', ?_⟩
      have hne : pub' ≠ pub := fun heq => hdistinct.1 q hq (by rw [hpub, hpub', heq])
      rw [Map.lookup_insert', if_neg hne, hnew']
  · rintro ⟨haddr, pub, psk, hpub, hpsk, hnew, hrest⟩
    refine ⟨fun q hq => ?_, fun q hq => ?_, List.pairwise_cons.2 ⟨fun q hq heq => ?_,
      hrest.addresses⟩, List.pairwise_cons.2 ⟨fun q hq heq => ?_, hrest.distinct⟩⟩
    · obtain rfl | hq := List.mem_cons.1 hq
      · exact haddr
      · obtain ⟨hvalid, hused⟩ := hrest.address q hq
        exact ⟨hvalid, fun hmem => hused (List.mem_cons_of_mem _ hmem)⟩
    · obtain rfl | hq := List.mem_cons.1 hq
      · exact ⟨pub, psk, hpub, hpsk, hnew⟩
      · obtain ⟨pub', psk', hpub', hpsk', hnew'⟩ := hrest.keys q hq
        rw [Map.lookup_insert'] at hnew'
        split_ifs at hnew'
        exact ⟨pub', psk', hpub', hpsk', hnew'⟩
    · exact (hrest.address q hq).2 (heq ▸ List.mem_cons_self)
    · obtain ⟨pub', psk', hpub', _, hnew'⟩ := hrest.keys q hq
      rw [hpub, hpub'] at heq
      cases heq
      rw [Map.lookup_insert', if_pos rfl] at hnew'
      cases hnew'

/-- The loop over the users accepts what passes the checks. -/
theorem checkUsers_isOk {desired : Map Bytes Bytes}
    (h : Accepted network used desired (enabledPeers now users)) :
    ∃ wanted, checkUsers network now users used desired = .ok wanted := by
  induction users generalizing used desired with
  | nil => exact ⟨desired, rfl⟩
  | cons e users ih =>
    rw [checkUsers]
    cases hp : e.2.enabledPeer now with
    | none =>
      rw [enabledPeers_cons_none hp] at h
      exact ih h
    | some p =>
      rw [enabledPeers_cons_some hp, accepted_cons] at h
      obtain ⟨⟨hvalid, hused⟩, pub, psk, hpub, hpsk, hnew, hrest⟩ := h
      simp only [hvalid, hused, hpub, hpsk, hnew, not_true_eq_false, or_self, if_false, ne_eq]
      exact ih hrest

variable {k text : Bytes}

theorem Peer.stanza_iff {pub psk : Bytes} (hpub : keyHex p.publicKey = .ok pub)
    (hpsk : keyHex p.psk = .ok psk) :
    p.Stanza k text ↔ k = pub ∧ text = peerText pub psk p.address := by
  rw [Peer.Stanza, hpub, hpsk]
  constructor
  · rintro ⟨heq, psk', heq', rfl⟩
    cases heq
    cases heq'
    exact ⟨rfl, rfl⟩
  · rintro ⟨rfl, rfl⟩
    exact ⟨rfl, psk, rfl, rfl⟩

/-- What the loop over the users accepts passes the checks, and the texts wanted are
    those of the enabled users. -/
theorem checkUsers_ok {desired wanted : Map Bytes Bytes}
    (h : checkUsers network now users used desired = .ok wanted) :
    Accepted network used desired (enabledPeers now users) ∧
      ∀ pub text, wanted.lookup pub = some text ↔ desired.lookup pub = some text ∨
        ∃ p ∈ enabledPeers now users, p.Stanza pub text := by
  induction users generalizing used desired with
  | nil =>
    cases h
    refine ⟨⟨List.forall_mem_nil _, List.forall_mem_nil _,
      .nil, .nil⟩, fun pub text => ⟨.inl, fun h => h.resolve_right ?_⟩⟩
    rintro ⟨p, hp, _⟩
    exact absurd hp List.not_mem_nil
  | cons e users ih =>
    rw [checkUsers] at h
    cases hp : e.2.enabledPeer now with
    | none =>
      rw [hp] at h
      rw [enabledPeers_cons_none hp]
      exact ih h
    | some p =>
      rw [hp] at h
      simp only at h
      split_ifs at h with haddr
      split at h
      · cases h
      · rename_i pub hpub
        split at h
        · cases h
        · rename_i psk hpsk
          split_ifs at h with hnew
          obtain ⟨hrest, hwanted⟩ := ih h
          rw [not_or, not_not] at haddr
          rw [not_not] at hnew
          rw [enabledPeers_cons_some hp, accepted_cons]
          refine ⟨⟨haddr, pub, psk, hpub, hpsk, hnew, hrest⟩, fun k text => ?_⟩
          rw [hwanted, Map.lookup_insert']
          simp only [List.mem_cons, exists_eq_or_imp, Peer.stanza_iff hpub hpsk]
          split_ifs with hk
          · -- The key is new, so its only text is that of `p`.
            subst hk
            rw [hnew]
            simp [eq_comm]
          · simp [hk]

/-- The addresses the worker accepts are the hosts of its network. -/
theorem validPeerAddress_iff {network : Prefix} {server : BitVec 32}
    (h : network.addr = .v4 server) (address : Bytes) :
    validPeerAddress (some network) address = true ↔
      ∃ ip, address = (Addr.v4 ip).string ∧ Host network ip := by
  have hhost := host_iff h
  unfold validPeerAddress
  constructor
  · intro hvalid
    cases hparse : parseAddr address with
    | none =>
      rw [hparse] at hvalid
      cases hvalid
    | some a =>
      rw [hparse] at hvalid
      simp only [Bool.decide_and, Bool.and_eq_true, decide_eq_true_eq] at hvalid
      cases a with
      | v4 ip => exact ⟨ip, parseAddr_eq_v4_iff.1 hparse, (hhost ip).2 hvalid⟩
      | v6 a zone =>
        have hcontains := hvalid.1
        unfold Prefix.contains at hcontains
        rw [h] at hcontains
        cases hcontains
  · rintro ⟨ip, haddr, hip⟩
    rw [parseAddr_eq_v4_iff.2 haddr]
    simp only [Bool.decide_and, Bool.and_eq_true, decide_eq_true_eq]
    exact (hhost ip).1 hip

theorem enabledPeer_eq_some {u : User} :
    u.enabledPeer now = some p ↔ u.enabled now = true ∧ u.awg = some p := by
  rw [User.enabledPeer]
  split_ifs with h
  · simp [h]
  · simp [h]

/-! ## The texts -/

/-- The text sets the peer under the key `k` to `q`. -/
def TextOf (k text : Bytes) (q : DevicePeer) : Prop :=
  ∃ (pub psk : Key) (address : Bytes) (ip : BitVec 32), k = hexEncode pub ∧
    text = peerText k (hexEncode psk) address ∧ parseAddr address = some (.v4 ip) ∧
      q = ⟨hexEncode psk, {.single ip}⟩

theorem TextOf.unique {q q' : DevicePeer} (h : TextOf k text q) (h' : TextOf k text q') :
    q = q' := by
  obtain ⟨_, psk, address, ip, _, rfl, hip, rfl⟩ := h
  obtain ⟨_, psk', address', ip', _, htext, hip', rfl⟩ := h'
  obtain ⟨hpsk, rfl⟩ := peerText_inj
    ((length_hexEncode_key psk).trans (length_hexEncode_key psk').symm) htext
  rw [hip] at hip'
  cases hip'
  rw [hpsk]

/-- The texts set peers without common addresses. -/
structure Settable (desired : Map Bytes Bytes) : Prop where
  textOf : ∀ k text, desired.lookup k = some text → ∃ q, TextOf k text q
  disjoint : ∀ k k' text text' q q', desired.lookup k = some text →
    desired.lookup k' = some text' → k ≠ k' → TextOf k text q → TextOf k' text' q' →
      Disjoint q.allowed q'.allowed

theorem Peer.Stanza.textOf {q : DevicePeer} (hs : p.Stanza k text) (hi : p.Installs k q) :
    TextOf k text q := by
  obtain ⟨hpub, psk, hpsk, rfl⟩ := hs
  obtain ⟨_, hqpsk, ip, hip, hallowed⟩ := hi
  obtain ⟨key, rfl⟩ := keyHex_ok hpub
  obtain ⟨psk', rfl⟩ := keyHex_ok hpsk
  have hq : q.psk = hexEncode psk' := Except.ok.inj (hqpsk.symm.trans hpsk)
  refine ⟨key, psk', p.address, ip, rfl, rfl, hip, ?_⟩
  rw [← hallowed, ← hq]

section Wanted

variable {network : Prefix} {server : BitVec 32} {desired : Map Bytes Bytes} {ps : List Peer}

/-- A peer that passes the checks can be set. -/
theorem Accepted.installs (h : Accepted (some network) [] desired ps)
    (hnet : network.addr = .v4 server) {p : Peer} (hp : p ∈ ps) :
    ∃ k text q, p.Stanza k text ∧ p.Installs k q := by
  obtain ⟨ip, haddr, _⟩ := (validPeerAddress_iff hnet p.address).1 (h.address p hp).1
  obtain ⟨pub, psk, hpub, hpsk, _⟩ := h.keys p hp
  exact ⟨pub, _, ⟨psk, {.single ip}⟩, ⟨hpub, psk, hpsk, rfl⟩, hpub, hpsk, ip,
    parseAddr_eq_v4_iff.2 haddr, rfl⟩

/-- Peers that pass the checks have no allowed IP in common. -/
theorem Accepted.disjoint (h : Accepted (some network) [] desired ps) {p p' : Peer}
    (hp : p ∈ ps) (hp' : p' ∈ ps) {k k' : Bytes} {q q' : DevicePeer} (hi : p.Installs k q)
    (hi' : p'.Installs k' q') (hk : k ≠ k') : Disjoint q.allowed q'.allowed := by
  obtain ⟨hpub, _, ip, hip, hallowed⟩ := hi
  obtain ⟨hpub', _, ip', hip', hallowed'⟩ := hi'
  have hne : p ≠ p' := by
    rintro rfl
    exact hk (Except.ok.inj (hpub.symm.trans hpub'))
  have : Std.Symm fun p q : Peer => p.address ≠ q.address := ⟨fun _ _ hne => hne.symm⟩
  have haddr := h.addresses.forall hp hp' hne
  rw [hallowed, hallowed', Finset.disjoint_singleton]
  intro heq
  cases Prefix.single_injective heq
  exact haddr ((parseAddr_eq_v4_iff.1 hip).trans (parseAddr_eq_v4_iff.1 hip').symm)

/-- The texts wanted for the peers `ps`. -/
structure Wanted (ps : List Peer) (desired : Map Bytes Bytes) : Prop where
  stanza : ∀ k text, desired.lookup k = some text ↔ ∃ p ∈ ps, p.Stanza k text
  installs : ∀ p ∈ ps, ∃ k text q, p.Stanza k text ∧ p.Installs k q
  disjoint : ∀ p ∈ ps, ∀ p' ∈ ps, ∀ k k' q q', p.Installs k q → p'.Installs k' q' → k ≠ k' →
    Disjoint q.allowed q'.allowed
  distinct : ps.Pairwise fun p q => keyHex p.publicKey ≠ keyHex q.publicKey

/-- The checks of a worker with a valid configuration give the texts wanted. -/
theorem wanted_of_check {c : Config} (hc : c.validate = none) {now : Time}
    {users : List (Bytes × User)}
    (hcheck : checkUsers (parsePrefix c.address) now users [] ∅ = .ok desired) :
    Wanted (enabledPeers now users) desired := by
  obtain ⟨network, server, hnetwork, hserver, _⟩ := Config.network_of_validate hc
  obtain ⟨hacc, hwanted⟩ := checkUsers_ok hcheck
  rw [hnetwork] at hacc
  refine ⟨fun k text => ?_, fun p hp => hacc.installs hserver hp,
    fun p hp p' hp' k k' q q' hi hi' hk => hacc.disjoint hp hp' hi hi' hk, hacc.distinct⟩
  rw [hwanted, Finmap.lookup_empty]
  exact ⟨fun h => h.resolve_left (nomatch ·), .inr⟩

theorem Wanted.textOf (h : Wanted ps desired) {k text : Bytes}
    (hk : desired.lookup k = some text) :
    ∃ p ∈ ps, ∃ q, p.Installs k q ∧ TextOf k text q := by
  obtain ⟨p, hp, hs⟩ := (h.stanza k text).1 hk
  obtain ⟨k', _, q, _, hi⟩ := h.installs p hp
  obtain rfl : k' = k := Except.ok.inj (hi.1.symm.trans hs.1)
  exact ⟨p, hp, q, hi, hs.textOf hi⟩

theorem Wanted.settable (h : Wanted ps desired) : Settable desired where
  textOf k text hk := by
    obtain ⟨_, _, q, _, hq⟩ := h.textOf hk
    exact ⟨q, hq⟩
  disjoint k k' text text' q q' hk hk' hne hq hq' := by
    obtain ⟨p, hp, r, hr, ht⟩ := h.textOf hk
    obtain ⟨p', hp', r', hr', ht'⟩ := h.textOf hk'
    rw [hq.unique ht, hq'.unique ht']
    exact h.disjoint p hp p' hp' k k' r r' hr hr' hne

/-- Enabled users have different public keys. -/
theorem Wanted.eq_of_installs {now : Time} {users : List (Bytes × User)} {m : Map Bytes User}
    (h : Wanted (enabledPeers now users) desired) (hr : Map.IsRange users m) {id id' : Bytes}
    {u u' : User} (hu : m.lookup id = some u) (hu' : m.lookup id' = some u') {p p' : Peer}
    (hp : u.enabledPeer now = some p) (hp' : u'.enabledPeer now = some p') {k : Bytes}
    {q q' : DevicePeer} (hi : p.Installs k q) (hi' : p'.Installs k q') : id = id' := by
  by_contra hne
  -- `distinct` compares the peers in the order of the users, and here either can be first.
  have : Std.Symm fun e e' : Bytes × User => ∀ p, e.2.enabledPeer now = some p →
      ∀ p', e'.2.enabledPeer now = some p' → keyHex p.publicKey ≠ keyHex p'.publicKey :=
    ⟨fun _ _ h p hp p' hp' => (h p' hp' p hp).symm⟩
  have hpair := (List.pairwise_filterMap.1 h.distinct).forall (hr.mem_iff.2 hu)
    (hr.mem_iff.2 hu') (fun heq => hne (congrArg Prod.fst heq)) p hp p' hp'
  exact hpair (hi.1.trans hi'.1.symm)

/-- A table whose peers were set with the texts wanted has the peers wanted. -/
theorem Wanted.lookup_iff (h : Wanted ps desired) {table : PeerTable}
    (ht : ∀ k, Option.Rel (TextOf k) (desired.lookup k) (table.lookup k)) (k : Bytes)
    (q : DevicePeer) : table.lookup k = some q ↔ ∃ p ∈ ps, p.Installs k q := by
  have hrel := ht k
  constructor
  · intro hq
    rw [hq] at hrel
    cases htext : desired.lookup k with
    | none =>
      rw [htext] at hrel
      cases hrel
    | some text =>
      rw [htext] at hrel
      cases hrel with
      | some hof =>
        obtain ⟨p, hp, q', hi, hof'⟩ := h.textOf htext
        exact ⟨p, hp, hof.unique hof' ▸ hi⟩
  · rintro ⟨p, hp, hi⟩
    obtain ⟨k', text, _, hs, _⟩ := h.installs p hp
    obtain rfl : k' = k := Except.ok.inj (hs.1.symm.trans hi.1)
    rw [(h.stanza k' text).2 ⟨p, hp, hs⟩] at hrel
    generalize table.lookup k' = o at hrel ⊢
    cases hrel with
    | some hof => rw [hof.unique (hs.textOf hi)]

end Wanted

end QuicLab.AwgServer
