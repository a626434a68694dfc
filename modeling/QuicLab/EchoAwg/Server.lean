import Mathlib.Order.Interval.Finset.Nat
import QuicLab.AwgServer.Client
import QuicLab.AwgServer.Reconcile
import QuicLab.Go.Time
import QuicLab.System

/-!
# Leases of the public AWG echo

Anyone may enroll as a peer of the echo, for ten minutes: a request gets a fresh key and an
address of its own, `10.253.253.id`. Leases that are over are pruned once a second and by every
request. The leases and the peers of the device are changed one after the other, and either
change may fail.

* `Inv`, `inv_of_reachable`: the peers of the device are those of the leases, each with its
  address only, whatever fails. So an address is never that of two peers.
* `freeID_spec`: there is a free address for every request that is admitted.
* `kept_of_next`: a lease stays as long as its peer is on the device.
-/

namespace QuicLab.EchoAwg

open Go Netip AwgServer

/-! ## The server -/

/-- `Address`. -/
def address : Bytes := str "10.253.253.1"

/-- `ProbePort`. -/
def probePort : ℕ := 9000

/-- `Lifetime`. -/
def lifetime : Duration := 600 * second

/-- `MaxPeers`. -/
def maxPeers : ℕ := 64

/-- A lease. -/
structure Lease where
  publicKey : Bytes
  expires : Time
  deriving DecidableEq

/-- The server, with a device in the states `D`. -/
structure Server (D : Type*) where
  device : D
  identity : Identity
  endpoint : Bytes
  leases : Map ℕ Lease
  probe : Bool
  admissions : ℕ
  window : Time
  closed : Bool

/-- A request: its time, the order in which it goes through the leases, and the keys made
    for it. -/
structure Request where
  method : Bytes
  now : Time
  order : List (ℕ × Lease)
  seed : Except String PeerSeed

/-- What a request that succeeds gets. -/
structure Enrollment where
  endpoint : Bytes
  awgConfig : Bytes
  awgProbeEndpoint : Bytes
  expiresAt : ℤ
  /-- `transit_endpoint`, and `transit_udp`. -/
  transitEndpoint : Option Bytes

/-- The responses: 405, 503, 429, 500 and 200. -/
inductive Response
  | postRequired
  | unavailable
  | busy
  | provisioningFailed
  | enrolled (e : Enrollment)

/-- The text that adds a peer. -/
def leaseText (pub psk address : Bytes) : Bytes :=
  str "public_key=" ++ (pub ++ (str "\npreshared_key=" ++ (psk ++
    (str "\nallowed_ip=" ++ (address ++ str "/32\n")))))

/-- A key in hexadecimal, nothing where it is no key. -/
def hexOf (key : Bytes) : Bytes :=
  match keyHex key with
  | .ok h => h
  | .error _ => []

variable {D : Type*}

namespace Server

section

variable (dev : Device D)

/-- `Server.prune`, along the leases in some order. -/
def prune (now : Time) : List (ℕ × Lease) → Server D → Server D
  | [], s => s
  | (id, l) :: rest, s =>
    if l.expires ≤ now then
      match dev.ipcSet (removeText l.publicKey) s.device with
      | (true, d) => prune now rest { s with device := d, leases := s.leases.erase id }
      | (false, d) => prune now rest { s with device := d }
    else prune now rest s

/-- The search for an identifier: from `id` on, for `n` of them. -/
def freeID (leases : Map ℕ Lease) : ℕ → ℕ → ℕ
  | 0, id => id
  | n + 1, id => if leases.lookup id = none then id else freeID leases n (id + 1)

/-- What is there for a request: the leases that are over are pruned, and the admissions
    are counted anew every minute. -/
def refresh (r : Request) (s : Server D) : Server D :=
  let s := s.prune dev r.now r.order
  if 60 * second ≤ r.now - s.window then { s with window := r.now, admissions := 0 } else s

/-- The configuration that is sent to clients. -/
def clientConfig (s : Server D) : Config where
  healthCheckIntervalSeconds := 0
  offlineAfterSeconds := 0
  endpoint := s.endpoint
  address := []
  dns := EchoAwg.address
  allowedIPs := [EchoAwg.address ++ str "/32"]
  interface := []
  mtu := 1280

/-- The response to a request that succeeds. -/
def enrollment (s : Server D) (peer : Peer) (expires : Time) : Enrollment where
  endpoint := s.endpoint
  awgConfig := s.clientConfig.client s.identity peer
  awgProbeEndpoint := EchoAwg.address ++ str ":0"
  expiresAt := expires.unix
  transitEndpoint := if s.probe then some (EchoAwg.address ++ str ":" ++ decimal probePort) else none

/-- The lease of the identifier `id` to a peer. -/
def provision (r : Request) (id : ℕ) (s : Server D) : Response × Server D :=
  match newPeer (str "10.253.253." ++ decimal id) r.seed with
  | .error _ => (.provisioningFailed, s)
  | .ok peer =>
    let pub := hexOf peer.publicKey
    match dev.ipcSet (leaseText pub (hexOf peer.psk) peer.address) s.device with
    | (false, d) => (.provisioningFailed, { s with device := d })
    | (true, d) =>
      let expires := r.now + lifetime
      (.enrolled (s.enrollment peer expires),
        { s with device := d, leases := s.leases.insert id ⟨pub, expires⟩ })

/-- The limits of `Server.ServeHTTP`. -/
def admission (r : Request) (s : Server D) : Response × Server D :=
  if 32 ≤ s.admissions ∨ maxPeers ≤ s.leases.len then (.busy, s)
  else provision dev r (freeID s.leases maxPeers 2) { s with admissions := s.admissions + 1 }

/-- `Server.ServeHTTP`. -/
def serveHTTP (r : Request) (s : Server D) : Response × Server D :=
  if r.method ≠ str "POST" then (.postRequired, s)
  else if s.closed then (.unavailable, s)
  else (s.refresh dev r).admission dev r

end

end Server

/-- What happens to the server: a request, or the ticker. -/
inductive Event
  | request (r : Request)
  | tick (now : Time) (order : List (ℕ × Lease))

/-- Its time. -/
def Event.now : Event → Time
  | .request r => r.now
  | .tick now _ => now

/-- The order in which it goes through the leases. -/
def Event.order : Event → List (ℕ × Lease)
  | .request r => r.order
  | .tick _ order => order

/-- The server after an event. -/
def Server.next (dev : Device D) (s : Server D) : Event → Server D
  | .request r => (s.serveHTTP dev r).2
  | .tick now order => s.prune dev now order

/-- A key that is made is not that of a lease. -/
def Event.Fresh (s : Server D) : Event → Prop
  | .request r => ∀ seed, r.seed = .ok seed → ∀ id l, s.leases.lookup id = some l →
      l.publicKey ≠ hexEncode seed.publicKey
  | .tick _ _ => True

/-- The server with a device in the state `d`. -/
def Server.start (d : D) (identity : Identity) (endpoint : Bytes) (probe : Bool) : Server D where
  device := d
  identity := identity
  endpoint := endpoint
  leases := ∅
  probe := probe
  admissions := 0
  window := 0
  closed := false

/-- The runs of the server from the state `s₀`, with keys that are distinct. -/
def server (dev : Device D) (s₀ : Server D) : System (Server D) Event where
  init s := s = s₀
  step s a s' := Map.IsRange a.order s.leases ∧ a.Fresh s ∧ s' = s.next dev a

/-! ## The device -/

/-- The table after a peer is given one more address, which is taken from the others. -/
def give (t : PeerTable) (pub psk : Bytes) (ip : BitVec 32) : PeerTable :=
  Finmap.insert pub ⟨psk, insert (.single ip) (((t.lookup pub).map DevicePeer.allowed).getD ∅)⟩
    (t.mapVals fun q => { q with allowed := q.allowed.erase (.single ip) })

/-- What is documented about a device: a text takes full effect, or fails and changes
    nothing. -/
structure Lawful (dev : Device D) : Prop where
  failed : ∀ {text d d'}, dev.ipcSet text d = (false, d') → dev.peers d' = dev.peers d
  peer : ∀ {pub psk : Key} {address : Bytes} {ip d d'}, parseAddr address = some (.v4 ip) →
    dev.ipcSet (leaseText (hexEncode pub) (hexEncode psk) address) d = (true, d') →
      dev.peers d' = give (dev.peers d) (hexEncode pub) (hexEncode psk) ip
  remove : ∀ {pub : Key} {d d'}, dev.ipcSet (removeText (hexEncode pub)) d = (true, d') →
    dev.peers d' = (dev.peers d).erase (hexEncode pub)

/-- The address of an identifier. -/
def clientIP (id : ℕ) : BitVec 32 := BitVec.ofNat 32 (0x0afdfd00 + id)

theorem clientIP_inj {i j : ℕ} (hi : i ≤ 255) (hj : j ≤ 255) (h : clientIP i = clientIP j) :
    i = j := by
  have hnat := congrArg BitVec.toNat h
  rw [clientIP, clientIP, BitVec.toNat_ofNat, BitVec.toNat_ofNat] at hnat
  omega

theorem parseAddr_clientIP {id : ℕ} (hid : id ≤ 255) :
    parseAddr (str "10.253.253." ++ decimal id) = some (.v4 (clientIP id)) := by
  have hnat : (clientIP id).toNat = 0x0afdfd00 + id := by
    rw [clientIP, BitVec.toNat_ofNat]
    omega
  have hbytes : putUint 4 (0x0afdfd00 + id) = putUint 3 0x0afdfd ++ [UInt8.ofNat id] := by
    rw [putUint_succ, show (0x0afdfd00 + id) / 256 = 0x0afdfd by omega,
      show (0x0afdfd00 + id) % 256 = id by omega]
  have hbyte : (UInt8.ofNat id).toNat = id := by
    rw [UInt8.toNat_ofNat']
    omega
  rw [parseAddr_eq_v4_iff, Addr.string, hnat, hbytes]
  show _ = str "10.253.253." ++ octet (UInt8.ofNat id).toNat
  rw [hbyte, decimal_octet hid]

theorem lookup_give (t : PeerTable) (pub psk : Bytes) (ip : BitVec 32) (k : Bytes) :
    (give t pub psk ip).lookup k =
      if k = pub then
        some ⟨psk, insert (.single ip) (((t.lookup pub).map DevicePeer.allowed).getD ∅)⟩
      else (t.lookup k).map fun q => { q with allowed := q.allowed.erase (.single ip) } := by
  rw [give, Map.lookup_insert', Map.lookup_mapVals]

/-! ## Leases and peers -/

/-- The peers of the device are those of the leases, each with the address of its lease. -/
structure Inv (dev : Device D) (s : Server D) : Prop where
  bounds : ∀ {id l}, s.leases.lookup id = some l → 2 ≤ id ∧ id < maxPeers + 2
  leased : ∀ {id l}, s.leases.lookup id = some l → ∃ (k : Key) (psk : Bytes),
    l.publicKey = hexEncode k ∧
      (dev.peers s.device).lookup (hexEncode k) = some ⟨psk, {.single (clientIP id)}⟩
  owned : ∀ {k q}, (dev.peers s.device).lookup k = some q →
    ∃ id l, s.leases.lookup id = some l ∧ l.publicKey = k

section Inv

variable {dev : Device D} {s : Server D} {id id' : ℕ} {l l' : Lease}

/-- A key is that of one lease. -/
theorem Inv.id_eq (h : Inv dev s) (hl : s.leases.lookup id = some l)
    (hl' : s.leases.lookup id' = some l') (hkey : l.publicKey = l'.publicKey) : id = id' := by
  obtain ⟨k, psk, hk, hpeer⟩ := h.leased hl
  obtain ⟨k', psk', hk', hpeer'⟩ := h.leased hl'
  rw [← hk, hkey, hk', hpeer', Option.some_inj] at hpeer
  have hallowed := Finset.singleton_injective (congrArg DevicePeer.allowed hpeer)
  have hbounds := h.bounds hl
  have hbounds' := h.bounds hl'
  rw [maxPeers] at hbounds hbounds'
  exact clientIP_inj (by omega) (by omega) (Prefix.single_injective hallowed.symm)

theorem Inv.peer_iff (h : Inv dev s) {k : Bytes} {allowed : Finset Prefix} :
    (∃ psk, (dev.peers s.device).lookup k = some ⟨psk, allowed⟩) ↔
      ∃ id l, s.leases.lookup id = some l ∧ l.publicKey = k ∧
        allowed = {.single (clientIP id)} := by
  constructor
  · rintro ⟨psk, hpeer⟩
    obtain ⟨id, l, hl, rfl⟩ := h.owned hpeer
    obtain ⟨k', psk', hk', hpeer'⟩ := h.leased hl
    rw [hk', hpeer'] at hpeer
    cases hpeer
    exact ⟨id, l, hl, rfl, rfl⟩
  · rintro ⟨id, l, hl, rfl, rfl⟩
    obtain ⟨k', psk', hk', hpeer'⟩ := h.leased hl
    exact ⟨psk', hk' ▸ hpeer'⟩

/-- An address is that of one peer. -/
theorem Inv.key_eq (h : Inv dev s) {k k' : Bytes} {q q' : DevicePeer} {p : Prefix}
    (hq : (dev.peers s.device).lookup k = some q) (hq' : (dev.peers s.device).lookup k' = some q')
    (hp : p ∈ q.allowed) (hp' : p ∈ q'.allowed) : k = k' := by
  obtain ⟨id, l, hl, rfl, hallowed⟩ := h.peer_iff.1 ⟨q.psk, hq⟩
  obtain ⟨id', l', hl', rfl, hallowed'⟩ := h.peer_iff.1 ⟨q'.psk, hq'⟩
  rw [hallowed, Finset.mem_singleton] at hp
  rw [hallowed', Finset.mem_singleton] at hp'
  have hbounds := h.bounds hl
  have hbounds' := h.bounds hl'
  rw [maxPeers] at hbounds hbounds'
  cases clientIP_inj (by omega) (by omega) (Prefix.single_injective (hp.symm.trans hp'))
  cases hl.symm.trans hl'
  rfl

/-- What only the leases and the peers matter for. -/
theorem Inv.congr {s' : Server D} (h : Inv dev s) (hleases : s'.leases = s.leases)
    (hpeers : dev.peers s'.device = dev.peers s.device) : Inv dev s' := by
  refine ⟨?_, ?_, ?_⟩
  · rw [hleases]
    exact h.bounds
  · rw [hleases, hpeers]
    exact h.leased
  · rw [hleases, hpeers]
    exact h.owned

variable (hdev : Lawful dev)

include hdev

/-- A lease whose peer was removed is deleted. -/
theorem Inv.remove (h : Inv dev s) (hl : s.leases.lookup id = some l) {d : D}
    (hset : dev.ipcSet (removeText l.publicKey) s.device = (true, d)) :
    Inv dev { s with device := d, leases := s.leases.erase id } := by
  have hsub : ∀ {id' l'}, (s.leases.erase id).lookup id' = some l' →
      id' ≠ id ∧ s.leases.lookup id' = some l' := by
    intro id' l' hl'
    rw [Map.lookup_erase'] at hl'
    split_ifs at hl' with hne
    exact ⟨hne, hl'⟩
  obtain ⟨k, psk, hk, hpeer⟩ := h.leased hl
  rw [hk] at hset
  have hpeers := hdev.remove hset
  refine ⟨fun hl' => h.bounds (hsub hl').2, fun {id' l'} hl' => ?_, fun {k' q} hq => ?_⟩
  · obtain ⟨hne, hl'⟩ := hsub hl'
    obtain ⟨k', psk', hk', hpeer'⟩ := h.leased hl'
    have hkey : hexEncode k' ≠ hexEncode k := fun heq =>
      hne (h.id_eq hl' hl (by rw [hk', heq, hk]))
    refine ⟨k', psk', hk', ?_⟩
    rw [hpeers, Map.lookup_erase', if_neg hkey, hpeer']
  · rw [hpeers, Map.lookup_erase'] at hq
    split_ifs at hq with hne
    obtain ⟨id', l', hl', hkey⟩ := h.owned hq
    refine ⟨id', l', ?_, hkey⟩
    have hid : id' ≠ id := by
      rintro rfl
      rw [hl, Option.some_inj] at hl'
      exact hne (by rw [← hkey, ← hl', hk])
    show (s.leases.erase id).lookup id' = some l'
    rw [Map.lookup_erase', if_neg hid, hl']

/-- A peer with a key and an address of its own is added. -/
theorem Inv.provide (h : Inv dev s) (hbounds : 2 ≤ id ∧ id < maxPeers + 2)
    (hfree : s.leases.lookup id = none) {pub psk : Key}
    (hfresh : ∀ id l, s.leases.lookup id = some l → l.publicKey ≠ hexEncode pub) {d : D}
    (hset : dev.ipcSet (leaseText (hexEncode pub) (hexEncode psk)
      (str "10.253.253." ++ decimal id)) s.device = (true, d)) (expires : Time) :
    Inv dev { s with device := d, leases := s.leases.insert id ⟨hexEncode pub, expires⟩ } := by
  have hnew : (dev.peers s.device).lookup (hexEncode pub) = none := by
    rw [Option.eq_none_iff_forall_ne_some]
    intro q hq
    obtain ⟨id', l', hl', hkey⟩ := h.owned hq
    exact hfresh id' l' hl' hkey
  have hid : id ≤ 255 := by
    rw [maxPeers] at hbounds
    omega
  have hlookup : ∀ k, (dev.peers d).lookup k = if k = hexEncode pub then
      some ⟨hexEncode psk, {.single (clientIP id)}⟩ else
      ((dev.peers s.device).lookup k).map fun q =>
        { q with allowed := q.allowed.erase (.single (clientIP id)) } := by
    intro k
    rw [hdev.peer (parseAddr_clientIP hid) hset, lookup_give, hnew]
    rfl
  refine ⟨fun {id' l'} hl' => ?_, fun {id' l'} hl' => ?_, fun {k q} hq => ?_⟩
  · rw [Map.lookup_insert'] at hl'
    split_ifs at hl' with heq
    · exact heq ▸ hbounds
    · exact h.bounds hl'
  · rw [Map.lookup_insert'] at hl'
    split_ifs at hl' with heq
    · cases hl'
      refine ⟨pub, hexEncode psk, rfl, ?_⟩
      rw [hlookup, if_pos rfl, heq]
    · -- The address of another lease is not the new one.
      obtain ⟨k', psk', hk', hpeer'⟩ := h.leased hl'
      refine ⟨k', psk', hk', ?_⟩
      rw [hlookup, if_neg (hk' ▸ hfresh id' l' hl'), hpeer', Option.map_some]
      have hid' := h.bounds hl'
      rw [maxPeers] at hid'
      have hne : Prefix.single (clientIP id) ∉ ({.single (clientIP id')} : Finset Prefix) := by
        rw [Finset.mem_singleton]
        exact fun h => heq (clientIP_inj (by omega) hid (Prefix.single_injective h).symm)
      rw [Finset.erase_eq_of_notMem hne]
  · rw [hlookup] at hq
    split_ifs at hq with hk
    · refine ⟨id, ⟨hexEncode pub, expires⟩, ?_, hk.symm⟩
      show (s.leases.insert id _).lookup id = _
      rw [Finmap.lookup_insert]
    · obtain ⟨q', hq', _⟩ := Option.map_eq_some_iff.1 hq
      obtain ⟨id', l', hl', hkey⟩ := h.owned hq'
      have hne : id' ≠ id := by
        rintro rfl
        rw [hfree] at hl'
        cases hl'
      refine ⟨id', l', ?_, hkey⟩
      show (s.leases.insert id _).lookup id' = _
      rw [Map.lookup_insert', if_neg hne, hl']

end Inv

/-! ## Identifiers -/

/-- The search finds a free identifier if there is one. -/
theorem freeID_of_exists {leases : Map ℕ Lease} {n id : ℕ}
    (h : ∃ k, id ≤ k ∧ k < id + n ∧ leases.lookup k = none) :
    leases.lookup (Server.freeID leases n id) = none ∧ id ≤ Server.freeID leases n id ∧
      Server.freeID leases n id < id + n := by
  induction n generalizing id with
  | zero =>
    obtain ⟨k, hle, hlt, _⟩ := h
    omega
  | succ n ih =>
    by_cases hid : leases.lookup id = none
    · rw [show Server.freeID leases (n + 1) id = id from if_pos hid]
      exact ⟨hid, le_refl id, by omega⟩
    · obtain ⟨k, hle, hlt, hk⟩ := h
      have hne : k ≠ id := fun heq => hid (heq ▸ hk)
      obtain ⟨hfree, hge, hlt'⟩ := @ih (id + 1) ⟨k, by omega, by omega, hk⟩
      rw [show Server.freeID leases (n + 1) id = Server.freeID leases n (id + 1) from if_neg hid]
      exact ⟨hfree, by omega, by omega⟩

/-- Fewer leases than identifiers leave one free. -/
theorem freeID_spec {leases : Map ℕ Lease} (hlen : leases.len < maxPeers) :
    leases.lookup (Server.freeID leases maxPeers 2) = none ∧
      2 ≤ Server.freeID leases maxPeers 2 ∧ Server.freeID leases maxPeers 2 < maxPeers + 2 := by
  rw [Nat.add_comm maxPeers]
  refine freeID_of_exists ?_
  by_contra hall
  have hsub : Finset.Ico 2 (2 + maxPeers) ⊆ leases.keys := by
    intro k hk
    rw [Finset.mem_Ico] at hk
    rw [Finmap.mem_keys]
    by_contra hmem
    exact hall ⟨k, hk.1, hk.2, Finmap.lookup_eq_none.2 hmem⟩
  have hcard := Finset.card_le_card hsub
  rw [Nat.card_Ico, Map.keys_card] at hcard
  omega

/-- There are no more leases than identifiers. -/
theorem Inv.len_le {dev : Device D} {s : Server D} (h : Inv dev s) : s.leases.len ≤ maxPeers := by
  have hsub : s.leases.keys ⊆ Finset.Ico 2 (maxPeers + 2) := by
    intro k hk
    obtain ⟨l, hl⟩ := Finmap.mem_iff.1 (Finmap.mem_keys.1 hk)
    exact Finset.mem_Ico.2 (h.bounds hl)
  have hcard := Finset.card_le_card hsub
  rwa [Nat.card_Ico, Nat.add_sub_cancel, Map.keys_card] at hcard

/-! ## Events -/

section Events

variable {dev : Device D} (hdev : Lawful dev) {s s' : Server D} {now : Time}

/-- What pruning does: leases that are over may go, with their peers. -/
structure Pruned (dev : Device D) (now : Time) (s s' : Server D) : Prop where
  inv : Inv dev s'
  sub : ∀ {id l}, s'.leases.lookup id = some l → s.leases.lookup id = some l
  kept : ∀ {id l}, s.leases.lookup id = some l → now < l.expires → s'.leases.lookup id = some l

theorem Pruned.trans {s'' : Server D} (h : Pruned dev now s s') (h' : Pruned dev now s' s'') :
    Pruned dev now s s'' :=
  ⟨h'.inv, fun hl => h.sub (h'.sub hl), fun hl hnow => h'.kept (h.kept hl hnow) hnow⟩

include hdev

theorem pruned_prune {order : List (ℕ × Lease)} (h : Inv dev s)
    (horder : ∀ e ∈ order, s.leases.lookup e.1 = some e.2) (hnodup : (order.map Prod.fst).Nodup) :
    Pruned dev now s (s.prune dev now order) := by
  induction order generalizing s with
  | nil => exact ⟨h, id, fun hl _ => hl⟩
  | cons e order ih =>
    obtain ⟨id₀, l⟩ := e
    rw [List.forall_mem_cons] at horder
    rw [List.map_cons, List.nodup_cons] at hnodup
    rw [Server.prune]
    split_ifs with hexpired
    · cases hset : dev.ipcSet (removeText l.publicKey) s.device with
      | mk ok d =>
        cases ok with
        | false =>
          have hinv : Inv dev { s with device := d } := h.congr rfl (hdev.failed hset)
          have hstep : Pruned dev now s { s with device := d } := ⟨hinv, id, fun hl _ => hl⟩
          exact hstep.trans (ih hinv horder.2 hnodup.2)
        | true =>
          have hinv := h.remove hdev horder.1 hset
          have hstep : Pruned dev now s { s with device := d, leases := s.leases.erase id₀ } := by
            refine ⟨hinv, fun {id' l'} hl' => ?_, fun {id' l'} hl' hnow => ?_⟩
            · rw [Map.lookup_erase'] at hl'
              split_ifs at hl'
              exact hl'
            · have hne : id' ≠ id₀ := by
                rintro rfl
                cases horder.1.symm.trans hl'
                exact absurd hnow (not_lt.2 hexpired)
              show (s.leases.erase id₀).lookup id' = some l'
              rw [Map.lookup_erase', if_neg hne, hl']
          refine hstep.trans (ih hinv (fun e he => ?_) hnodup.2)
          -- The entries that are still to be visited have other identifiers.
          have hne : e.1 ≠ id₀ := fun heq =>
            hnodup.1 (List.mem_map.2 ⟨e, he, heq⟩)
          show (s.leases.erase id₀).lookup e.1 = some e.2
          rw [Map.lookup_erase', if_neg hne, horder.2 e he]
    · exact ih h horder.2 hnodup.2

theorem pruned_of_isRange {order : List (ℕ × Lease)} (h : Inv dev s)
    (horder : Map.IsRange order s.leases) : Pruned dev now s (s.prune dev now order) :=
  pruned_prune hdev h (fun _ he => horder.mem_iff.1 he) horder.nodup_keys

omit hdev in
theorem refresh_leases (dev : Device D) (r : Request) (s : Server D) :
    (s.refresh dev r).leases = (s.prune dev r.now r.order).leases := by
  rw [Server.refresh]
  split_ifs <;> rfl

omit hdev in
theorem refresh_device (dev : Device D) (r : Request) (s : Server D) :
    (s.refresh dev r).device = (s.prune dev r.now r.order).device := by
  rw [Server.refresh]
  split_ifs <;> rfl

theorem pruned_refresh {r : Request} (h : Inv dev s) (horder : Map.IsRange r.order s.leases) :
    Pruned dev r.now s (s.refresh dev r) := by
  have hpruned : Pruned dev r.now s (s.prune dev r.now r.order) := pruned_of_isRange hdev h horder
  have hleases := refresh_leases dev r s
  refine ⟨hpruned.inv.congr hleases (by rw [refresh_device]), ?_, ?_⟩
  · rw [hleases]
    exact hpruned.sub
  · rw [hleases]
    exact hpruned.kept

omit hdev in
/-- What a request comes to: it is refused, or it is provided with a free identifier. -/
theorem serveHTTP_cases (dev : Device D) (r : Request) (s : Server D) :
    s.serveHTTP dev r = (.postRequired, s) ∨ s.serveHTTP dev r = (.unavailable, s) ∨
    s.serveHTTP dev r = (.busy, s.refresh dev r) ∨
    ((s.refresh dev r).leases.len < maxPeers ∧ ∃ s₁ : Server D,
      s₁.leases = (s.refresh dev r).leases ∧ s₁.device = (s.refresh dev r).device ∧
      s.serveHTTP dev r = s₁.provision dev r
        (Server.freeID (s.refresh dev r).leases maxPeers 2)) := by
  rw [Server.serveHTTP, Server.admission]
  split_ifs with hmethod hclosed hbusy
  · exact .inl rfl
  · exact .inr (.inl rfl)
  · exact .inr (.inr (.inl rfl))
  · exact .inr (.inr (.inr ⟨not_le.1 (not_or.1 hbusy).2,
      { s.refresh dev r with admissions := (s.refresh dev r).admissions + 1 }, rfl, rfl, rfl⟩))

/-- What the provision of a lease does: nothing, or a peer is added. -/
theorem provision_cases (r : Request) (id : ℕ) (s : Server D) :
    ((s.provision dev r id).1 = .provisioningFailed ∧
      (s.provision dev r id).2.leases = s.leases ∧
      dev.peers (s.provision dev r id).2.device = dev.peers s.device) ∨
    ∃ seed d e, r.seed = .ok seed ∧
      dev.ipcSet (leaseText (hexEncode seed.publicKey) (hexEncode seed.psk)
        (str "10.253.253." ++ decimal id)) s.device = (true, d) ∧
      s.provision dev r id = (.enrolled e, { s with
        device := d
        leases := s.leases.insert id ⟨hexEncode seed.publicKey, r.now + lifetime⟩ }) := by
  rw [Server.provision]
  cases hseed : r.seed with
  | error e => exact .inl ⟨rfl, rfl, rfl⟩
  | ok seed =>
    simp only [newPeer, hexOf, keyHex_encode]
    cases hset : dev.ipcSet (leaseText (hexEncode seed.publicKey) (hexEncode seed.psk)
        (str "10.253.253." ++ decimal id)) s.device with
    | mk ok d =>
      cases ok with
      | false => exact .inl ⟨rfl, rfl, hdev.failed hset⟩
      | true => exact .inr ⟨seed, d, _, rfl, hset, rfl⟩

/-- What an event does: leases that are over may go, and one with a key that was not there
    may come. -/
structure Stepped (dev : Device D) (now : Time) (s s' : Server D) : Prop where
  inv : Inv dev s'
  old_or_fresh : ∀ {id l}, s'.leases.lookup id = some l → s.leases.lookup id = some l ∨
    ∀ id' l', s.leases.lookup id' = some l' → l'.publicKey ≠ l.publicKey
  kept : ∀ {id l}, s.leases.lookup id = some l → now < l.expires → s'.leases.lookup id = some l

omit hdev in
theorem Pruned.stepped (h : Pruned dev now s s') : Stepped dev now s s' :=
  ⟨h.inv, fun hl => .inl (h.sub hl), h.kept⟩

omit hdev in
theorem Stepped.congr {s'' : Server D} (h : Stepped dev now s s') (hleases : s''.leases = s'.leases)
    (hpeers : dev.peers s''.device = dev.peers s'.device) : Stepped dev now s s'' := by
  refine ⟨h.inv.congr hleases hpeers, ?_, ?_⟩
  · rw [hleases]
    exact h.old_or_fresh
  · rw [hleases]
    exact h.kept

/-- A request that is admitted. -/
theorem stepped_provision {r : Request} (h : Pruned dev r.now s s')
    (hfresh : (Event.request r).Fresh s) (hlen : s'.leases.len < maxPeers) {s'' : Server D}
    (hs'' : s''.leases = s'.leases) (hd'' : s''.device = s'.device) :
    Stepped dev r.now s
      (s''.provision dev r (Server.freeID s'.leases maxPeers 2)).2 := by
  obtain ⟨hfree, hbounds⟩ := freeID_spec hlen
  have hinv : Inv dev s'' := h.inv.congr hs'' (by rw [hd''])
  rcases provision_cases hdev r (Server.freeID s'.leases maxPeers 2) s'' with
    ⟨_, hleases, hpeers⟩ | ⟨seed, d, e, hseed, hset, heq⟩
  · exact h.stepped.congr (hleases.trans hs'') (by rw [hpeers, hd''])
  · have hfresh' : ∀ id l, s''.leases.lookup id = some l →
        l.publicKey ≠ hexEncode seed.publicKey := fun id l hl =>
      hfresh seed hseed id l (h.sub (hs'' ▸ hl))
    rw [heq]
    refine ⟨hinv.provide hdev hbounds (hs'' ▸ hfree) hfresh' hset _, fun {id l} hl => ?_,
      fun {id l} hl hnow => ?_⟩
    · rw [Map.lookup_insert'] at hl
      split_ifs at hl
      · cases hl
        exact .inr fun id' l' hl' => hfresh seed hseed id' l' hl'
      · exact .inl (h.sub (hs'' ▸ hl))
    · have hl' := h.kept hl hnow
      have hne : id ≠ Server.freeID s'.leases maxPeers 2 := by
        rintro rfl
        rw [hfree] at hl'
        cases hl'
      show (s''.leases.insert _ _).lookup id = some l
      rw [Map.lookup_insert', if_neg hne, hs'', hl']

theorem stepped_next {a : Event} (h : Inv dev s) (horder : Map.IsRange a.order s.leases)
    (hfresh : a.Fresh s) : Stepped dev a.now s (s.next dev a) := by
  cases a with
  | tick now order => exact (pruned_of_isRange hdev h horder).stepped
  | request r =>
    have hpruned := pruned_refresh hdev h horder
    show Stepped dev r.now s (s.serveHTTP dev r).2
    rcases serveHTTP_cases dev r s with heq | heq | heq | ⟨hlen, s₁, hs₁, hd₁, heq⟩
    · rw [heq]
      exact ⟨h, .inl, fun hl _ => hl⟩
    · rw [heq]
      exact ⟨h, .inl, fun hl _ => hl⟩
    · rw [heq]
      exact hpruned.stepped
    · rw [heq]
      exact stepped_provision hdev hpruned hfresh hlen hs₁ hd₁

omit hdev in
/-- A lease stays as long as its peer is on the device. -/
theorem Stepped.kept_of_peer (hs : Inv dev s) (h : Stepped dev now s s') {id : ℕ} {l : Lease}
    (hl : s.leases.lookup id = some l) (hpeer : (dev.peers s'.device).lookup l.publicKey ≠ none) :
    s'.leases.lookup id = some l := by
  obtain ⟨q, hq⟩ := Option.ne_none_iff_exists'.1 hpeer
  obtain ⟨id', l', hl', hkey⟩ := h.inv.owned hq
  rcases h.old_or_fresh hl' with hold | hnew
  · cases hs.id_eq hl hold hkey.symm
    cases hl.symm.trans hold
    exact hl'
  · exact absurd hkey.symm (hnew id l hl)

/-- A provision that fails changes neither the leases nor the peers. -/
theorem serveHTTP_failed {r : Request} (h : (s.serveHTTP dev r).1 = .provisioningFailed) :
    (s.serveHTTP dev r).2.leases = (s.prune dev r.now r.order).leases ∧
      dev.peers (s.serveHTTP dev r).2.device = dev.peers (s.prune dev r.now r.order).device := by
  rcases serveHTTP_cases dev r s with heq | heq | heq | ⟨_, s₁, hs₁, hd₁, heq⟩
  · rw [heq] at h
    cases h
  · rw [heq] at h
    cases h
  · rw [heq] at h
    cases h
  · rcases provision_cases hdev r (Server.freeID (s.refresh dev r).leases maxPeers 2) s₁ with
      ⟨_, hleases, hpeers⟩ | ⟨seed, d, e, _, _, hprovision⟩
    · rw [heq, hleases, hpeers, hs₁, hd₁, refresh_leases, refresh_device]
      exact ⟨rfl, rfl⟩
    · rw [heq, hprovision] at h
      cases h

theorem inv_of_reachable {s₀ : Server D} (hleases : s₀.leases = ∅)
    (hpeers : dev.peers s₀.device = ∅) (h : (server dev s₀).Reachable s) : Inv dev s := by
  refine h.invariant (fun s hs => ?_) fun s a s' hs hstep => ?_
  · cases hs
    refine ⟨fun hl => ?_, fun hl => ?_, fun hq => ?_⟩
    · rw [hleases, Finmap.lookup_empty] at hl
      cases hl
    · rw [hleases, Finmap.lookup_empty] at hl
      cases hl
    · rw [hpeers, Finmap.lookup_empty] at hq
      cases hq
  · obtain ⟨horder, hfresh, rfl⟩ := hstep
    exact (stepped_next hdev hs horder hfresh).inv

end Events

namespace Sample

/-- The peers after a text. -/
def ipcSet (text : Bytes) (t : PeerTable) : Bool × PeerTable :=
  let pub := (text.drop 11).take 64
  let rest := text.drop 75
  if rest = str "\nremove=true\n" then (true, t.erase pub)
  else
    match parseAddr ((rest.drop 91).take ((rest.drop 91).length - 4)) with
    | some (.v4 ip) => (true, give t pub ((rest.drop 15).take 64) ip)
    | _ => (false, t)

def device : Device PeerTable := ⟨ipcSet, id⟩

theorem ipcSet_leaseText {pub psk : Bytes} (hpub : pub.length = 64) (hpsk : psk.length = 64)
    {address : Bytes} {ip : BitVec 32} (hip : parseAddr address = some (.v4 ip)) (t : PeerTable) :
    ipcSet (leaseText pub psk address) t = (true, give t pub psk ip) := by
  obtain ⟨htake, hdrop⟩ := drop_about hpub _
  obtain ⟨hset, hshared, haddress⟩ := drop_shared hpsk (str "\nallowed_ip=")
    (n := 91) (by decide) address rfl
  rw [ipcSet, leaseText, htake, hdrop, if_neg hset, haddress, hip, hshared]

theorem lawful : Lawful device where
  failed {text d d'} h := by
    have hset : ipcSet text d = (false, d') := h
    rw [ipcSet] at hset
    split_ifs at hset
    · cases hset
    · split at hset
      · cases hset
      · cases hset
        rfl
  peer {pub psk _ _ _ _} hip h := by
    have hset := ipcSet_leaseText (length_hexEncode_key pub) (length_hexEncode_key psk) hip
    exact (congrArg Prod.snd (h.symm.trans (hset _)))
  remove {pub _ _} h := by
    obtain ⟨htake, hdrop⟩ := drop_about (length_hexEncode_key pub) (str "\nremove=true\n")
    have hset : ∀ t, ipcSet (removeText (hexEncode pub)) t = (true, t.erase (hexEncode pub)) := by
      intro t
      rw [ipcSet, removeText, htake, hdrop, if_pos rfl]
    exact (congrArg Prod.snd (h.symm.trans (hset _)))

def identity : Identity := ⟨base64Encode (sampleKey 1), base64Encode (sampleKey 2), [5, 6, 7, 8]⟩

def seed : PeerSeed := ⟨sampleKey 3, sampleKey 4, sampleKey 5⟩

def initial : Server PeerTable := .start ∅ identity (str "vpn.example.com:51820") false

/-- The first request. -/
def request : Request := ⟨str "POST", 1, [], .ok seed⟩

end Sample

/-- Whatever fails, in every state: there are at most 64 leases, with identifiers in 2..65;
    the peers of the device are those of the leases, each with the address of its lease, so
    that no address is that of two; a request that is admitted finds a free identifier; a
    provision that fails changes neither leases nor peers; and a lease stays as long as
    its peer is on the device, and until it is over. -/
theorem leases_consistent {dev : Device D} (hdev : Lawful dev) {d : D} (hd : dev.peers d = ∅)
    (identity : Identity) (endpoint : Bytes) (probe : Bool) {s : Server D}
    (hs : (server dev (.start d identity endpoint probe)).Reachable s) :
    (s.leases.len ≤ 64 ∧ ∀ id l, s.leases.lookup id = some l → 2 ≤ id ∧ id ≤ 65) ∧
    (∀ k allowed, (∃ psk, (dev.peers s.device).lookup k = some ⟨psk, allowed⟩) ↔
      ∃ id l, s.leases.lookup id = some l ∧ l.publicKey = k ∧ allowed = {.single (clientIP id)}) ∧
    (∀ k k' q q' p, (dev.peers s.device).lookup k = some q → (dev.peers s.device).lookup k' = some q' →
      p ∈ q.allowed → p ∈ q'.allowed → k = k') ∧
    (∀ r : Request, ¬ (32 ≤ (s.refresh dev r).admissions ∨ 64 ≤ (s.refresh dev r).leases.len) →
      (s.refresh dev r).leases.lookup (Server.freeID (s.refresh dev r).leases 64 2) = none ∧
        2 ≤ Server.freeID (s.refresh dev r).leases 64 2 ∧
        Server.freeID (s.refresh dev r).leases 64 2 ≤ 65) ∧
    (∀ r : Request, (s.serveHTTP dev r).1 = .provisioningFailed →
      (s.serveHTTP dev r).2.leases = (s.prune dev r.now r.order).leases ∧
        dev.peers (s.serveHTTP dev r).2.device = dev.peers (s.prune dev r.now r.order).device) ∧
    ∀ a s', (server dev (.start d identity endpoint probe)).step s a s' →
      ∀ id l, s.leases.lookup id = some l →
        ((dev.peers s'.device).lookup l.publicKey ≠ none → s'.leases.lookup id = some l) ∧
          (a.now < l.expires → s'.leases.lookup id = some l) := by
  have hinv : Inv dev s := inv_of_reachable hdev rfl hd hs
  refine ⟨⟨hinv.len_le, fun id l hl => ?_⟩, fun k allowed => hinv.peer_iff, ?_, fun r hr => ?_,
    fun r hr => serveHTTP_failed hdev hr, fun a s' hstep id l hl => ?_⟩
  · obtain ⟨hge, hlt⟩ := hinv.bounds hl
    rw [maxPeers] at hlt
    omega
  · exact fun k k' q q' p hq hq' hp hp' => hinv.key_eq hq hq' hp hp'
  · obtain ⟨hfree, hge, hlt⟩ := freeID_spec (not_le.1 (not_or.1 hr).2)
    exact ⟨hfree, hge, Nat.le_of_lt_succ hlt⟩
  · obtain ⟨horder, hfresh, rfl⟩ := hstep
    have hstepped := stepped_next hdev hinv horder hfresh
    exact ⟨hstepped.kept_of_peer hinv hl, hstepped.kept hl⟩

theorem leases_consistent_sample :
    ((Sample.initial.serveHTTP Sample.device Sample.request).2.leases.lookup 2).isSome ∧
      ∃ psk, ((Sample.initial.serveHTTP Sample.device Sample.request).2.device).lookup
        (hexEncode (sampleKey 4)) = some ⟨psk, {.single (clientIP 2)}⟩ := by
  have hlease : (Sample.initial.serveHTTP Sample.device Sample.request).2.leases.lookup 2 =
    some ⟨hexEncode (sampleKey 4), 1 + lifetime⟩ := rfl
  refine ⟨by rw [hlease]; rfl, ?_⟩
  have hs : (server Sample.device Sample.initial).Reachable
      (Sample.initial.serveHTTP Sample.device Sample.request).2 := by
    refine .step (a := .request Sample.request) (.init rfl) ⟨rfl, fun seed _ id l hl => ?_, rfl⟩
    rw [show Sample.initial.leases = ∅ from rfl, Finmap.lookup_empty] at hl
    cases hl
  exact ((leases_consistent Sample.lawful rfl _ _ _ hs).2.1 _ _).2 ⟨2, _, hlease, rfl, rfl⟩

end QuicLab.EchoAwg
