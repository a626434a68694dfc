import QuicLab.AwgServer.Device
import QuicLab.Go.Net
import QuicLab.Go.Reader
import QuicLab.Go.Time

/-!
# The provisioning contract of AWG

The data shared by the admin server and the AWG worker (package `awgserver`):
the configuration and its checks, the identity of the server, the peers of the
users and which users are enabled.

The randomness of keys and headers is given. An X25519 key and a preshared key
are 32 bytes (`Key`), and the draws of an identity are enough to find its four
headers (`IdentitySeed`).
-/

namespace QuicLab.AwgServer

open Go

/-- The configuration of the AWG server. -/
structure Config where
  healthCheckIntervalSeconds : ℤ
  offlineAfterSeconds : ℤ
  endpoint : Bytes
  address : Bytes
  dns : Bytes
  allowedIPs : List Bytes
  interface : Bytes
  mtu : ℤ

namespace Config

/-- `Config.HealthInterval`. -/
def healthInterval (c : Config) : Duration :=
  if c.healthCheckIntervalSeconds = 0 then 25 * second else seconds c.healthCheckIntervalSeconds

/-- `Config.OfflineAfter`. -/
def offlineAfter (c : Config) : Duration :=
  if c.offlineAfterSeconds = 0 then 75 * second else seconds c.offlineAfterSeconds

/-- The check of the health times; twice an interval of at most 300 seconds does
    not wrap around. -/
def validTimes (c : Config) : Bool :=
  10 * second ≤ c.healthInterval ∧ c.healthInterval ≤ 300 * second ∧
    2 * c.healthInterval ≤ c.offlineAfter ∧ c.offlineAfter ≤ 3600 * second

/-- The check of the endpoint. -/
def validEndpoint (c : Config) : Bool :=
  match splitHostPort c.endpoint with
  | none => false
  | some (h, p) =>
    match atoi p with
    | none => false
    | some port => h ≠ [] ∧ ¬ h.any (· ∈ str "\r\n\t ;#") ∧ 1 ≤ port ∧ port ≤ 65535

/-- The check of the address: a host of an IPv4 network of 16 to 29 bits. -/
def validAddress (c : Config) : Bool :=
  match Netip.parsePrefix c.address with
  | none => false
  | some a => a.addr.is4 ∧ 16 ≤ a.bits ∧ a.bits ≤ 29 ∧ a.addr ≠ a.masked.addr ∧
      a.addr.next.any a.contains

/-- Does the text parse as an IPv4 prefix? -/
def isPrefix4 (s : Bytes) : Bool := (Netip.parsePrefix s).any (·.addr.is4)

/-- `Config.Validate`: the error, if any. -/
def validate (c : Config) : Option Error :=
  if ¬ c.validTimes then
    some (.new ("AWG health interval must be 10..300 seconds; " ++
      "offline timeout >= 2 intervals and <= 3600 seconds"))
  else if ¬ c.validEndpoint then some (.new "AWG endpoint must be host:port")
  else if ¬ c.validAddress then some (.new "AWG address must be a host IPv4 /16../29")
  else if ¬ (Netip.parseAddr c.dns).any (·.is4) then some (.new "AWG DNS must be IPv4")
  else if c.interface ≠ str "ql-awg0" then some (.new "AWG interface must be ql-awg0")
  else if c.mtu < 1280 ∨ 1420 < c.mtu then some (.new "AWG MTU must be 1280..1420")
  else if c.allowedIPs = [] then some (.new "AWG AllowedIPs required")
  else if ¬ c.allowedIPs.all isPrefix4 then some (.new "AWG supports IPv4 AllowedIPs")
  else none

/-- `Config.Port`. -/
def port (c : Config) : ℤ :=
  match splitHostPort c.endpoint with
  | none => 0
  | some (_, p) => (atoi p).getD 0

end Config

/-! ## Keys -/

/-- The identity of the server. -/
structure Identity where
  privateKey : Bytes
  publicKey : Bytes
  headers : List UInt32
  deriving DecidableEq

/-- The AWG peer of a user. -/
structure Peer where
  privateKey : Bytes
  publicKey : Bytes
  psk : Bytes
  address : Bytes
  deriving DecidableEq

/-- The loop of `NewIdentity`: `k` more headers, above 4 and distinct from those
    in `seen`, from the draws given. -/
def pickHeaders : ℕ → (seen draws : List UInt32) → Option (List UInt32)
  | 0, seen, _ => some seen
  | _ + 1, _, [] => none
  | k + 1, seen, n :: draws =>
    if 4 < n.toNat ∧ n ∉ seen then pickHeaders k (seen ++ [n]) draws
    else pickHeaders (k + 1) seen draws

/-- The randomness of an identity. -/
structure IdentitySeed where
  privateKey : Key
  publicKey : Key
  draws : List UInt32
  enough : (pickHeaders 4 [] draws).isSome

/-- `NewIdentity`. -/
def newIdentity (seed : Except String IdentitySeed) : Except Error Identity :=
  match seed with
  | .error e => .error (.sys e)
  | .ok seed => .ok
    { privateKey := base64Encode seed.privateKey
      publicKey := base64Encode seed.publicKey
      headers := (pickHeaders 4 [] seed.draws).get seed.enough }

/-- The randomness of a peer. -/
structure PeerSeed where
  privateKey : Key
  publicKey : Key
  psk : Key

/-- `NewPeer`. -/
def newPeer (address : Bytes) (seed : Except String PeerSeed) : Except Error Peer :=
  match seed with
  | .error e => .error (.sys e)
  | .ok seed => .ok
    { privateKey := base64Encode seed.privateKey
      publicKey := base64Encode seed.publicKey
      psk := base64Encode seed.psk
      address }

/-- `KeyHex`. -/
def keyHex (key : Bytes) : Except Error Bytes :=
  match base64Decode key with
  | none => .error (.new "invalid AWG key")
  | some b => if b.length ≠ 32 then .error (.new "invalid AWG key") else .ok (hexEncode b)

theorem keyHex_encode (k : Key) : keyHex (base64Encode k) = .ok (hexEncode k) := by
  rw [keyHex, base64Decode_encode]
  simp only [k.2, ne_eq, not_true_eq_false, if_false]

theorem keyHex_ok {key h : Bytes} (hk : keyHex key = .ok h) : ∃ k : Key, h = hexEncode k := by
  rw [keyHex] at hk
  split at hk
  · cases hk
  · rename_i b _
    split_ifs at hk with hlen
    cases hk
    exact ⟨⟨b, not_not.1 hlen⟩, rfl⟩

/-- `Identity.Parameters`. -/
def Identity.parameters (i : Identity) : Bytes :=
  let h := fun k => decimal (i.headers.getD k 0).toNat
  str "jc=5\njmin=50\njmax=1000\ns1=134\ns2=90\nh1=" ++ h 0 ++ str "\nh2=" ++ h 1 ++
    str "\nh3=" ++ h 2 ++ str "\nh4=" ++ h 3 ++ str "\n"

/-! ## Users -/

/-- `Enabled`: without a list, the protocols are QUIC and HTTPS. -/
def enabled (protocols : Option (List Bytes)) (protocol : Bytes) : Bool :=
  match protocols with
  | none => protocol = str "quic" || protocol = str "https"
  | some ps => protocol ∈ ps

/-- The fields of a user that the worker reads. -/
structure User where
  id : Bytes
  disabled : Bool
  protocols : Option (List Bytes)
  expires : Time
  awg : Option Peer
  deriving DecidableEq

/-- The fields of the identity store that the worker reads. -/
structure State where
  awg : Option Identity
  users : Map Bytes User

/-- `User.Enabled`. -/
def User.enabled (u : User) (now : Time) : Bool :=
  !u.disabled && now < u.expires && AwgServer.enabled u.protocols (str "awg") && u.awg.isSome

/-- The status of an AWG peer, as the worker reports it. -/
structure PeerStatus where
  id : Bytes
  source : Bytes
  handshake : Time
  activity : Time
  tx : UInt64
  rx : UInt64

/-- The status the worker reports. -/
structure Status where
  started : Time
  updated : Time
  peers : List PeerStatus

end QuicLab.AwgServer
